/-
StructuralEditor/Proofs/Preparation.lean

What a snapshot becomes before an edit is applied to it.

For a valid selection the preparation touches one node at most: a selected
number gets its canonical text (`Snapshot.prepared_eq`), and where no number is
selected nothing happens.  So preparing twice is preparing once
(`Snapshot.prepared_prepared`), every leaf apart from the selected one is the
same before and after (`Snapshot.nodeAt?_prepared_of_ne`), and a document keeps
the rules of a grammar (`Snapshot.fits_prepared`).
-/
import StructuralEditor.Proofs.Grammar
import StructuralEditor.Proofs.Validity

namespace StructuralEditor

open Document Editing Number

/-- A node with canonical text, if it is a number. -/
def Document.Node.canonicalized : Node → Node
  | .number text => .number (normalize text)
  | n => n

theorem Document.Node.canonicalized_of_not_number {n : Node} (h : ∀ text, n ≠ .number text) :
    n.canonicalized = n := by
  unfold canonicalized
  split
  · next text => exact absurd rfl (h text)
  · rfl

namespace Document.Snapshot

variable {s : Snapshot} {n : Node}

/-- The preparation of a snapshot writes the selected node, in canonical form if
it is a number. -/
theorem prepared_eq (hn : s.node? = some n) :
    ∃ tree, s.tree.put? s.selected (.node n.canonicalized) = some tree ∧
      s.prepared = ⟨tree, s.selected⟩ := by
  have hs : s.resolves = true := Node.resolves_of_nodeAt? hn
  rw [prepared, reselected_of_resolves hs]
  unfold normalized
  split
  · next text hnumber =>
    obtain rfl := Option.some.inj (hnumber.symm.trans hn)
    obtain ⟨tree, htree⟩ := Node.exists_put? (.node (.number (normalize text)))
      (Node.nodeAt?_eq_some.1 hn) rfl
    exact ⟨tree, htree, by rw [htree, Option.getD_some]⟩
  · next hother =>
    have hnumber : ∀ text, n ≠ .number text := by
      rintro text rfl
      exact hother text hn
    rw [Node.canonicalized_of_not_number hnumber]
    exact ⟨s.tree, Node.put?_self (Node.nodeAt?_eq_some.1 hn), rfl⟩

/-- Where no node is selected, it does nothing. -/
theorem prepared_of_node?_eq_none (hs : s.resolves = true) (hn : s.node? = none) :
    s.prepared = s := by
  rw [prepared, reselected_of_resolves hs]
  simp [normalized, hn]

/-- Where the selected node is in canonical form, it does nothing either, … -/
theorem prepared_of_canonicalized (hn : s.node? = some n) (h : n.canonicalized = n) :
    s.prepared = s := by
  obtain ⟨tree, htree, heq⟩ := prepared_eq hn
  rw [h, Node.put?_self (Node.nodeAt?_eq_some.1 hn)] at htree
  rw [heq, ← Option.some.inj htree]

/-- … as every node is that is no number. -/
theorem prepared_of_not_number (hn : s.node? = some n) (hnumber : ∀ text, n ≠ .number text) :
    s.prepared = s :=
  prepared_of_canonicalized hn (Node.canonicalized_of_not_number hnumber)

theorem node?_prepared (hs : s.resolves = true) :
    s.prepared.node? = s.node?.map Node.canonicalized := by
  rcases hn : s.node? with - | n
  · rw [prepared_of_node?_eq_none hs hn, hn]
    rfl
  · obtain ⟨tree, htree, heq⟩ := prepared_eq hn
    rw [heq, node?, Node.nodeAt?_eq_some.2 (Node.get?_put? htree)]
    rfl

/-- A snapshot is its preparation with the selected node written back. -/
theorem put?_prepared (hn : s.node? = some n) :
    s.prepared.tree.put? s.selected (.node n) = some s.tree := by
  obtain ⟨tree, htree, heq⟩ := prepared_eq hn
  rw [heq, Node.put?_put? htree, Node.put?_self (Node.nodeAt?_eq_some.1 hn)]

/-- What is prepared may be prepared again. -/
theorem prepared_prepared (hs : s.resolves = true) : s.prepared.prepared = s.prepared := by
  obtain ⟨hs', -⟩ := resolves_prepared hs
  rcases hn : s.prepared.node? with - | n
  · exact prepared_of_node?_eq_none hs' hn
  · -- the node is in canonical form already
    obtain ⟨m, -, rfl⟩ := Option.map_eq_some_iff.1 ((node?_prepared hs).symm.trans hn)
    apply prepared_of_canonicalized hn
    cases m with
    | leaf kind text => cases kind <;> simp [Node.canonicalized, normalize_normalize]
    | _ => rfl

/-- Leaves apart from the selected one stay as they are. -/
theorem nodeAt?_prepared_of_ne (hs : s.resolves = true) {p : Path} {kind : LeafKind} {text : String}
    (hleaf : s.tree.nodeAt? p = some (.leaf kind text)) (hp : p ≠ s.selected) :
    s.prepared.tree.nodeAt? p = some (.leaf kind text) := by
  rcases hn : s.node? with - | n
  · rwa [prepared_of_node?_eq_none hs hn]
  · by_cases hnumber : ∃ old, n = .number old
    · obtain ⟨old, rfl⟩ := hnumber
      have hput := Node.put?_eq_some.1 (put?_prepared hn)
      rcases Content.get?_put?_leaf hput (Node.nodeAt?_eq_some.1 hleaf) with
        ⟨r, rfl, hr⟩ | hbefore
      · -- below a number there is nothing
        cases r with
        | nil => exact absurd (List.append_nil _) hp
        | cons step r =>
          obtain ⟨d, hd, hr⟩ := Option.bind_eq_some_iff.1 hr
          have hnodes := Content.holdsNodes_of_get? hr
          cases step with
          | field name =>
            rw [Content.child?_field, Node.field?, Option.ite_none_right_eq_some] at hd
            obtain rfl := Option.some.inj hd.2
            simp [Content.HoldsNodes] at hnodes
          | _ => cases hd
      · exact Node.nodeAt?_eq_some.2 hbefore
    · have hnumber : ∀ old, n ≠ .number old := fun old heq => hnumber ⟨old, heq⟩
      rwa [prepared_of_not_number hn hnumber]

variable {g : Grammar}

/-- A number keeps the rules with its canonical text, whatever its text is. -/
theorem replaces_canonicalized (n : Node) : g.Replaces n n.canonicalized := by
  intro isMember h
  cases n with
  | leaf kind text =>
    cases kind with
    | number => exact ⟨h.1, .leaf fun _ => g.number_canonicalText _⟩
    | _ => exact h
  | _ => exact h

/-- The preparation of a snapshot keeps the rules of its document. -/
theorem fits_prepared (htree : g.Fits false s.tree) : g.Fits false s.prepared.tree := by
  have hreselected : s.reselected.tree = s.tree := by
    unfold reselected
    split <;> rfl
  rw [prepared]
  rcases normalized_cases s.reselected with heq | ⟨text, tree, hnumber, hput, heq⟩
  · rw [heq, hreselected]
    exact htree
  · rw [heq]
    rw [← hreselected] at htree
    exact Grammar.fits_put? hnumber hput (replaces_canonicalized (.number text)) htree

end Document.Snapshot

end StructuralEditor
