/-
StructuralEditor/Proofs/Stopping.lean

Moves in one direction stop.

A property that enters an object goes deeper, and one that leaves an object comes up
again; its position in its list may grow or shrink on the way, whichever the direction.
What goes one way only is the place of the gap in the document as a whole, read from the
beginning to the end.  It is measured in *marks*: one for every leaf, one between the two
nodes of a pair, and one at either end of every list (`Node.marks`).  Whatever stands in
an object that is the value of a property lies between the places in front of that
property and behind it (`offset_lt_nested`, `nested_lt_offset`), so of the marks in front
of a gap there are fewer after every step up and more after every step down.

The rest of the document, in which all this is measured, is the same along a run of
moves; so the marks that are still ahead of the gap bound the length of the run.
-/
import StructuralEditor.Proofs.Gaps

namespace StructuralEditor

namespace Document

/-! ### Marks -/

mutual

/-- The number of marks of a node. -/
def Node.marks : Node → Nat
  | .null | .boolean _ | .leaf _ _ => 1
  | .pair _ a b => a.marks + 1 + b.marks
  | .group _ ns => Node.marksAll ns + 2

/-- The number of marks of several nodes. -/
def Node.marksAll : List Node → Nat
  | [] => 0
  | n :: ns => n.marks + Node.marksAll ns

end

namespace Content

/-- The number of marks of a content. -/
def marks : Content → Nat
  | .node n => n.marks
  | .items ns => Node.marksAll ns
  | .text _ | .flag _ => 0

/-- The number of marks in a content in front of what stands at a step. -/
def marksBefore : Content → Step → Nat
  | .node (.pair kind a _), .field name => if name = kind.secondField then a.marks + 1 else 0
  | .node (.group _ _), .field _ => 1
  | .items ns, .index i => Node.marksAll (ns.take i)
  | _, _ => 0

/-- The number of marks in a content in front of the place that a path leads to. -/
def offset (c : Content) : Path → Nat
  | [] => 0
  | step :: p => c.marksBefore step +
      match c.child? step with
      | some d => d.offset p
      | none => 0

end Content

namespace Node

theorem marksAll_append (ns ms : List Node) : marksAll (ns ++ ms) = marksAll ns + marksAll ms := by
  induction ns with
  | nil => exact (Nat.zero_add _).symm
  | cons n ns ih => rw [List.cons_append, marksAll, marksAll, ih, Nat.add_assoc]

theorem marks_pos (n : Node) : 0 < n.marks := by
  cases n <;> simp only [marks] <;> omega

section

variable {ns : List Node} {i : Nat} {n : Node}

theorem marksAll_take_succ (hi : ns[i]? = some n) :
    marksAll (ns.take (i + 1)) = marksAll (ns.take i) + n.marks := by
  rw [List.take_add_one, marksAll_append, hi]
  simp [marksAll]

theorem marksAll_take_le (ns : List Node) (i : Nat) : marksAll (ns.take i) ≤ marksAll ns := by
  have hsplit := marksAll_append (ns.take i) (ns.drop i)
  rw [List.take_append_drop] at hsplit
  omega

theorem marksAll_set (hi : ns[i]? = some n) (m : Node) :
    marksAll (ns.set i m) + n.marks = marksAll ns + m.marks := by
  obtain ⟨before, after, rfl, rfl⟩ := exists_split hi
  rw [List.set_append_right _ _ (Nat.le_refl _), Nat.sub_self, List.set_cons_zero, marksAll_append,
    marksAll_append, marksAll, marksAll]
  omega

theorem marksAll_insertItem (ns : List Node) (i : Nat) (x : Node) :
    marksAll (insertItem ns i x) = marksAll ns + x.marks := by
  have hsplit := marksAll_append (ns.take i) (ns.drop i)
  rw [List.take_append_drop] at hsplit
  rw [insertItem, marksAll_append, marksAll]
  omega

end

end Node

namespace Content

variable {c c' d old new : Content} {step : Step} {p : Path}

theorem marksBefore_add_le (h : c.child? step = some d) :
    c.marksBefore step + d.marks ≤ c.marks := by
  cases step with
  | field name =>
    obtain ⟨n, rfl, hn⟩ := child?_eq_some_field h
    obtain ⟨n', hrewrites⟩ := Node.Rewrites.of_field? hn (rfl : d.sort = d.sort)
    cases hrewrites with
    | first kind a b m =>
      simp only [marksBefore, marks, Node.marks, kind.firstField_ne_secondField, if_false]
      omega
    | items kind ns ms =>
      simp only [marksBefore, marks, Node.marks]
      omega
    | _ => simp [marksBefore, marks, Node.marks]
  | index i =>
    obtain ⟨ns, n, rfl, hn, rfl⟩ := child?_eq_some_index h
    have htake := Node.marksAll_take_succ hn
    have hle := Node.marksAll_take_le ns (i + 1)
    simp only [marksBefore, marks]
    omega
  | afterLast => simp at h

@[simp] theorem offset_singleton (c : Content) (step : Step) :
    c.offset [step] = c.marksBefore step := by
  rw [offset]
  split <;> rfl

theorem offset_append (h : c.get? p = some d) (q : Path) :
    c.offset (p ++ q) = c.offset p + d.offset q := by
  induction p generalizing c with
  | nil =>
    obtain rfl := Option.some.inj h
    exact (Nat.zero_add _).symm
  | cons step p ih =>
    obtain ⟨e, he, hd⟩ := Option.bind_eq_some_iff.1 h
    rw [List.cons_append, offset, offset, he]
    simp only [ih hd, Nat.add_assoc]

/-- What stands at a path is a part of the whole. -/
theorem offset_add_le (h : c.get? p = some d) : c.offset p + d.marks ≤ c.marks := by
  induction p generalizing c with
  | nil =>
    obtain rfl := Option.some.inj h
    exact Nat.le_of_eq (Nat.zero_add _)
  | cons step p ih =>
    obtain ⟨e, he, hd⟩ := Option.bind_eq_some_iff.1 h
    have hstep := marksBefore_add_le he
    have hrest := ih hd
    rw [offset, he]
    simp only
    omega

theorem marks_withChild? (hold : c.child? step = some old) (h : c.withChild? step new = some c') :
    c'.marks + old.marks = c.marks + new.marks := by
  cases step with
  | field name =>
    obtain ⟨n, rfl, hn⟩ := child?_eq_some_field hold
    obtain ⟨n', hn', rfl⟩ := Option.map_eq_some_iff.1 h
    obtain ⟨old', hrewrites⟩ := Node.Rewrites.of_withField? hn'
    obtain rfl := Option.some.inj (hrewrites.field?.symm.trans hn)
    cases hrewrites <;> simp only [marks, Node.marks] <;> omega
  | index i =>
    obtain ⟨ns, n, rfl, hn, rfl⟩ := child?_eq_some_index hold
    obtain ⟨ms, m, heq, rfl, rfl⟩ := withChild?_eq_some_index h
    obtain rfl := Content.items.inj heq
    exact Node.marksAll_set hn m
  | afterLast => simp at hold

/-- A write exchanges the marks of the old content for those of the new one. -/
theorem marks_put? (hold : c.get? p = some old) (h : c.put? p new = some c') :
    c'.marks + old.marks = c.marks + new.marks := by
  induction p generalizing c c' with
  | nil =>
    obtain rfl := Option.some.inj hold
    obtain rfl := Option.some.inj h
    exact Nat.add_comm _ _
  | cons step p ih =>
    obtain ⟨child, rebuilt, hchild, hput, hwith⟩ := put?_cons_eq_some.1 h
    rw [get?_cons, hchild] at hold
    have hbelow := ih hold hput
    have hstep := marks_withChild? hchild hwith
    omega

end Content

end Document

namespace Editing

open Document Document.Node

/-! ### Marks in front of a gap -/

/-- The number of marks in front of a gap. -/
def Gap.offset (g : Gap) (rest : Node) : Nat :=
  (Content.node rest).offset g.path

section

variable {rest item tree : Node} {list : Path} {ns items : List Node} {i k : Nat} {n key : Node}
  {inner : GroupKind}

theorem offset_of_items (hlist : rest.itemsAt? list = some ns) (i : Nat) :
    Gap.offset ⟨list, i⟩ rest =
      (Content.node rest).offset list + marksAll (ns.take i) := by
  rw [Gap.offset, Gap.path, Content.offset_append (itemsAt?_eq_some.1 hlist),
    Content.offset_singleton, Content.marksBefore]

theorem offset_le_marks (hlist : rest.itemsAt? list = some ns) (i : Nat) :
    Gap.offset ⟨list, i⟩ rest ≤ rest.marks := by
  have hle : (Content.node rest).offset list + marksAll ns ≤ rest.marks :=
    Content.offset_add_le (itemsAt?_eq_some.1 hlist)
  have htake := marksAll_take_le ns i
  rw [offset_of_items hlist]
  omega

/-- The place behind an item comes after the place in front of it. -/
theorem offset_lt_succ (hlist : rest.itemsAt? list = some ns) (hk : ns[k]? = some n) :
    Gap.offset ⟨list, k⟩ rest < Gap.offset ⟨list, k + 1⟩ rest := by
  have hpos := n.marks_pos
  rw [offset_of_items hlist, offset_of_items hlist, marksAll_take_succ hk]
  omega

/-- The places in the list of a property: the key stands in front of them, and the mark
after it, and the mark at the beginning of the list. -/
theorem offset_nested (hlist : rest.itemsAt? list = some ns)
    (hk : ns[k]? = some (.property key (.group inner items))) (i : Nat) :
    Gap.offset ⟨list ++ Content.nestedItems k .property inner, i⟩ rest =
      Gap.offset ⟨list, k⟩ rest + key.marks + 2 + marksAll (items.take i) := by
  rw [offset_of_items (itemsAt?_nested hlist hk), offset_of_items hlist,
    Content.offset_append (itemsAt?_eq_some.1 hlist)]
  simp [Content.nestedItems, Content.offset, Content.marksBefore, hk, Nat.add_assoc]

theorem offset_lt_nested (hlist : rest.itemsAt? list = some ns)
    (hk : ns[k]? = some (.property key (.group inner items))) (i : Nat) :
    Gap.offset ⟨list, k⟩ rest <
      Gap.offset ⟨list ++ Content.nestedItems k .property inner, i⟩ rest := by
  rw [offset_nested hlist hk]
  omega

theorem nested_lt_offset (hlist : rest.itemsAt? list = some ns)
    (hk : ns[k]? = some (.property key (.group inner items))) (i : Nat) :
    Gap.offset ⟨list ++ Content.nestedItems k .property inner, i⟩ rest <
      Gap.offset ⟨list, k + 1⟩ rest := by
  have htake := marksAll_take_le items i
  rw [offset_nested hlist hk, offset_of_items hlist, offset_of_items hlist, marksAll_take_succ hk,
    marks, marks]
  omega

end

section

variable {x : Excerpt} {g g' : Gap} {direction : Vertical} {effect : Effect} {s s' t : Snapshot}

/-- A step up leads to the front, and a step down to the back. -/
theorem Excerpt.Shifts.offset_lt (h : x.Shifts direction g effect g') :
    match direction with
    | .up => g'.offset x.rest < g.offset x.rest
    | .down => g.offset x.rest < g'.offset x.rest := by
  cases h with
  | swapped hlist hk =>
    cases direction with
    | up => exact offset_lt_succ hlist hk
    | down => exact offset_lt_succ hlist hk
  | entered hlist hk =>
    cases direction with
    | up => exact nested_lt_offset hlist hk _
    | down => exact offset_lt_nested hlist hk _
  | exited howner hk =>
    have hlist := itemsAt?_of_group howner
    cases direction with
    | up => exact offset_lt_nested hlist hk _
    | down => exact nested_lt_offset hlist hk _

/-- The number of marks ahead of a gap. -/
def Gap.ahead (g : Gap) (rest : Node) : Vertical → Nat
  | .up => g.offset rest
  | .down => rest.marks - g.offset rest

theorem Gap.Fills.ahead_le {rest item tree : Node} (h : g.Fills rest item tree)
    (direction : Vertical) : g.ahead rest direction ≤ tree.marks := by
  obtain ⟨hlist, hle, hput⟩ := h
  have hrest := offset_le_marks hlist g.position
  have htree := Content.marks_put? (itemsAt?_eq_some.1 hlist) (put?_eq_some.1 hput)
  simp only [Content.marks, marksAll_insertItem] at htree
  have hoffset : g.offset rest ≤ rest.marks := hrest
  cases direction <;> simp only [Gap.ahead] <;> omega

/-- A step of the gap leaves less of the document ahead. -/
theorem Excerpt.Shifts.ahead_lt (h : x.Shifts direction g effect g') (hs' : x.Makes g' s') :
    g'.ahead x.rest direction < g.ahead x.rest direction := by
  obtain ⟨hlist, -, -⟩ := hs'.fills
  have hle : g'.offset x.rest ≤ x.rest.marks := offset_le_marks hlist g'.position
  have hlt := h.offset_lt
  cases direction with
  | up => exact hlt
  | down =>
    simp only [Gap.ahead] at hlt ⊢
    omega

/-! ### Runs of moves -/

/-- The snapshot after a move, if it applies. -/
def moved? (direction : Vertical) (s : Snapshot) : Option Snapshot :=
  match move direction s.tree s.selected with
  | .ok (.applied _ change) => some (s.apply change)
  | _ => none

/-- The snapshot after some moves in one direction, if they all apply. -/
def movedBy? (direction : Vertical) : Nat → Snapshot → Option Snapshot
  | 0, s => some s
  | n + 1, s => (moved? direction s).bind (movedBy? direction n)

/-- A move that applies is a step of the gap, … -/
theorem Excerpt.Makes.ahead_lt_of_moved? (hs : x.Makes g s) (h : moved? direction s = some s') :
    ∃ g', x.Makes g' s' ∧ g'.ahead x.rest direction < g.ahead x.rest direction := by
  rcases hs.shifts_or_declined direction with ⟨effect, g', hshifts⟩ | ⟨reason, hmove⟩
  · obtain ⟨s'', hs'', hmove⟩ := hs.move_eq_ok hshifts
    rw [moved?, hmove] at h
    obtain rfl : s'' = s' := Option.some.inj h
    exact ⟨g', hs'', hshifts.ahead_lt hs''⟩
  · rw [moved?, hmove] at h
    cases h

/-- … and a run of moves is no longer than what is ahead. -/
theorem Excerpt.Makes.ahead_add_le {n : Nat} (hs : x.Makes g s)
    (h : movedBy? direction n s = some t) :
    ∃ g', x.Makes g' t ∧ g'.ahead x.rest direction + n ≤ g.ahead x.rest direction := by
  induction n generalizing g s with
  | zero =>
    obtain rfl := Option.some.inj h
    exact ⟨g, hs, Nat.le_refl _⟩
  | succ n ih =>
    obtain ⟨s', hmoved, hrest⟩ := Option.bind_eq_some_iff.1 h
    obtain ⟨g', hs', hlt⟩ := hs.ahead_lt_of_moved? hmoved
    obtain ⟨g'', ht, hle⟩ := ih hs' hrest
    exact ⟨g'', ht, by omega⟩

/-- Only an item moves. -/
theorem exists_makes_of_moved? (h : moved? direction s = some s') :
    ∃ x g, Excerpt.Makes x g s := by
  rcases move_declined_or_shifts direction s with ⟨reason, hmove⟩ | ⟨x, g, -, -, -, hs, -⟩
  · rw [moved?, hmove] at h
    cases h
  · exact ⟨x, g, hs⟩

/-- A run of moves is no longer than the document has marks, and does not come back. -/
theorem le_marks_of_movedBy? {n : Nat} (h : movedBy? direction n s = some t) :
    n ≤ s.tree.marks ∧ (t = s → n = 0) := by
  cases n with
  | zero => exact ⟨Nat.zero_le _, fun _ => rfl⟩
  | succ n =>
    obtain ⟨s', hmoved, -⟩ := Option.bind_eq_some_iff.1 h
    obtain ⟨x, g, hs⟩ := exists_makes_of_moved? hmoved
    obtain ⟨g', ht, hle⟩ := hs.ahead_add_le h
    have hbound := hs.fills.ahead_le direction
    refine ⟨by omega, ?_⟩
    rintro rfl
    -- the same selection means the same gap
    have hpath : g'.path = g.path :=
      List.append_cancel_right (ht.selected.symm.trans hs.selected)
    have hsame : g'.ahead x.rest direction = g.ahead x.rest direction := by
      cases direction <;> simp only [Gap.ahead, Gap.offset, hpath]
    omega

/-- A move leads on, or declines, … -/
theorem moved?_or_declined (direction : Vertical) (s : Snapshot) :
    (∃ s', moved? direction s = some s') ∨
      ∃ reason, move direction s.tree s.selected = .ok (.declined reason) := by
  rcases move_declined_or_shifts direction s with hdeclined | ⟨-, -, effect, -, s', -, -, -, hmove⟩
  · exact .inr hdeclined
  · exact .inl ⟨_, by rw [moved?, hmove]⟩

/-- … and so moves go on as long as one likes, or come to one that declines. -/
theorem declines_or_goes_on (direction : Vertical) (s : Snapshot) (m : Nat) :
    (∃ n t reason, n ≤ m ∧ movedBy? direction n s = some t ∧
      move direction t.tree t.selected = .ok (.declined reason)) ∨
    ∃ t, movedBy? direction (m + 1) s = some t := by
  induction m generalizing s with
  | zero =>
    rcases moved?_or_declined direction s with ⟨s', hmoved⟩ | ⟨reason, hmove⟩
    · exact .inr ⟨s', by rw [movedBy?, hmoved]; rfl⟩
    · exact .inl ⟨0, s, reason, Nat.le_refl _, rfl, hmove⟩
  | succ m ih =>
    rcases moved?_or_declined direction s with ⟨s', hmoved⟩ | ⟨reason, hmove⟩
    · rcases ih s' with ⟨n, t, reason, hle, ht, hdeclined⟩ | ⟨t, ht⟩
      · exact .inl ⟨n + 1, t, reason, Nat.succ_le_succ hle, by rw [movedBy?, hmoved]; exact ht,
          hdeclined⟩
      · exact .inr ⟨t, by rw [movedBy?, hmoved]; exact ht⟩
    · exact .inl ⟨0, s, reason, Nat.zero_le _, rfl, hmove⟩

end

/-- **Moves in one direction stop.**  After no more moves than the document has marks
there is one that declines; no moves lead back to where they have started; and none go
on for ever. -/
theorem moves_stop (direction : Vertical) (s : Snapshot) :
    (∃ n t reason, n ≤ s.tree.marks ∧ movedBy? direction n s = some t ∧
      move direction t.tree t.selected = .ok (.declined reason)) ∧
    (∀ n, movedBy? direction n s = some s → n = 0) ∧
    ¬ ∃ run : Nat → Snapshot, run 0 = s ∧ ∀ n, moved? direction (run n) = some (run (n + 1)) := by
  refine ⟨?_, fun n h => (le_marks_of_movedBy? h).2 rfl, ?_⟩
  · rcases declines_or_goes_on direction s s.tree.marks with hdeclines | ⟨t, ht⟩
    · exact hdeclines
    · have hle := (le_marks_of_movedBy? ht).1
      omega
  · rintro ⟨run, rfl, hrun⟩
    have hmoved : ∀ n k, movedBy? direction n (run k) = some (run (k + n)) := by
      intro n
      induction n with
      | zero => exact fun k => rfl
      | succ n ih =>
        intro k
        rw [movedBy?, hrun, Option.bind_some, ih, Nat.add_right_comm, Nat.add_assoc]
    have hle := (le_marks_of_movedBy? (hmoved ((run 0).tree.marks + 1) 0)).1
    omega

end Editing

end StructuralEditor
