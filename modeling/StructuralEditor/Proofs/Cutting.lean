/-
StructuralEditor/Proofs/Cutting.lean

What a cut puts on the clipboard, and what the document loses by it.

Copying and deleting look at one selection in two ways.  A copy takes the node
at the selection, or the owner of the list if the selection is the place after
its last item.  A deletion takes out the item that the selection stands in, or
the whole document.  Both start from the same path without its end, and they
differ by the fields that this path has behind its last index
(`delete_of_copied`): with none, the document loses what has been copied; with
some, it loses the item around it, such as the property around a copied value.
The text tells the two cases apart, because the source of a pair is longer than
the sources of its nodes (`length_source_lt`).
-/
import StructuralEditor.Proofs.Preparation
import StructuralEditor.Proofs.Steps

namespace StructuralEditor

open Document Editing

namespace Document

/-! ### The end of a path -/

/-- A path has no end, or is nothing but one, or has one behind a step. -/
theorem Path.withoutEnd_cases (p : Path) :
    (p.isAfterLast = false ∧ p.withoutEnd = p) ∨ (p = [.afterLast] ∧ p.withoutEnd = []) ∨
      ∃ step, p = p.withoutEnd ++ [step, .afterLast] := by
  rcases hlast : p.isAfterLast with - | -
  · exact .inl ⟨rfl, by simp [withoutEnd, hlast]⟩
  · obtain ⟨q, rfl⟩ := Path.isAfterLast_iff.1 hlast
    rcases List.eq_nil_or_concat q with rfl | ⟨owner, step, rfl⟩
    · exact .inr (.inl ⟨rfl, rfl⟩)
    · refine .inr (.inr ⟨step, ?_⟩)
      have howner : (owner.concat step ++ [.afterLast] : Path).withoutEnd = owner := by
        rw [withoutEnd, if_pos hlast, List.dropLast_concat, List.concat_eq_append,
          List.dropLast_concat]
      rw [howner, List.concat_eq_append, List.append_assoc]
      rfl

/-! ### What a document loses -/

/-- The subtree that stands at a place is taken out of a document: the document
becomes null, or a list loses one item and nothing else changes. -/
inductive Node.Loses : Node → Path → Node → Node → Prop
  | document (tree : Node) : Loses tree [] tree .null
  | item {tree rest lost : Node} {list : Path} {ns : List Node} {i : Nat}
      (hlist : tree.itemsAt? list = some ns) (hitem : ns[i]? = some lost)
      (hrest : tree.put? list (.items (ns.eraseIdx i)) = some rest) :
      Loses tree (list ++ [.index i]) lost rest

theorem Node.Loses.nodeAt? {tree lost rest : Node} {place : Path}
    (h : tree.Loses place lost rest) : tree.nodeAt? place = some lost := by
  cases h with
  | document => rfl
  | item hlist hitem hrest =>
    rw [Node.nodeAt?_eq_some, Node.get?_append, Node.itemsAt?_eq_some.1 hlist, Option.bind_some]
    exact Content.get?_index hitem

/-- A path to a node that goes through an index goes through an item of a list. -/
theorem Node.item_of_nodeAt? {tree node : Node} {list below : Path} {i : Nat}
    (h : tree.nodeAt? (list ++ Step.index i :: below) = some node) :
    ∃ ns item, tree.itemsAt? list = some ns ∧ ns[i]? = some item ∧
      item.nodeAt? below = some node := by
  rw [Node.nodeAt?_eq_some, Node.get?_append] at h
  obtain ⟨c, hc, hbelow⟩ := Option.bind_eq_some_iff.1 h
  rw [Content.get?_cons] at hbelow
  obtain ⟨d, hd, hbelow⟩ := Option.bind_eq_some_iff.1 hbelow
  obtain ⟨ns, item, rfl, hitem, rfl⟩ := Content.child?_eq_some_index hd
  exact ⟨ns, item, Node.itemsAt?_eq_some.2 hc, hitem, Node.nodeAt?_eq_some.2 hbelow⟩

/-- The lists in a group are its own and those in its items. -/
theorem Node.itemsAt?_group {kind : GroupKind} {ns ms : List Node} {list : Path}
    (h : (Node.group kind ns).itemsAt? list = some ms) :
    (list = [.field kind.field] ∧ ms = ns) ∨
      ∃ i item below, list = .field kind.field :: .index i :: below ∧ ns[i]? = some item ∧
        item.itemsAt? below = some ms := by
  rcases Content.get?_group (.inr rfl) (Node.itemsAt?_eq_some.1 h) with ⟨-, heq⟩ | ⟨q, rfl, hq⟩
  · cases heq
  · rcases Content.get?_items hq with ⟨rfl, heq⟩ | ⟨i, item, below, rfl, hitem, hbelow⟩
    · exact .inl ⟨rfl, Content.items.inj heq⟩
    · exact .inr ⟨i, item, below, rfl, hitem, Node.itemsAt?_eq_some.2 hbelow⟩

/-- An object that is emptied has lost its only item. -/
theorem Node.Loses.eq_of_emptied {n lost : Node} {place : Path}
    (h : (Node.program [.object [n]]).Loses place lost (.program [.object []])) : lost = n := by
  cases h with
  | @item _ _ list ns i hlist hitem hrest =>
    -- the shortened list is one of the document afterwards
    have hshort := Node.itemsAt?_eq_some.2 (Node.get?_put? hrest)
    have hlength : (ns.eraseIdx i).length + 1 = ns.length :=
      List.length_eraseIdx_add_one (List.getElem?_eq_some_iff.1 hitem).1
    rcases Node.itemsAt?_group hshort with ⟨rfl, hempty⟩ | ⟨j, item, below, rfl, hj, hbelow⟩
    · -- the statements of the program are still one
      obtain rfl : [.object [n]] = ns := Option.some.inj hlist
      rw [hempty] at hlength
      simp at hlength
    · obtain ⟨rfl, rfl⟩ : j = 0 ∧ .object [] = item := by
        cases j with
        | zero => exact ⟨rfl, Option.some.inj hj⟩
        | succ j => cases hj
      rcases Node.itemsAt?_group hbelow with ⟨rfl, hempty⟩ | ⟨k, item, below, -, hk, -⟩
      · obtain rfl : [n] = ns := Option.some.inj hlist
        cases i with
        | zero => exact (Option.some.inj hitem).symm
        | succ i => cases hitem
      · cases hk

/-! ### Sources of parts -/

/-- Only a pair has a node in a field. -/
theorem Node.field?_node {n m : Node} {name : String} (h : n.field? name = some (.node m)) :
    ∃ kind a b, n = .pair kind a b ∧ (m = a ∨ m = b) := by
  obtain ⟨n', hrewrites⟩ := Node.Rewrites.of_field? h (rfl : (Content.node m).sort = _)
  cases hrewrites with
  | first kind a b => exact ⟨kind, m, b, rfl, .inl rfl⟩
  | second kind a b => exact ⟨kind, a, m, rfl, .inr rfl⟩

/-- The source of a pair is longer than the sources of its nodes. -/
theorem length_source_pair (kind : PairKind) (a b : Node) :
    a.source.length < (Node.pair kind a b).source.length ∧
      b.source.length < (Node.pair kind a b).source.length := by
  cases kind with
  | property =>
    have hsource : (Node.property a b).source = a.source ++ ": " ++ b.source := by
      simp [Node.source, sourceAt]
    have hlength : (": " : String).length = 2 := rfl
    rw [hsource, String.length_append, String.length_append]
    omega
  | declarator =>
    have hsource : (Node.declarator a b).source = a.source ++ " = " ++ b.source := by
      simp [Node.source, sourceAt]
    have hlength : (" = " : String).length = 3 := rfl
    rw [hsource, String.length_append, String.length_append]
    omega

/-- What lies below a node, with no index on the way, has a shorter source. -/
theorem length_source_lt {n m : Node} {below : Path} (h : n.nodeAt? below = some m)
    (hfields : ∀ step ∈ below, step.isIndex = false) (hbelow : below ≠ []) :
    m.source.length < n.source.length := by
  induction below generalizing n with
  | nil => exact absurd rfl hbelow
  | cons step below ih =>
    obtain ⟨hstep, hrest⟩ := List.forall_mem_cons.1 hfields
    rw [Node.nodeAt?_eq_some, Node.get?, Content.get?_cons] at h
    obtain ⟨c, hc, hm⟩ := Option.bind_eq_some_iff.1 h
    cases step with
    | field name =>
      -- a list would have an index or the end behind it, a text or a flag nothing
      obtain ⟨child, rfl⟩ : ∃ child, c = .node child := by
        rcases Content.holdsNodes_of_get? hm with hsort | hsort
        · exact Content.eq_node_of_sort hsort
        · obtain ⟨ns, rfl⟩ := Content.eq_items_of_sort hsort
          cases below with
          | nil => cases hm
          | cons next below =>
            obtain ⟨hnext, -⟩ := List.forall_mem_cons.1 hrest
            cases next with
            | index i => cases hnext
            | _ => cases hm
      obtain ⟨kind, a, b, rfl, hchild⟩ := Node.field?_node hc
      have hpair : child.source.length < (Node.pair kind a b).source.length := by
        rcases hchild with rfl | rfl
        · exact (length_source_pair kind _ b).1
        · exact (length_source_pair kind a _).2
      by_cases hend : below = []
      · subst hend
        obtain rfl := Content.node.inj (Option.some.inj hm)
        exact hpair
      · exact (ih (Node.nodeAt?_eq_some.2 hm) hrest hend).trans hpair
    | index i => cases hstep
    | afterLast => simp at hc

end Document

/-! ### Deletions -/

namespace Editing

/-- Steps without an index do not change which item is the deepest. -/
theorem deepestItem?_append {p q : Path} (hq : ∀ step ∈ q, step.isIndex = false) :
    deepestItem? (p ++ q) = deepestItem? p := by
  unfold deepestItem?
  rcases hsplit : p.splitAtLast Step.isIndex with - | ⟨before, found, after⟩
  · have hp := Path.splitAtLast_eq_none.1 hsplit
    have happend : (p ++ q).splitAtLast Step.isIndex = none := by
      apply Path.splitAtLast_eq_none.2
      intro step hstep
      rcases List.mem_append.1 hstep with hstep | hstep
      · exact hp step hstep
      · exact hq step hstep
    rw [happend]
  · obtain ⟨rfl, hfound, hafter⟩ := Path.splitAtLast_eq_some hsplit
    rw [List.append_assoc, List.cons_append, Path.splitAtLast_append hfound]
    · rfl
    · intro step hstep
      rcases List.mem_append.1 hstep with hstep | hstep
      · exact hafter step hstep
      · exact hq step hstep

/-- The deepest item of a selection lies on the path without its end, unless the
end stands right behind an index. -/
theorem deepestItem?_withoutEnd (selected : Path) :
    deepestItem? selected = deepestItem? selected.withoutEnd ∨
      ∃ i, selected = selected.withoutEnd ++ [Step.index i, .afterLast] := by
  rcases selected.withoutEnd_cases with ⟨-, heq⟩ | ⟨rfl, heq⟩ | ⟨step, hselected⟩
  · exact .inl (by rw [heq])
  · exact .inl rfl
  · cases step with
    | index i => exact .inr ⟨i, hselected⟩
    | _ =>
      refine .inl ?_
      conv_lhs => rw [hselected]
      exact deepestItem?_append (by simp [Step.isIndex])

/-- An item that is there goes. -/
theorem delete_item {tree item rest : Node} {selected list : Path} {ns : List Node} {i : Nat}
    (hinner : ¬ (selected.length = 2 && selected.isAfterLast) = true)
    (hdeepest : deepestItem? selected = some (list ++ [Step.index i]))
    (hlist : tree.itemsAt? list = some ns) (hitem : ns[i]? = some item)
    (hrest : tree.put? list (.items (ns.eraseIdx i)) = some rest) :
    ∃ target, delete tree selected = .applied .itemDeleted ⟨some rest, some target⟩ := by
  obtain ⟨owner, kind, rfl, howner⟩ := owner_of_items hlist
  obtain ⟨rebuilt, hput, hdelete⟩ :=
    delete_of_deepest hinner hdeepest howner (List.getElem?_eq_some_iff.1 hitem).1
  rw [← Node.put?_items howner, hrest] at hput
  obtain rfl := Option.some.inj hput
  exact ⟨_, hdelete⟩

/-- The end of the outermost list has nothing in front of it but the list. -/
theorem withoutEnd_of_outer {selected : Path}
    (h : (selected.length = 2 && selected.isAfterLast) = true) : selected.withoutEnd = [] := by
  obtain ⟨hlength, hlast⟩ := Bool.and_eq_true_iff.1 h
  rcases selected.withoutEnd_cases with ⟨hlast', -⟩ | ⟨-, heq⟩ | ⟨step, hselected⟩
  · rw [hlast] at hlast'
    cases hlast'
  · exact heq
  · have hlength : selected.length = 2 := of_decide_eq_true hlength
    rw [hselected, List.length_append] at hlength
    apply List.eq_nil_of_length_eq_zero
    simpa using hlength

/-- **A copy and a deletion from the same selection.**  What is copied lies in what
is deleted, with nothing but fields between the two.  Only where the selection is
the end of an item, which is no list, nothing is deleted. -/
theorem delete_of_copied {tree node : Node} {selected : Path}
    (h : tree.nodeAt? selected.withoutEnd = some node) :
    ((∃ i, selected = selected.withoutEnd ++ [Step.index i, .afterLast]) ∧
        ∃ reason, delete tree selected = .declined reason) ∨
      ∃ place below lost rest effect target, selected.withoutEnd = place ++ below ∧
        (∀ step ∈ below, step.isIndex = false) ∧ tree.Loses place lost rest ∧
        delete tree selected = .applied effect ⟨some rest, some target⟩ := by
  by_cases houter : (selected.length = 2 && selected.isAfterLast) = true
  · refine .inr ⟨[], [], tree, .null, .documentDeleted, [], withoutEnd_of_outer houter, by simp,
      .document tree, ?_⟩
    rw [delete, if_pos houter]
  · rcases deepestItem?_withoutEnd selected with hsame | ⟨i, hselected⟩
    · rcases hsplit : selected.withoutEnd.splitAtLast Step.isIndex with
        - | ⟨list, step, below⟩
      · -- nothing but fields from the root on
        have hdeepest : deepestItem? selected = none := by
          rw [hsame, deepestItem?, hsplit]
          rfl
        exact .inr ⟨[], selected.withoutEnd, tree, .null, .documentDeleted, [], rfl,
          Path.splitAtLast_eq_none.1 hsplit, .document tree, delete_document hdeepest⟩
      · obtain ⟨heq, hstep, hfields⟩ := Path.splitAtLast_eq_some hsplit
        cases step with
        | index i =>
          have hdeepest : deepestItem? selected = some (list ++ [Step.index i]) := by
            rw [hsame, deepestItem?, hsplit]
            rfl
          rw [heq] at h
          obtain ⟨ns, item, hlist, hitem, -⟩ := Node.item_of_nodeAt? h
          obtain ⟨rest, hrest⟩ := Node.exists_put? (.items (ns.eraseIdx i))
            (Node.itemsAt?_eq_some.1 hlist) rfl
          obtain ⟨target, hdelete⟩ := delete_item houter hdeepest hlist hitem hrest
          exact .inr ⟨list ++ [.index i], below, item, rest, .itemDeleted, target, by simp [heq],
            hfields, .item hlist hitem hrest, hdelete⟩
        | _ => cases hstep
    · have hdeepest : deepestItem? selected = some (selected.withoutEnd ++ [Step.index i]) := by
        have hcut : selected.splitAtLast Step.isIndex =
            some (selected.withoutEnd, .index i, [.afterLast]) := by
          conv_lhs => rw [hselected]
          exact Path.splitAtLast_append rfl (by simp [Step.isIndex]) _
        rw [deepestItem?, hcut]
        rfl
      have hmissing : tree.get? (selected.withoutEnd ++ [Step.index i]) = none := by
        rw [Node.get?_append, Node.nodeAt?_eq_some.1 h]
        rfl
      exact .inl ⟨⟨i, hselected⟩, _, delete_missing houter hdeepest hmissing⟩

end Editing

/-! ### Cuts -/

namespace Session

variable {s : Session} {text : String}

/-- What is copied is the source of a node. -/
theorem node_of_copied (h : s.copied = .ok (some text)) :
    s.focus.isText = false ∧
      ∃ node, s.current.tree.nodeAt? s.current.selected.withoutEnd = some node ∧
        text = node.source := by
  unfold copied at h
  split at h
  · cases h
  · next htext =>
    split at h
    · next node hnode =>
      obtain ⟨source, hsource, heq⟩ := map_eq_ok.1 h
      obtain rfl := Option.some.inj heq
      exact ⟨by simpa using htext, node, hnode, Node.eq_source_of_render hsource⟩
    · cases h

/-- Nothing has to be prepared for a cut: the selected node is no number. -/
theorem prepared_of_copied (h : s.copied = .ok (some text)) : s.current.prepared = s.current := by
  obtain ⟨htext, node, hnode, -⟩ := node_of_copied h
  rcases hlast : s.current.selected.isAfterLast with - | -
  · rw [Path.withoutEnd, hlast] at hnode
    apply Snapshot.prepared_of_not_number hnode
    rintro number rfl
    have htext' : s.focus.isText = true := by
      rw [Keymap.Focus.isText, focus, Snapshot.node?]
      rw [show s.current.tree.nodeAt? s.current.selected = some (.number number) from hnode]
      rfl
    rw [htext] at htext'
    cases htext'
  · -- no node is selected, and the selection is left alone
    have hnone : s.current.node? = none := by
      rcases hn : s.current.node? with - | n
      · rfl
      · rw [Node.isAfterLast_of_nodeAt? hn] at hlast
        cases hlast
    rw [Snapshot.prepared, Snapshot.reselected, hlast]
    simp [Snapshot.normalized, hnone]

/-- A change of a snapshot that needs no preparation is what becomes of it. -/
theorem current_record (hprepared : s.current.prepared = s.current) (change : Change) :
    (s.history.record change).history.current = s.current.apply change := by
  unfold History.record
  simp only [show s.history.current = s.current from rfl, hprepared]
  split
  · next hsame => exact hsame.symm
  · rfl

/-- A cut deletes where there is something to copy, … -/
theorem cut_of_applied {effect : Effect} {change : Change} (hcopied : s.copied = .ok (some text))
    (hdelete : delete s.current.tree s.current.selected = .applied effect change) :
    ∃ reply, s.run .cut = .ok reply ∧ reply.session.current = s.current.apply change := by
  have hrun : Edit.delete.run s.current.prepared = .ok (.applied effect change) := by
    rw [Edit.run, prepared_of_copied hcopied, hdelete]
  have hcut : s.run .cut = (s.commit .delete).map (·.answering (.text (some text))) := by
    show s.cut = _
    rw [cut, hcopied]
  rw [commit_of_applied hrun] at hcut
  exact ⟨_, hcut, current_record (prepared_of_copied hcopied) change⟩

/-- … and leaves everything as it is where the deletion declines. -/
theorem cut_of_declined {reason : Reason} (hcopied : s.copied = .ok (some text))
    (hdelete : delete s.current.tree s.current.selected = .declined reason) :
    s.run .cut = .ok (s.unmoved (.text (some text)) none) := by
  have hrun : Edit.delete.run s.current.prepared = .ok (.declined reason) := by
    rw [Edit.run, prepared_of_copied hcopied, hdelete]
  show s.cut = _
  rw [cut, hcopied]
  simp only [commit_of_declined hrun]
  rfl

/-- A text that a cut answers with is what is copied. -/
theorem copied_of_cut {reply : Reply} (hcut : s.run .cut = .ok reply)
    (htext : reply.answer = .ok (.text (some text))) : s.copied = .ok (some text) := by
  have hcut : s.cut = .ok reply := hcut
  rw [cut] at hcut
  rcases hcopied : s.copied with cause | - | copied <;> rw [hcopied] at hcut
  · cases hcut
  · obtain rfl := Except.ok.inj hcut
    cases htext
  · obtain ⟨before, -, rfl⟩ := map_eq_ok.1 hcut
    obtain ⟨answer, -, heq⟩ := map_eq_ok.1 htext
    rw [Answer.text.inj heq]

/-- **What a cut takes away and what it keeps.**  The text is the source of the node
at the selection, or of the owner of the list at whose end the selection is.  The
document loses itself or one item of a list, and nothing else changes.  The node
lies in what is lost with nothing but fields between the two, and the text is the
source of all that is lost exactly if there are none.  Only where the selection is
not valid, the end of an item instead of a list, nothing is lost. -/
theorem lost_of_cut {reply : Reply} (hcut : s.run .cut = .ok reply)
    (htext : reply.answer = .ok (.text (some text))) :
    ∃ node, s.current.tree.nodeAt? s.current.selected.withoutEnd = some node ∧
      text = node.source ∧
      ((∃ place below lost, s.current.selected.withoutEnd = place ++ below ∧
          (∀ step ∈ below, step.isIndex = false) ∧ lost.nodeAt? below = some node ∧
          s.current.tree.Loses place lost reply.session.current.tree ∧
          (text = lost.source ↔ below = [])) ∨
        ((∃ i, s.current.selected = s.current.selected.withoutEnd ++ [.index i, .afterLast]) ∧
          s.current.resolves = false ∧ reply.session = s)) := by
  have hcopied := copied_of_cut hcut htext
  obtain ⟨-, node, hnode, rfl⟩ := node_of_copied hcopied
  refine ⟨node, hnode, rfl, ?_⟩
  rcases delete_of_copied hnode with ⟨⟨i, hselected⟩, reason, hdelete⟩ |
    ⟨place, below, lost, rest, effect, target, hplace, hfields, hloses, hdelete⟩
  · obtain rfl := Except.ok.inj ((cut_of_declined hcopied hdelete).symm.trans hcut)
    refine .inr ⟨⟨i, hselected⟩, ?_, rfl⟩
    -- a node has no items, so there is no list whose end this could be
    have hlist : s.current.tree.itemsAt? (s.current.selected.withoutEnd ++ [.index i]) = none := by
      rw [Node.itemsAt?, Node.get?_append, Node.nodeAt?_eq_some.1 hnode]
      rfl
    rw [Snapshot.resolves, hselected, List.append_cons, Node.resolves, Path.isAfterLast_snoc,
      List.dropLast_concat, hlist]
    rfl
  · obtain ⟨reply', hcut', hcurrent⟩ := cut_of_applied hcopied hdelete
    obtain rfl := Except.ok.inj (hcut'.symm.trans hcut)
    have hbelow : lost.nodeAt? below = some node := by
      rw [hplace, Node.nodeAt?_eq_some, Node.get?_append,
        Node.nodeAt?_eq_some.1 hloses.nodeAt?, Option.bind_some] at hnode
      exact Node.nodeAt?_eq_some.2 hnode
    refine .inl ⟨place, below, lost, hplace, hfields, hbelow, ?_, ?_, ?_⟩
    · rw [hcurrent]
      exact hloses
    · intro hsource
      by_contra hne
      have hlt := length_source_lt hbelow hfields hne
      rw [hsource] at hlt
      exact lt_irrefl _ hlt
    · rintro rfl
      obtain rfl := Option.some.inj hbelow
      rfl

/-- A cut at the end of a list that is the value of a property: the text is the list,
and the document loses the property. -/
theorem lost_of_cut_at_end :
    let source := Data.record [(.text "a", .list [.integer 1, .integer 2])]
    let property : Path := [.field "properties", .index 0]
    let commands : List Command :=
      [.edit (.select (property ++ [.field "value", .field "elements", .afterLast]))]
    ∃ s, start Settings.packaged .value source none none none = .ok s ∧
      ∃ reply, (s.afterAll commands).run .cut = .ok reply ∧
        reply.answer = .ok (.text (some "[1, 2]")) ∧
        ∃ place below lost, property ++ [.field "value"] = place ++ below ∧
          (∀ step ∈ below, step.isIndex = false) ∧
          (s.afterAll commands).current.tree.Loses place lost reply.session.current.tree ∧
          ("[1, 2]" = lost.source ↔ below = []) := by
  intro source property commands
  have hruns : (start Settings.packaged .value source none none none).toOption.map (fun s =>
      ((s.afterAll commands).current.selected, (s.afterAll commands).current.resolves,
        ((s.afterAll commands).run .cut).toOption.map fun reply => reply.answer)) =
      some (property ++ [.field "value", .field "elements", .afterLast], true,
        some (.ok (.text (some "[1, 2]")))) := by
    decide +kernel
  obtain ⟨s, hstart, heq⟩ := eq_ok_of_toOption_map hruns
  obtain ⟨hselected, heq⟩ := Prod.mk.inj heq
  obtain ⟨hresolves, heq⟩ := Prod.mk.inj heq
  obtain ⟨reply, hcut, htext⟩ := eq_ok_of_toOption_map heq
  obtain ⟨node, -, -, ⟨place, below, lost, hplace, hfields, -, hloses, hsource⟩ | ⟨-, hnot, -⟩⟩ :=
    lost_of_cut hcut htext
  · rw [hselected] at hplace
    exact ⟨s, hstart, reply, hcut, htext, place, below, lost, hplace, hfields, hloses, hsource⟩
  · rw [hresolves] at hnot
    cases hnot

/-- A cut of a null that is the value of a property: nothing that the document can
have lost has the source that the cut answers with. -/
theorem not_lost_of_cut_value :
    let source := Data.record [(.text "a", .null)]
    let down : Command := .press ⟨"ArrowDown", [], none, none⟩
    ∃ s, start Settings.packaged .document source none none none = .ok s ∧
      ∃ reply, (s.afterAll [down, down]).run .cut = .ok reply ∧
        reply.answer = .ok (.text (some "null")) ∧
        ∀ place lost,
          (s.afterAll [down, down]).current.tree.Loses place lost reply.session.current.tree →
            "null" ≠ lost.source := by
  intro source down
  have hruns : (start Settings.packaged .document source none none none).toOption.map (fun s =>
      ((s.afterAll [down, down]).current.tree, ((s.afterAll [down, down]).run .cut).toOption.map
        fun reply => (reply.answer, reply.session.current.tree))) =
      some (.program [.object [.property (.string "a") .null]],
        some (.ok (.text (some "null")), .program [.object []])) := by
    decide +kernel
  obtain ⟨s, hstart, heq⟩ := eq_ok_of_toOption_map hruns
  obtain ⟨hbefore, heq⟩ := Prod.mk.inj heq
  obtain ⟨reply, hcut, heq⟩ := eq_ok_of_toOption_map heq
  obtain ⟨htext, hafter⟩ := Prod.mk.inj heq
  refine ⟨s, hstart, reply, hcut, htext, ?_⟩
  rw [hbefore, hafter]
  intro place lost hloses
  rw [hloses.eq_of_emptied]
  decide

end Session

end StructuralEditor
