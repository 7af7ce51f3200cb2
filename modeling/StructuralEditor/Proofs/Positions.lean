/-
StructuralEditor/Proofs/Positions.lean

What stands at the positions of a valid selection.

Edits and moves look at a selection from its end.  They scan back for the last field of
a list, or for the last index, and then rely on the steps around the one they have
found: that the list is there and belongs to a node of the right kind, that a place of
it comes next, that an item stands at the index.  A selection, on the other hand, is
valid by where it leads from the root on.

The two are brought together by cutting the path where the scan stops.  A scan finds the
greatest position with a property (`Path.lastPosition?_eq_some_iff`), which cuts the path
in two, and either part of a valid selection leads on from where the first part has led
(`Content.Resolves.split`).  Nothing in this depends on the position being the last one
of its kind, so it holds at every position of a selection; that the place after the last
item can only come at the end is one case of it (`afterLast_at_end`).
-/
import Mathlib.Order.Bounds.Basic
import StructuralEditor.Proofs.Selection

namespace StructuralEditor.Document

/-! ### Positions -/

namespace Path

/-- The positions of the steps of a path that have property `q`. -/
def positions (q : Step → Bool) (p : Path) : Set Nat :=
  {i | ∃ step, p[i]? = some step ∧ q step = true}

section

variable {q : Step → Bool} {p before after : Path} {step : Step} {i : Nat}

/-- A path is what comes before a position, its step, and what comes after. -/
theorem eq_append_of_getElem? (h : p[i]? = some step) :
    p = p.take i ++ step :: p.drop (i + 1) := by
  obtain ⟨hi, rfl⟩ := List.getElem?_eq_some_iff.1 h
  rw [← List.drop_eq_getElem_cons hi, List.take_append_drop]

/-- A path is cut at the greatest position with the property. -/
theorem isGreatest_of_splitAtLast (h : p.splitAtLast q = some (before, step, after)) :
    IsGreatest (p.positions q) before.length := by
  obtain ⟨rfl, hstep, hafter⟩ := splitAtLast_eq_some h
  refine ⟨⟨step, by simp, hstep⟩, ?_⟩
  rintro i ⟨other, hi, hother⟩
  -- a greater position would be one of a later step
  by_contra hlt
  obtain ⟨k, rfl⟩ : ∃ k, i = before.length + 1 + k := ⟨i - (before.length + 1), by omega⟩
  rw [List.getElem?_append_right (by omega), Nat.add_assoc, Nat.add_sub_cancel_left,
    Nat.add_comm 1 k, List.getElem?_cons_succ] at hi
  rw [hafter other (List.mem_of_getElem? hi)] at hother
  cases hother

/-- **The last position is the greatest one**, and there is one wherever a step has the
property. -/
theorem lastPosition?_eq_some_iff :
    p.lastPosition? q = some i ↔ IsGreatest (p.positions q) i := by
  rcases hsplit : p.splitAtLast q with - | ⟨before, step, after⟩
  · rw [lastPosition?, hsplit]
    constructor
    · intro h
      cases h
    · rintro ⟨⟨step, hi, hstep⟩, -⟩
      rw [splitAtLast_eq_none.1 hsplit step (List.mem_of_getElem? hi)] at hstep
      cases hstep
  · have hgreatest := isGreatest_of_splitAtLast hsplit
    rw [lastPosition?, hsplit, Option.map_some, Option.some.injEq]
    constructor
    · rintro rfl
      exact hgreatest
    · exact hgreatest.unique

end

end Path

/-! ### Selections -/

/-- Whether the step at a position enters the list of a group, and goes on to an item of
it or ends in the place after its last item. -/
def Node.EntersList (tree : Node) (p : Path) (pos : Nat) : Prop :=
  ∃ kind ns, p[pos]? = some (.field kind.field) ∧
    tree.nodeAt? (p.take pos) = some (.group kind ns) ∧
    tree.itemsAt? (p.take (pos + 1)) = some ns ∧
    (p.drop (pos + 1) = [.afterLast] ∨ ∃ i < ns.length, p[pos + 1]? = some (.index i))

section

variable {tree : Node} {p : Path} {pos : Nat}

/-- The field of a list enters the list, wherever it stands in a selection. -/
theorem entersList_at_field {name : String} (h : tree.resolves p = true)
    (hpos : p[pos]? = some (.field name)) (hname : name ∈ siblingFields) :
    tree.EntersList p pos := by
  rw [Path.eq_append_of_getElem? hpos] at h
  obtain ⟨kind, ns, rfl, howner, hafter⟩ := list_at_field h hname
  refine ⟨kind, ns, hpos, howner, ?_, ?_⟩
  · rw [List.take_add_one, hpos]
    exact Node.itemsAt?_of_group howner
  · rcases hafter with hend | ⟨i, n, below, hindex, hn, -⟩
    · exact .inl hend
    · have hnext : (p.drop (pos + 1))[0]? = some (.index i) := by rw [hindex]; rfl
      rw [List.getElem?_drop] at hnext
      exact .inr ⟨i, (List.getElem?_eq_some_iff.1 hn).1, hnext⟩

/-- Nothing comes after the place after the last item. -/
theorem afterLast_at_end (h : tree.resolves p = true) (hpos : p[pos]? = some .afterLast) :
    pos + 1 = p.length := by
  rw [Path.eq_append_of_getElem? hpos] at h
  obtain ⟨c, -, hres⟩ := (Node.resolves_iff.1 h).split (List.cons_ne_nil _ _)
  have hafter : p.drop (pos + 1) = [] := by
    rcases hres.cons with ⟨d, hd, -⟩ | ⟨-, hafter, -⟩
    · simp at hd
    · exact hafter
  have hlt := (List.getElem?_eq_some_iff.1 hpos).1
  have hle := List.drop_eq_nil_iff.1 hafter
  omega

/-- An index in a selection is the position of an item. -/
theorem item_at_index {i : Nat} (h : tree.resolves p = true) (hpos : p[pos]? = some (.index i)) :
    ∃ n, tree.nodeAt? (p.take (pos + 1)) = some n := by
  rw [Path.eq_append_of_getElem? hpos] at h
  obtain ⟨c, hc, hres⟩ := (Node.resolves_iff.1 h).split (List.cons_ne_nil _ _)
  rcases hres.cons with ⟨d, hd, -⟩ | ⟨hstep, -, -⟩
  · obtain ⟨ns, n, rfl, hn, rfl⟩ := Content.child?_eq_some_index hd
    refine ⟨n, ?_⟩
    rw [List.take_add_one, hpos]
    exact Node.nodeAt?_index (Node.itemsAt?_eq_some.2 hc) hn
  · cases hstep

theorem Step.eq_index_of_isIndex {step : Step} (h : step.isIndex = true) :
    ∃ i, step = .index i := by
  cases step with
  | index i => exact ⟨i, rfl⟩
  | _ => cases h

/-- **What a scan from the end of a selection finds.**  The last of the fields of lists
that are looked for is the one at the greatest position; it enters the list of the group
that has this field, and then comes an item of the list, or the place after its last item
and the end of the selection.  That place comes nowhere else.  The last index is the one at
the greatest position, and an item stands there. -/
theorem scans_of_selection (h : tree.resolves p = true) :
    (∀ names ⊆ siblingFields, ∀ pos,
      (p.lastPosition? (Step.isFieldIn names) = some pos ↔
        IsGreatest (p.positions (Step.isFieldIn names)) pos) ∧
      (p.lastPosition? (Step.isFieldIn names) = some pos → tree.EntersList p pos)) ∧
    (∀ pos, p[pos]? = some .afterLast → pos + 1 = p.length) ∧
    ∀ pos, (p.lastPosition? Step.isIndex = some pos ↔ IsGreatest (p.positions Step.isIndex) pos) ∧
      (p.lastPosition? Step.isIndex = some pos →
        ∃ n, tree.nodeAt? (p.take (pos + 1)) = some n) := by
  refine ⟨fun names hnames pos => ⟨Path.lastPosition?_eq_some_iff, fun hlast => ?_⟩,
    fun pos => afterLast_at_end h, fun pos => ⟨Path.lastPosition?_eq_some_iff, fun hlast => ?_⟩⟩
  · obtain ⟨⟨step, hpos, hstep⟩, -⟩ := Path.lastPosition?_eq_some_iff.1 hlast
    obtain ⟨name, hname, rfl⟩ := Step.isFieldIn_iff.1 hstep
    exact entersList_at_field h hpos (hnames hname)
  · obtain ⟨⟨step, hpos, hstep⟩, -⟩ := Path.lastPosition?_eq_some_iff.1 hlast
    obtain ⟨i, rfl⟩ := Step.eq_index_of_isIndex hstep
    exact item_at_index h hpos

end

/-- The place after the last item of an array in an object: two lists and two items are on
the way to it. -/
theorem scans_of_selection_nested :
    let numbers := Node.array [.number "1", .number "2"]
    let tree := Node.program
      [.object [.property (.string "a") .null, .property (.string "b") numbers]]
    let p : Path := [.field "body", .index 0, .field "properties", .index 1, .field "value",
      .field "elements", .afterLast]
    let inner := ["elements", "properties"]
    tree.resolves p = true ∧ inner ⊆ siblingFields ∧ ["body"] ⊆ siblingFields ∧
      p.lastPosition? (Step.isFieldIn inner) = some 5 ∧ tree.EntersList p 5 ∧
      p.lastPosition? (Step.isFieldIn ["body"]) = some 0 ∧ tree.EntersList p 0 ∧
      IsGreatest (p.positions Step.isIndex) 3 ∧ ∃ n, tree.nodeAt? (p.take 4) = some n := by
  intro numbers tree p inner
  have hresolves : tree.resolves p = true := by decide +kernel
  have hinner : inner ⊆ siblingFields := by decide
  have hbody : ["body"] ⊆ siblingFields := by decide
  have hfive : p.lastPosition? (Step.isFieldIn inner) = some 5 := by decide
  have hzero : p.lastPosition? (Step.isFieldIn ["body"]) = some 0 := by decide
  have hthree : p.lastPosition? Step.isIndex = some 3 := by decide
  obtain ⟨hfields, -, hindex⟩ := scans_of_selection hresolves
  obtain ⟨hgreatest, hitem⟩ := hindex 3
  exact ⟨hresolves, hinner, hbody, hfive, (hfields inner hinner 5).2 hfive, hzero,
    (hfields ["body"] hbody 0).2 hzero, hgreatest.1 hthree, hitem hthree⟩

end StructuralEditor.Document
