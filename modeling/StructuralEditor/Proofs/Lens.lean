/-
StructuralEditor/Proofs/Lens.lean

Documents as lenses.

A document answers a read and a write at a path, and the two agree: what has been
written is read back, writing what is there changes nothing, of two writes at one path
the second counts, and a write far down is a write on the way of what stands there with
the write done in it.  The laws of `Store` say this of writes that succeed.  What is
added here is when a write fails and what the failure says.

`Node.set` names the whole path in a failure.  A write that goes one step at a time
(`Content.set`) learns of the failure where it happens and hears on the way back only
which step lies in front of it; that the two agree (`Content.set_eq`, `Node.map_set`)
is what makes the place of the failure irrelevant.  `Content.set` also writes into a
list, so that a write can be cut at any place of its path.
-/
import StructuralEditor.Proofs.Store

namespace StructuralEditor.Document

/-! ### Writing step by step -/

/-- A failure behind a step, as a failure of the path with the step. -/
def EditError.behind (step : Step) : EditError → EditError
  | .unresolved p => .unresolved (step :: p)
  | .unfit p => .unfit (step :: p)
  | cause => cause

namespace Content

/-- The content with a new one at the end of a path.  Each step rebuilds the content
around its child, or passes on the failure of the child. -/
def set (c : Content) (p : Path) (new : Content) : Except EditError Content :=
  match p with
  | [] => .ok new
  | step :: rest =>
    match c.child? step with
    | none => .error (.unresolved (step :: rest))
    | some old =>
      match old.set rest new with
      | .error cause => .error (cause.behind step)
      | .ok rebuilt =>
        match c.withChild? step rebuilt with
        | some c' => .ok c'
        | none => .error (.unfit (step :: rest))

/-- Whatever is written at a path replaces what the path leads to. -/
theorem exists_get?_of_put? {c c' new : Content} {p : Path} (h : c.put? p new = some c') :
    ∃ old, c.get? p = some old := by
  rw [← List.append_nil p, put?_append] at h
  obtain ⟨old, hold, -⟩ := Option.bind_eq_some_iff.1 h
  exact ⟨old, hold⟩

theorem put?_eq_none {c : Content} {p : Path} (h : c.get? p = none) (new : Content) :
    c.put? p new = none := by
  rcases hput : c.put? p new with - | c'
  · rfl
  · obtain ⟨old, hold⟩ := exists_get?_of_put? hput
    cases h.symm.trans hold

/-- **A failure names the whole path**, wherever on the path it happens. -/
theorem set_eq (c : Content) (p : Path) (new : Content) :
    c.set p new = match c.put? p new with
      | some c' => .ok c'
      | none => .error (if (c.get? p).isSome then .unfit p else .unresolved p) := by
  induction p generalizing c with
  | nil => rfl
  | cons step rest ih =>
    rcases hchild : c.child? step with - | old
    · simp [set, put?, get?_cons, hchild]
    · rcases hput : old.put? rest new with - | rebuilt
      · -- the failure is behind the step
        simp only [set, put?, get?_cons, hchild, ih, hput, Option.bind_some, Option.bind_none]
        split <;> rfl
      · -- the child has been rebuilt, so there is a slot; it may be one for another sort
        obtain ⟨slot, hslot⟩ := exists_get?_of_put? hput
        simp only [set, put?, get?_cons, hchild, ih, hput, hslot, Option.bind_some]
        rcases c.withChild? step rebuilt with - | c' <;> rfl

/-- A write succeeds wherever the slot is there and the sorts agree. -/
theorem set_eq_ok {c old new : Content} {p : Path} (h : c.get? p = some old)
    (hsort : old.sort = new.sort) : ∃ c', c.set p new = .ok c' ∧ c.put? p new = some c' := by
  obtain ⟨c', hput⟩ := exists_put? h hsort
  exact ⟨c', by rw [set_eq, hput], hput⟩

end Content

/-! ### Documents -/

namespace Node

variable {tree : Node} {p : Path} {new : Content}

/-- Whether a content is of the sort that the slot at a path is for.  Where there is no
slot, any content is. -/
def Takes (tree : Node) (p : Path) (new : Content) : Prop :=
  ∀ old, tree.get? p = some old → old.sort = new.sort

/-- Without a slot there is nothing to write into, … -/
theorem set_eq_error (h : tree.get? p = none) (new : Content) :
    tree.set p new = .error (.unresolved p) := by
  have hput : (Content.node tree).put? p new = none := Content.put?_eq_none h new
  simp [set, put?, hput, h]

/-- … and a slot takes every content of its sort. -/
theorem set_eq_error_iff (h : tree.Takes p new) (cause : EditError) :
    tree.set p new = .error cause ↔ tree.get? p = none ∧ cause = .unresolved p := by
  rcases hget : tree.get? p with - | old
  · simp [set_eq_error hget, eq_comm]
  · obtain ⟨tree', hset, -⟩ := set_eq_ok new hget (h old hget)
    simp [hset]

/-- A write into a document is the write step by step. -/
theorem map_set (h : tree.Takes p new) :
    (tree.set p new).map Content.node = (Content.node tree).set p new := by
  rw [Content.set_eq]
  rcases hget : tree.get? p with - | old
  · have hget' : (Content.node tree).get? p = none := hget
    rw [set_eq_error hget, Content.put?_eq_none hget', hget']
    rfl
  · obtain ⟨tree', hset, hput⟩ := set_eq_ok new hget (h old hget)
    rw [hset, put?_eq_some.1 hput]
    rfl

/-- A write behind a place is a write at the place, of what stands there with the write
done in it. -/
theorem set_append {old inner u : Content} {q : Path} (hold : tree.get? p = some old)
    (hinner : old.get? q = some inner) (hsort : inner.sort = u.sort) :
    ∃ mid tree', old.set q u = .ok mid ∧ tree.set p mid = .ok tree' ∧
      tree.set (p ++ q) u = .ok tree' := by
  obtain ⟨mid, hmid, hput⟩ := Content.set_eq_ok hinner hsort
  -- what is written at the place is of the sort that stands there
  obtain ⟨tree', hset, htree'⟩ := set_eq_ok mid hold (Content.sort_put? hinner hsort hput).symm
  refine ⟨mid, tree', hmid, hset, set_eq_ok_of_put? ?_⟩
  rw [put?_append hold hput]
  exact htree'

/-- **A document is a lawful lens.**  With a content of the sort that the slot takes, a
write fails exactly if the path leads nowhere, and the failure names the whole path.
Otherwise what has been written is read back, the second of two writes counts, writing
what is there changes nothing, and a write behind the path is a write at it.  A write
into a document is the one that goes step by step. -/
theorem set_obeys_lens_laws {v : Content} (hv : tree.Takes p v) :
    (tree.set p v).map Content.node = (Content.node tree).set p v ∧
    (∀ cause, tree.set p v = .error cause ↔ tree.get? p = none ∧ cause = .unresolved p) ∧
    ∀ old, tree.get? p = some old →
      (∃ tree', tree.set p v = .ok tree' ∧ tree'.get? p = some v ∧
        ∀ w, tree'.set p w = tree.set p w) ∧
      tree.set p old = .ok tree ∧
      ∀ q inner u, tree.get? (p ++ q) = some inner → inner.sort = u.sort →
        ∃ mid tree', old.set q u = .ok mid ∧ tree.set p mid = .ok tree' ∧
          tree.set (p ++ q) u = .ok tree' := by
  refine ⟨map_set hv, set_eq_error_iff hv, fun old hold => ⟨?_, ?_, ?_⟩⟩
  · obtain ⟨tree', hset, hput⟩ := set_eq_ok v hold (hv old hold)
    refine ⟨tree', hset, get?_put? hput, fun w => ?_⟩
    rw [set, set, put?_put? hput, get?_put? hput, hold]
    rfl
  · exact set_eq_ok_of_put? (put?_self hold)
  · intro q inner u hinner hsort
    rw [get?_append, hold, Option.bind_some] at hinner
    exact set_append hold hinner hsort

/-- A value in an object, a text inside the value, and a place that the value does not
have. -/
theorem set_obeys_lens_laws_nested :
    let numbers := Node.array [.number "1", .number "2"]
    let tree := Node.program [.object [.property (.string "a") numbers]]
    let value : Path :=
      [.field "body", .index 0, .field "properties", .index 0, .field "value"]
    let second : Path := [.field "elements", .index 1, .field "value"]
    let third : Path := value ++ [Step.field "elements", .index 2, .field "value"]
    tree.Takes value (.node .null) ∧ tree.Takes third (.text "3") ∧
      (∃ tree', tree.set value (.node .null) = .ok tree' ∧
        tree'.get? value = some (.node .null)) ∧
      (∃ mid tree', (Content.node numbers).set second (.text "3") = .ok mid ∧
        tree.set value mid = .ok tree' ∧ tree.set (value ++ second) (.text "3") = .ok tree') ∧
      tree.set third (.text "3") = .error (.unresolved third) := by
  intro numbers tree value second third
  have hvalue : tree.get? value = some (.node numbers) := by decide +kernel
  have hthird : tree.get? third = none := by decide +kernel
  have htakes : tree.Takes value (.node .null) := by
    intro old hold
    obtain rfl := Option.some.inj (hvalue.symm.trans hold)
    rfl
  have htakes' : tree.Takes third (.text "3") := by
    intro old hold
    cases hthird.symm.trans hold
  obtain ⟨-, -, hlaws⟩ := set_obeys_lens_laws htakes
  obtain ⟨⟨tree', hset, hget, -⟩, -, hbehind⟩ := hlaws _ hvalue
  obtain ⟨-, hfails, -⟩ := set_obeys_lens_laws htakes'
  exact ⟨htakes, htakes', ⟨tree', hset, hget⟩,
    hbehind second (.text "2") (.text "3") (by decide +kernel) rfl,
    (hfails _).2 ⟨hthird, rfl⟩⟩

end Node

end StructuralEditor.Document
