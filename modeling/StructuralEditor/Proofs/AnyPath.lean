/-
StructuralEditor/Proofs/AnyPath.lean

What the edits do on paths that are no selections.

In a session an edit meets a valid selection, since every commit mends the selection
first.  On its own it can be given any path.  An edit is meant to decline then, and
what it returns is meant to be a valid selection.  This module says how far that is
so, for every document and every path.

Two edits look at a part of the path only and take the rest on trust.  Both find the
innermost field of a list by its name.  An insertion then asks what owns the list, but
not whether the owner calls it so; a sideways move asks whether the list is there, but
not whether a place comes after it.  These are the only failures (`MissesList`,
`StandsOnField`), and neither can be met from a valid selection
(`Edit.not_failsOver`).

A new selection is not valid in two cases.  An insertion clamps the position for the
document and not for the selection, so that an index beyond the end stays one
(`PointsBeyond`).  A move takes along whatever stands below the item, so that it ends
on a valid selection if and only if it starts on one.

A replacement does not ask what it replaces.  On the path of a list, a text or a flag it
puts a node where none belongs, and the result is no document (`Edit.Misplaces`).
-/
import StructuralEditor.Proofs.Editing

namespace StructuralEditor.Editing

open Document

variable {tree : Node} {selected : Path}

/-! ### Where a path goes wrong -/

/-- Whether a path goes through a field with one of the names, and through none of
them after that. -/
def IsInnermost (names : List String) (p before : Path) (name : String) (after : Path) : Prop :=
  p = before ++ .field name :: after ∧ name ∈ names ∧
    ∀ step ∈ after, step.isFieldIn names = false

/-- Whether the innermost field for a list that takes insertions stands below an array
or an object which calls its list otherwise.  The cause is the failure over it. -/
def MissesList (s : Snapshot) (cause : EditError) : Prop :=
  ∃ before name after kind ns, IsInnermost editableFields s.selected before name after ∧
    s.selected.isAfterLast = false ∧ s.tree.nodeAt? before = some (.group kind ns) ∧
    (kind = .array ∨ kind = .object) ∧ name ≠ kind.field ∧
    cause = .notACollection (before ++ [.field name])

/-- Whether the innermost list that takes insertions is entered at an index beyond its
end. -/
def PointsBeyond (s : Snapshot) : Prop :=
  ∃ before name i after ns,
    IsInnermost editableFields s.selected before name (.index i :: after) ∧
    s.selected.isAfterLast = false ∧
    s.tree.itemsAt? (before ++ [.field name]) = some ns ∧ ns.length ≤ i

/-- Whether a field comes after the innermost list that can be walked through.  The
cause is the failure over it. -/
def StandsOnField (s : Snapshot) (cause : EditError) : Prop :=
  ∃ before list name after ns,
    IsInnermost siblingFields s.selected before list (.field name :: after) ∧
    s.tree.itemsAt? (before ++ [.field list]) = some ns ∧ cause = .fieldAsPosition name

section

variable {names : List String} {p before before' after after' : Path} {name name' : String}

theorem IsInnermost.splitAtLast (h : IsInnermost names p before name after) :
    p.splitAtLast (Step.isFieldIn names) = some (before, .field name, after) := by
  obtain ⟨rfl, hname, hafter⟩ := h
  exact Path.splitAtLast_append (Step.isFieldIn_iff.2 ⟨name, hname, rfl⟩) hafter before

theorem IsInnermost.of_splitAtLast {step : Step}
    (h : p.splitAtLast (Step.isFieldIn names) = some (before, step, after)) :
    ∃ name, step = .field name ∧ IsInnermost names p before name after := by
  obtain ⟨hp, hstep, hafter⟩ := Path.splitAtLast_eq_some h
  obtain ⟨name, hname, rfl⟩ := Step.isFieldIn_iff.1 hstep
  exact ⟨name, rfl, hp, hname, hafter⟩

/-- There is one innermost field. -/
theorem IsInnermost.unique (h : IsInnermost names p before name after)
    (h' : IsInnermost names p before' name' after') :
    before = before' ∧ name = name' ∧ after = after' := by
  have heq := h.splitAtLast.symm.trans h'.splitAtLast
  simpa using heq

end

/-- Of the names of lists, an array and an object know their own. -/
theorem itemsAt?_of_ne {owner : Path} {kind : GroupKind} {ns : List Node} {name : String}
    (howner : tree.nodeAt? owner = some (.group kind ns)) (hname : name ≠ kind.field) :
    tree.itemsAt? (owner ++ [Step.field name]) = none := by
  rcases hitems : tree.itemsAt? (owner ++ [Step.field name]) with - | ms
  · rfl
  · obtain ⟨owner', kind', heq, howner'⟩ := owner_of_items hitems
    obtain ⟨rfl, hfield⟩ := List.append_inj' heq rfl
    obtain rfl : name = kind'.field := by simpa using hfield
    obtain ⟨rfl, -⟩ := Node.group.inj (Option.some.inj (howner.symm.trans howner'))
    exact absurd rfl hname

/-! #### A valid selection goes right -/

theorem IsInnermost.of_resolves {names : List String} {before after : Path} {name : String}
    (hinner : IsInnermost names selected before name after) (hnames : names ⊆ siblingFields)
    (h : tree.resolves selected = true) :
    ∃ kind ns, name = kind.field ∧ tree.nodeAt? before = some (.group kind ns) ∧
      tree.itemsAt? (before ++ [Step.field name]) = some ns ∧
      (after = [.afterLast] ∨ ∃ i n below, after = .index i :: below ∧ ns[i]? = some n ∧
        (Content.node n).Resolves below) := by
  obtain ⟨kind, ns, hstep, howner, hitems, hafter⟩ := innermost_list h hnames hinner.splitAtLast
  exact ⟨kind, ns, Step.field.inj hstep, howner, hitems, hafter⟩

theorem not_missesList (h : tree.resolves selected = true) (cause : EditError) :
    ¬ MissesList ⟨tree, selected⟩ cause := by
  rintro ⟨before, name, after, kind, ns, hinner, -, howner, -, hname, -⟩
  obtain ⟨kind', ns', hfield, howner', -, -⟩ := hinner.of_resolves editableFields_subset h
  obtain ⟨rfl, -⟩ := Node.group.inj (Option.some.inj (howner.symm.trans howner'))
  exact hname hfield

theorem not_pointsBeyond (h : tree.resolves selected = true) :
    ¬ PointsBeyond ⟨tree, selected⟩ := by
  rintro ⟨before, name, i, after, ns, hinner, -, hitems, hi⟩
  obtain ⟨kind, ns', -, -, hitems', hafter⟩ := hinner.of_resolves editableFields_subset h
  obtain rfl := Option.some.inj (hitems.symm.trans hitems')
  rcases hafter with heq | ⟨j, n, below, heq, hn, -⟩
  · cases heq
  · obtain ⟨hij, -⟩ := List.cons.inj heq
    obtain rfl := Step.index.inj hij
    obtain ⟨hlt, -⟩ := List.getElem?_eq_some_iff.1 hn
    omega

theorem not_standsOnField (h : tree.resolves selected = true) (cause : EditError) :
    ¬ StandsOnField ⟨tree, selected⟩ cause := by
  rintro ⟨before, list, name, after, ns, hinner, -, -⟩
  obtain ⟨kind, ns', -, -, -, hafter⟩ := hinner.of_resolves (fun _ => id) h
  rcases hafter with heq | ⟨i, n, below, heq, -, -⟩ <;> cases heq

/-! ### Insertion -/

theorem MissesList.unique {s : Snapshot} {cause cause' : EditError} (h : MissesList s cause)
    (h' : MissesList s cause') : cause = cause' := by
  obtain ⟨_, _, _, _, _, hinner, -, -, -, -, rfl⟩ := h
  obtain ⟨_, _, _, _, _, hinner', -, -, -, -, rfl⟩ := h'
  obtain ⟨rfl, rfl, -⟩ := hinner.unique hinner'
  rfl

theorem insertionPlace?_of_group {kind : GroupKind} {ns : List Node}
    (h : tree.nodeAt? selected = some (.group kind ns)) (hkind : kind = .array ∨ kind = .object) :
    insertionPlace? tree selected = some (selected ++ [Step.field kind.field], 0) := by
  rw [insertionPlace?, Node.isAfterLast_of_nodeAt? h, h]
  rcases hkind with rfl | rfl <;> rfl

/-- The position that an insertion takes from what comes after the field of a list. -/
def positionAfter : Path → Nat
  | .index i :: _ => i + 1
  | _ => 0

theorem insertionPlace?_of_other (hlast : selected.isAfterLast = false)
    (h : ∀ kind ns, tree.nodeAt? selected = some (.group kind ns) →
      kind ≠ .array ∧ kind ≠ .object) :
    insertionPlace? tree selected =
      (selected.splitAtLast (Step.isFieldIn editableFields)).map fun (before, list, after) =>
        (before ++ [list], positionAfter after) := by
  unfold insertionPlace?
  rw [hlast]
  simp only [Bool.false_eq_true, if_false]
  split
  · next ns hn => exact absurd rfl (h _ ns hn).1
  · next ns hn => exact absurd rfl (h _ ns hn).2
  · rcases selected.splitAtLast (Step.isFieldIn editableFields) with - | ⟨before, list, after⟩
    · rfl
    · rcases after with - | ⟨_ | i | _, after⟩ <;> rfl

/-- The selection after an insertion is valid unless the position is beyond the end. -/
theorem resolves_put?_insertItem {list below : Path} {ns : List Node} {i : Nat} {item rebuilt : Node}
    (hput : tree.put? list (.items (Node.insertItem ns (min i ns.length) item)) = some rebuilt)
    (hbelow : (Content.node item).Resolves below) :
    rebuilt.resolves (list ++ Step.index i :: below) = true ↔ i ≤ ns.length := by
  rw [Node.resolves_iff, Content.resolves_append_iff (Node.get?_put? hput) (List.cons_ne_nil _ _)]
  constructor
  · intro h
    rcases h.of_items with heq | ⟨j, n, _, heq, hn, -⟩
    · cases heq
    · obtain ⟨hij, -⟩ := List.cons.inj heq
      obtain rfl := Step.index.inj hij
      obtain ⟨hlt, -⟩ := List.getElem?_eq_some_iff.1 hn
      rw [Node.length_insertItem] at hlt
      omega
  · intro hi
    rw [Nat.min_eq_left hi]
    exact Content.resolves_index (Node.getElem?_insertItem_self ns hi item) hbelow

/-- What an insertion into the list of a group comes to, whatever the position. -/
theorem insert_of_place (node : Node) {owner : Path} {kind : GroupKind} {ns : List Node} {i : Nat}
    (hplace : insertionPlace? tree selected = some (owner ++ [Step.field kind.field], i))
    (howner : tree.nodeAt? owner = some (.group kind ns)) :
    insert node tree selected = .ok (.declined .noListAround) ∨
    ∃ effect rebuilt target,
      insert node tree selected = .ok (.applied effect ⟨some rebuilt, some target⟩) ∧
      (rebuilt.resolves target = true ↔ i ≤ ns.length) := by
  rcases insert_cases_of_place node hplace howner with heq |
    ⟨item, below, rebuilt, hitem, hput, heq⟩
  · exact .inl heq
  · exact .inr ⟨_, rebuilt, _, heq, resolves_put?_insertItem hput (resolves_inserted hitem)⟩

/-- An insertion into a list that its owner calls otherwise fails. -/
theorem insert_of_ne (node : Node) {owner : Path} {kind : GroupKind} {ns : List Node}
    {name : String} {i : Nat}
    (hplace : insertionPlace? tree selected = some (owner ++ [Step.field name], i))
    (howner : tree.nodeAt? owner = some (.group kind ns)) (hkind : kind = .array ∨ kind = .object)
    (hname : name ≠ kind.field) :
    insert node tree selected = .error (.notACollection (owner ++ [Step.field name])) := by
  have hnone := itemsAt?_of_ne howner hname
  simp only [insert, hplace, List.dropLast_concat, howner]
  rcases hkind with rfl | rfl <;> simp [Node.insertAt, hnone, bind, Except.bind]

/-- What an insertion comes to on any path: it fails over a list that is missed, it
declines, or it applies, with a valid selection unless the path points beyond the end
of the list. -/
def InsertsOn (s : Snapshot) : Except EditError Outcome → Prop
  | .error cause => MissesList s cause
  | .ok (.declined _) => ∀ cause, ¬ MissesList s cause
  | .ok (.misplaced _ _ _ _) => False
  | .ok (.applied _ change) => (∀ cause, ¬ MissesList s cause) ∧
      ((s.apply change).resolves = true ↔ ¬ PointsBeyond s)

theorem insertsOn_of_place (node : Node) {owner : Path} {kind : GroupKind} {ns : List Node}
    {i : Nat} (hplace : insertionPlace? tree selected = some (owner ++ [Step.field kind.field], i))
    (howner : tree.nodeAt? owner = some (.group kind ns))
    (hlist : ∀ cause, ¬ MissesList ⟨tree, selected⟩ cause)
    (hi : i ≤ ns.length ↔ ¬ PointsBeyond ⟨tree, selected⟩) :
    InsertsOn ⟨tree, selected⟩ (insert node tree selected) := by
  rcases insert_of_place node hplace howner with heq | ⟨effect, rebuilt, target, heq, hres⟩
  · rw [heq]
    exact hlist
  · rw [heq]
    exact ⟨hlist, hres.trans hi⟩

/-- At the end of a list, or of nothing. -/
theorem insertsOn_of_isAfterLast (node : Node) (hlast : selected.isAfterLast = true) :
    InsertsOn ⟨tree, selected⟩ (insert node tree selected) := by
  have hlist : ∀ cause, ¬ MissesList ⟨tree, selected⟩ cause := by
    rintro cause ⟨_, _, _, _, _, -, hnot, -⟩
    cases hlast.symm.trans hnot
  have hbeyond : ¬ PointsBeyond ⟨tree, selected⟩ := by
    rintro ⟨_, _, _, _, _, -, hnot, -⟩
    cases hlast.symm.trans hnot
  rcases hitems : tree.itemsAt? selected.dropLast with - | ns
  · have heq : insert node tree selected = .ok (.declined .noListAround) := by
      simp only [insert, insertionPlace?, hlast, if_true, hitems, Option.map_none]
    rw [heq]
    exact hlist
  · obtain ⟨owner, kind, hdrop, howner⟩ := owner_of_items hitems
    have hplace : insertionPlace? tree selected =
        some (owner ++ [Step.field kind.field], ns.length) := by
      rw [hdrop] at hitems
      simp only [insertionPlace?, hlast, if_true, hdrop, hitems, Option.map_some]
    exact insertsOn_of_place node hplace howner hlist (iff_of_true (Nat.le_refl _) hbeyond)

/-- The position after the field of a list is one of the list unless it is taken from
an index beyond the end. -/
theorem positionAfter_le_iff {before after : Path} {name : String} {ns : List Node}
    (hinner : IsInnermost editableFields selected before name after)
    (hlast : selected.isAfterLast = false)
    (hitems : tree.itemsAt? (before ++ [Step.field name]) = some ns) :
    positionAfter after ≤ ns.length ↔ ¬ PointsBeyond ⟨tree, selected⟩ := by
  have hbeyond : PointsBeyond ⟨tree, selected⟩ ↔
      ∃ i below, after = .index i :: below ∧ ns.length ≤ i := by
    constructor
    · rintro ⟨_, _, i, below, ns', hinner', -, hitems', hi⟩
      obtain ⟨rfl, rfl, rfl⟩ := hinner.unique hinner'
      obtain rfl := Option.some.inj (hitems.symm.trans hitems')
      exact ⟨i, below, rfl, hi⟩
    · rintro ⟨i, below, rfl, hi⟩
      exact ⟨before, name, i, below, ns, hinner, hlast, hitems, hi⟩
  rw [hbeyond]
  by_cases hindex : ∃ i below, after = .index i :: below
  · obtain ⟨i, below, rfl⟩ := hindex
    constructor
    · rintro hle ⟨j, below', heq, hj⟩
      obtain ⟨hij, -⟩ := List.cons.inj heq
      obtain rfl := Step.index.inj hij
      exact absurd hle (Nat.not_le.2 (Nat.lt_succ_of_le hj))
    · intro h
      exact Nat.lt_of_not_le fun hi => h ⟨i, below, rfl, hi⟩
  · have hzero : positionAfter after = 0 := by
      unfold positionAfter
      split
      · exact absurd ⟨_, _, rfl⟩ hindex
      · rfl
    rw [hzero]
    refine iff_of_true (Nat.zero_le _) ?_
    rintro ⟨i, below, heq, -⟩
    exact hindex ⟨i, below, heq⟩

/-- Behind the innermost field of a list. -/
theorem insertsOn_of_isInnermost (node : Node) {before after : Path} {name : String}
    (hinner : IsInnermost editableFields selected before name after)
    (hlast : selected.isAfterLast = false)
    (hplace : insertionPlace? tree selected =
      some (before ++ [Step.field name], positionAfter after)) :
    InsertsOn ⟨tree, selected⟩ (insert node tree selected) := by
  by_cases howner : ∃ kind ns, tree.nodeAt? before = some (.group kind ns) ∧
      (kind = .array ∨ kind = .object)
  · obtain ⟨kind, ns, hn, hkind⟩ := howner
    by_cases hname : name = kind.field
    · subst hname
      refine insertsOn_of_place node hplace hn ?_
        (positionAfter_le_iff hinner hlast (Node.itemsAt?_of_group hn))
      -- the owner knows the list by this name
      rintro cause ⟨_, _, _, kind', ns', hinner', -, hn', -, hname, -⟩
      obtain ⟨rfl, rfl, -⟩ := hinner.unique hinner'
      obtain ⟨rfl, -⟩ := Node.group.inj (Option.some.inj (hn.symm.trans hn'))
      exact hname rfl
    · rw [insert_of_ne node hplace hn hkind hname]
      exact ⟨before, name, after, kind, ns, hinner, hlast, hn, hkind, hname, rfl⟩
  · rw [insert_of_other node hplace fun kind ns hn =>
      not_or.1 fun hkind => howner ⟨kind, ns, hn, hkind⟩]
    rintro cause ⟨_, _, _, kind, ns, hinner', -, hn, hkind, -⟩
    obtain ⟨rfl, -, -⟩ := hinner.unique hinner'
    exact howner ⟨kind, ns, hn, hkind⟩

/-- **Insertion on any path.** -/
theorem insertsOn_insert (node : Node) (tree : Node) (selected : Path) :
    InsertsOn ⟨tree, selected⟩ (insert node tree selected) := by
  rcases hlast : selected.isAfterLast with - | -
  · by_cases hgroup : ∃ kind ns, tree.nodeAt? selected = some (.group kind ns) ∧
        (kind = .array ∨ kind = .object)
    · -- an array or object is entered at its head
      obtain ⟨kind, ns, hn, hkind⟩ := hgroup
      have hres := Node.resolves_of_nodeAt? hn
      exact insertsOn_of_place node (insertionPlace?_of_group hn hkind) hn (not_missesList hres)
        (iff_of_true (Nat.zero_le _) (not_pointsBeyond hres))
    · have hplace := insertionPlace?_of_other hlast fun kind ns hn =>
        not_or.1 fun hkind => hgroup ⟨kind, ns, hn, hkind⟩
      rcases hsplit : selected.splitAtLast (Step.isFieldIn editableFields) with
        - | ⟨before, step, after⟩
      · rw [hsplit] at hplace
        have heq : insert node tree selected = .ok (.declined .noListAround) := by
          simp only [insert, hplace, Option.map_none]
        rw [heq]
        rintro cause ⟨before, name, after, kind, ns, hinner, -⟩
        cases hsplit.symm.trans hinner.splitAtLast
      · obtain ⟨name, rfl, hinner⟩ := IsInnermost.of_splitAtLast hsplit
        rw [hsplit] at hplace
        exact insertsOn_of_isInnermost node hinner hlast hplace
  · exact insertsOn_of_isAfterLast node hlast

/-! ### Sideways moves -/

/-- Whether a neighbour is looked for on every place of a list, and on nothing else. -/
def FailsOnFields (neighbour? : Nat → Step → Except EditError (Option Step)) : Prop :=
  ∀ size,
    (∀ name, neighbour? size (.field name) = .error (.fieldAsPosition name)) ∧
    ∀ place, (∀ name, place ≠ .field name) → ∃ next?, neighbour? size place = .ok next?

theorem failsOnFields_placeLeft? : FailsOnFields placeLeft? := by
  refine fun size => ⟨fun name => rfl, fun place hplace => ?_⟩
  rcases place with name | ⟨- | i⟩ | -
  · exact absurd rfl (hplace name)
  all_goals exact ⟨_, rfl⟩

theorem failsOnFields_placeRight? : FailsOnFields placeRight? := by
  refine fun size => ⟨fun name => rfl, fun place hplace => ?_⟩
  rcases place with name | i | -
  · exact absurd rfl (hplace name)
  all_goals exact ⟨_, rfl⟩

/-- **Sideways moves on any path**: the only failure is a field where a place is due. -/
theorem moveSideways_error_iff {neighbour? : Nat → Step → Except EditError (Option Step)}
    (hneighbour : FailsOnFields neighbour?) (cause : EditError) :
    moveSideways neighbour? tree selected = .error cause ↔
      StandsOnField ⟨tree, selected⟩ cause := by
  constructor
  · intro h
    unfold moveSideways at h
    split at h
    · next before step place below hsplit =>
      split at h
      · next ns hitems =>
        obtain ⟨list, rfl, hinner⟩ := IsInnermost.of_splitAtLast hsplit
        obtain ⟨hfield, hother⟩ := hneighbour ns.length
        by_cases hplace : ∃ name, place = .field name
        · obtain ⟨name, rfl⟩ := hplace
          rw [hfield] at h
          exact ⟨before, list, name, below, ns, hinner, hitems, (Except.error.inj h).symm⟩
        · obtain ⟨next?, hnext⟩ := hother place (not_exists.1 hplace)
          rw [hnext] at h
          cases h
      · cases h
    · cases h
  · rintro ⟨before, list, name, below, ns, hinner, hitems, rfl⟩
    have hitems : tree.itemsAt? (before ++ [Step.field list]) = some ns := hitems
    simp only [moveSideways, hinner.splitAtLast, hitems, (hneighbour ns.length).1]
    rfl

theorem navigate_error_iff (direction : Direction) (cause : EditError) :
    navigate direction tree selected = .error cause ↔
      (direction = .left ∨ direction = .right) ∧ StandsOnField ⟨tree, selected⟩ cause := by
  cases direction with
  | left => simp [navigate, moveSideways_error_iff failsOnFields_placeLeft?]
  | right => simp [navigate, moveSideways_error_iff failsOnFields_placeRight?]
  | _ => simp [navigate]

/-! ### All edits with the guarantee -/

/-- The edits that are meant to decline wherever they can do nothing. -/
inductive Edit.IsGuarded : Edit → Prop
  | insert (node : Node) : IsGuarded (.insert node)
  | delete : IsGuarded .delete
  | move (direction : String) : IsGuarded (.move direction)
  | setText (text : String) : IsGuarded (.setText text)
  | changeKeyword (keyword : String) : IsGuarded (.changeKeyword keyword)
  | replace (node : Node) : IsGuarded (.replace node [])
  | setBoolean (value : Bool) : IsGuarded (.setBoolean value)
  | toText : IsGuarded .toText
  | toNumber : IsGuarded .toNumber
  | toArray : IsGuarded .toArray
  | toObject : IsGuarded .toObject
  | toNull : IsGuarded .toNull
  | navigate (direction : Direction) : IsGuarded (.navigate direction.name)

/-- The edits that insert, delete or move an item. -/
inductive Edit.ChangesItems : Edit → Prop
  | insert (node : Node) : ChangesItems (.insert node)
  | delete : ChangesItems .delete
  | move (direction : String) : ChangesItems (.move direction)

/-- Whether an edit fails on a snapshot nevertheless, and over what. -/
def Edit.FailsOver (edit : Edit) (s : Snapshot) (cause : EditError) : Prop :=
  match edit with
  | .insert _ => MissesList s cause
  | .navigate direction =>
    (direction = Direction.left.name ∨ direction = Direction.right.name) ∧ StandsOnField s cause
  | _ => False

/-- Whether an edit that applies leaves a selection behind that is not valid. -/
def Edit.LosesSelection (edit : Edit) (s : Snapshot) : Prop :=
  match edit with
  | .insert _ => PointsBeyond s
  | .move _ => s.resolves = false
  | _ => False

/-- Whether an edit puts a node where none belongs: it replaces something else. -/
def Edit.Misplaces (edit : Edit) (s : Snapshot) : Prop :=
  match edit with
  | .replace _ _ | .setBoolean _ | .toText | .toNumber | .toNull =>
    ∃ c, s.tree.get? s.selected = some c ∧ c.node? = none
  | _ => False

/-- A replacement never fails. -/
theorem exists_outcome_replace (node : Node) (below : Path) (tree : Node) (selected : Path) :
    ∃ outcome, replace node below tree selected = .ok outcome := by
  rcases replace_cases node below tree selected with
    ⟨-, heq⟩ | ⟨_, -, -, heq⟩ | ⟨_, _, -, -, heq⟩ <;> exact ⟨_, heq⟩

theorem error_iff_of_ok {x : Except EditError Outcome} (h : ∃ outcome, x = .ok outcome)
    (cause : EditError) : x = .error cause ↔ False := by
  obtain ⟨outcome, rfl⟩ := h
  simp

/-- **Edits with the guarantee fail only over a list that is missed or over a field in
the place of a position.** -/
theorem Edit.run_error_iff {edit : Edit} (hedit : edit.IsGuarded) (s : Snapshot)
    (cause : EditError) : edit.run s = .error cause ↔ edit.FailsOver s cause := by
  cases hedit with
  | insert node =>
    have h := insertsOn_insert node s.tree s.selected
    show Editing.insert node s.tree s.selected = .error cause ↔ MissesList s cause
    rcases hinsert : Editing.insert node s.tree s.selected with
      cause' | ⟨effect, change⟩ | ⟨_, _, _, _⟩ | reason <;> rw [hinsert] at h
    · constructor
      · intro heq
        obtain rfl := Except.error.inj heq
        exact h
      · intro h'
        rw [h.unique h']
    · exact iff_of_false (by simp) (h.1 cause)
    · exact h.elim
    · exact iff_of_false (by simp) (h cause)
  | delete => exact error_iff_of_ok ⟨_, rfl⟩ cause
  | move direction =>
    refine error_iff_of_ok ?_ cause
    simp only [Edit.run]
    split
    · rcases move_cases _ s.tree s.selected with ⟨_, heq⟩ | ⟨_, _, _, heq, -⟩
      · exact ⟨_, heq⟩
      · exact ⟨_, heq⟩
    · exact ⟨_, rfl⟩
  | setText text =>
    refine error_iff_of_ok ?_ cause
    rcases setText_cases text s.tree s.selected with ⟨_, heq⟩ | ⟨_, _, _, -, -, heq⟩
    · exact ⟨_, heq⟩
    · exact ⟨_, heq⟩
  | changeKeyword keyword =>
    refine error_iff_of_ok ?_ cause
    rcases changeKeyword_cases keyword s.tree s.selected with heq | ⟨_, _, _, -, -, heq⟩
    · exact ⟨_, heq⟩
    · exact ⟨_, heq⟩
  | replace node => exact error_iff_of_ok (exists_outcome_replace node [] _ _) cause
  | setBoolean value => exact error_iff_of_ok (exists_outcome_replace _ _ _ _) cause
  | toText => exact error_iff_of_ok (exists_outcome_replace _ _ _ _) cause
  | toNumber => exact error_iff_of_ok (exists_outcome_replace _ _ _ _) cause
  | toArray =>
    refine error_iff_of_ok ?_ cause
    simp only [Edit.run, Editing.toArray]
    split
    · exact ⟨_, rfl⟩
    · exact exists_outcome_replace _ _ _ _
  | toObject =>
    refine error_iff_of_ok ?_ cause
    simp only [Edit.run, Editing.toObject]
    split
    · exact ⟨_, rfl⟩
    · exact exists_outcome_replace _ _ _ _
  | toNull => exact error_iff_of_ok (exists_outcome_replace _ _ _ _) cause
  | navigate direction =>
    have hrun : (Edit.navigate direction.name).run s = .error cause ↔
        Document.navigate direction s.tree s.selected = .error cause := by
      simp only [Edit.run, Direction.ofName_name, bind, Except.bind, moveSelection]
      rcases Document.navigate direction s.tree s.selected with cause' | target
      · simp [Except.map]
      · simp [Except.map]
    rw [hrun, navigate_error_iff]
    cases direction <;> simp [Edit.FailsOver, Direction.name]

/-- **The selection after an insertion, a deletion or a move is valid** unless the path
points beyond the end of a list or is no selection of the item that moves. -/
theorem Edit.resolves_run_iff {edit : Edit} (hedit : edit.ChangesItems) {s : Snapshot}
    {effect : Effect} {change : Change} (hrun : edit.run s = .ok (.applied effect change)) :
    (s.apply change).resolves = true ↔ ¬ edit.LosesSelection s := by
  cases hedit with
  | insert node =>
    have h := insertsOn_insert node s.tree s.selected
    rw [show Editing.insert node s.tree s.selected = .ok (.applied effect change) from hrun] at h
    exact h.2
  | delete =>
    have h := keepsSelection_delete s.tree s.selected
    rw [show Except.ok (Editing.delete s.tree s.selected) = .ok (.applied effect change) from hrun]
      at h
    exact iff_of_true h not_false
  | move name =>
    simp only [Edit.run] at hrun
    split at hrun
    · next direction _ =>
      rcases move_cases direction s.tree s.selected with ⟨reason, heq⟩ |
        ⟨effect', rebuilt, target, heq, hres⟩
      · cases heq.symm.trans hrun
      · obtain ⟨-, rfl⟩ := Outcome.applied.inj (Except.ok.inj (heq.symm.trans hrun))
        show rebuilt.resolves target = true ↔ ¬ s.tree.resolves s.selected = false
        rw [hres, Bool.not_eq_false]
    · cases hrun

/-- Whether a node has been put where none belongs. -/
def IsMisplaced : Except EditError Outcome → Prop
  | .ok (.misplaced _ _ _ _) => True
  | _ => False

theorem isMisplaced_replace_iff (node : Node) (below : Path) (s : Snapshot) :
    IsMisplaced (replace node below s.tree s.selected) ↔
      ∃ c, s.tree.get? s.selected = some c ∧ c.node? = none := by
  rcases replace_cases node below s.tree s.selected with
    ⟨hnone, heq⟩ | ⟨c, hc, hother, heq⟩ | ⟨old, _, hold, -, heq⟩ <;> rw [heq]
  · refine iff_of_false id ?_
    rintro ⟨c, hc, -⟩
    cases hnone.symm.trans hc
  · exact iff_of_true trivial ⟨c, hc, hother⟩
  · refine iff_of_false id ?_
    rintro ⟨c, hc, hother⟩
    obtain rfl := Option.some.inj ((Node.nodeAt?_eq_some.1 hold).symm.trans hc)
    cases hother

/-- A replacement that is made over a node does not misplace anything. -/
theorem not_isMisplaced_replace {old : Node} {s : Snapshot}
    (hold : s.tree.nodeAt? s.selected = some old) (node : Node) (below : Path) :
    ¬ IsMisplaced (replace node below s.tree s.selected) := by
  obtain ⟨rebuilt, -, heq⟩ := replace_eq_ok hold node below
  rw [heq]
  exact id

/-- **Only replacements misplace a node**, and they do where something else stands. -/
theorem Edit.isMisplaced_run_iff {edit : Edit} (hedit : edit.IsGuarded) (s : Snapshot) :
    IsMisplaced (edit.run s) ↔ edit.Misplaces s := by
  cases hedit with
  | replace | setBoolean | toText | toNumber | toNull => exact isMisplaced_replace_iff _ _ s
  | insert node =>
    have h := insertsOn_insert node s.tree s.selected
    refine iff_of_false (fun hmisplaced => ?_) id
    change IsMisplaced (Editing.insert node s.tree s.selected) at hmisplaced
    rcases hinsert : Editing.insert node s.tree s.selected with
      cause | ⟨effect, change⟩ | ⟨_, _, _, _⟩ | reason <;> rw [hinsert] at h hmisplaced
    case ok.misplaced => exact h
    all_goals exact hmisplaced
  | delete =>
    refine iff_of_false ?_ id
    rcases delete_cases s.tree s.selected with
      heq | heq | ⟨_, _, _, _, _, -, -, -, -, heq⟩ <;>
      simp only [Edit.run, heq] <;> exact id
  | move direction =>
    refine iff_of_false ?_ id
    simp only [Edit.run]
    split
    · rcases move_cases _ s.tree s.selected with ⟨_, heq⟩ | ⟨_, _, _, heq, -⟩ <;> rw [heq] <;>
        exact id
    · exact id
  | setText text =>
    refine iff_of_false ?_ id
    rcases setText_cases text s.tree s.selected with ⟨_, heq⟩ | ⟨_, _, _, -, -, heq⟩ <;>
      simp only [Edit.run, heq] <;> exact id
  | changeKeyword keyword =>
    refine iff_of_false ?_ id
    rcases changeKeyword_cases keyword s.tree s.selected with heq | ⟨_, _, _, -, -, heq⟩ <;>
      simp only [Edit.run, heq] <;> exact id
  | toArray =>
    refine iff_of_false ?_ id
    simp only [Edit.run, Editing.toArray]
    split
    · exact id
    · next node hnode => exact not_isMisplaced_replace hnode _ _
  | toObject =>
    refine iff_of_false ?_ id
    simp only [Edit.run, Editing.toObject]
    split
    · exact id
    · next node hnode => exact not_isMisplaced_replace hnode _ _
  | navigate direction =>
    refine iff_of_false ?_ id
    simp only [Edit.run, Direction.ofName_name, bind, Except.bind, moveSelection]
    rcases Document.navigate direction s.tree s.selected with cause | target <;> exact id

/-- **From a valid selection the guarantee holds.**  No edit meets what it fails over
there, … -/
theorem Edit.not_failsOver {s : Snapshot} (h : s.resolves = true) (edit : Edit)
    (cause : EditError) : ¬ edit.FailsOver s cause := by
  cases edit with
  | insert node => exact not_missesList h cause
  | navigate direction => exact fun hfails => not_standsOnField h cause hfails.2
  | _ => exact id

/-- … none misplaces a node, … -/
theorem Edit.not_misplaces {s : Snapshot} (h : s.resolves = true) (edit : Edit) :
    ¬ edit.Misplaces s := by
  have hselected : ¬ ∃ c, s.tree.get? s.selected = some c ∧ c.node? = none := by
    rintro ⟨c, hc, hother⟩
    rcases Node.get?_of_resolves h with hget | ⟨n, hget⟩
    · cases hget.symm.trans hc
    · obtain rfl := Option.some.inj (hget.symm.trans hc)
      cases hother
  cases edit with
  | replace | setBoolean | toText | toNumber | toNull => exact hselected
  | _ => exact id

/-- … and none loses the selection. -/
theorem Edit.not_losesSelection {s : Snapshot} (h : s.resolves = true) (edit : Edit) :
    ¬ edit.LosesSelection s := by
  cases edit with
  | insert node => exact not_pointsBeyond h
  | move direction => exact fun hlost => Bool.false_ne_true (hlost.symm.trans h)
  | _ => exact id

/-- **Edits on any path.**  On every document and every path, the edits that are meant
to decline fail in two cases only: an insertion over a list that its owner calls
otherwise, and a sideways move over a field in the place of a position.  They leave
no document behind in one case, a replacement of something that is no node.  Whenever an
insertion, a deletion or a move applies, its selection is valid in its document, but
for an insertion behind an index beyond the end, and for a move from a path that is no
selection itself. -/
theorem Edit.run_on_any_path {edit : Edit} (hedit : edit.IsGuarded) (s : Snapshot) :
    (∀ cause, edit.run s = .error cause ↔ edit.FailsOver s cause) ∧
    (IsMisplaced (edit.run s) ↔ edit.Misplaces s) ∧
    (edit.ChangesItems → ∀ effect change, edit.run s = .ok (.applied effect change) →
      ((s.apply change).resolves = true ↔ ¬ edit.LosesSelection s)) := by
  refine ⟨?_, Edit.isMisplaced_run_iff hedit s, ?_⟩
  · intro cause
    exact Edit.run_error_iff hedit s cause
  · intro hitems effect change hrun
    exact Edit.resolves_run_iff hitems hrun

/-- An insertion behind the item of a list. -/
theorem run_on_any_path_of_item :
    let s : Snapshot := ⟨.array [.boolean true], [.field "elements", .index 0]⟩
    (Edit.insert .null).IsGuarded ∧ (Edit.insert .null).ChangesItems ∧
    (∀ cause, (Edit.insert .null).run s = .error cause ↔ (Edit.insert .null).FailsOver s cause) ∧
    ((s.apply ⟨some (.array [.boolean true, .null]), some [.field "elements", .index 1]⟩).resolves =
      true ↔ ¬ (Edit.insert .null).LosesSelection s) := by
  intro s
  obtain ⟨herror, -, hvalid⟩ := Edit.run_on_any_path (.insert .null) s
  exact ⟨.insert .null, .insert .null, herror, hvalid (.insert .null) (.inserted 1) _ rfl⟩

/-- Paths on which the two edits fail, paths on which an insertion and a move apply
with a selection that is not valid, and one on which a replacement applies with a node in
the place of a list. -/
theorem run_on_stale_paths :
    (Edit.insert .null).run ⟨.array [], [.field "properties"]⟩ =
      .error (.notACollection [.field "properties"]) ∧
    (Edit.navigate "RIGHT").run ⟨.array [.null], [.field "elements", .field "x"]⟩ =
      .error (.fieldAsPosition "x") ∧
    (Edit.insert .null).run ⟨.array [], [.field "elements", .index 4]⟩ =
      .ok (.applied (.inserted 5)
        ⟨some (.array [.null]), some [.field "elements", .index 5]⟩) ∧
    (Node.array [.null]).resolves [.field "elements", .index 5] = false ∧
    (Edit.move "DOWN").run
        ⟨.array [.null, .boolean true], [.field "elements", .index 0, .field "x"]⟩ =
      .ok (.applied (.swapped .down) ⟨some (.array [.boolean true, .null]),
        some [.field "elements", .index 1, .field "x"]⟩) ∧
    (Node.array [.boolean true, .null]).resolves
      [.field "elements", .index 1, .field "x"] = false ∧
    (Edit.replace .null []).run ⟨.array [], [.field "elements"]⟩ =
      .ok (.misplaced .replaced .null [.field "elements"] [.field "elements"]) :=
  ⟨rfl, rfl, rfl, rfl, rfl, rfl, rfl⟩

end StructuralEditor.Editing
