/-
StructuralEditor/Proofs/Reachability.lean

Which selections the four moves lead to.

The way from one selection to another goes up to a node that both stand in and
then down.  Up is never in the way: each move drops the last place, until the
node is reached (`reaches_up`).  Down enters the lists of a group and the second
node of a pair, and right then walks to any place of a list (`reaches_down`).
The first node of a pair, its key or its name, is entered by no move.

So a selection can be reached if and only if, behind the part that it shares with
the start, it never goes to the first node of a pair (`reaches_iff`).  The part
that is shared must reach beyond the last such step, and the place of that step is
a node; this is where the way turns.
-/
import StructuralEditor.Proofs.Selection

namespace StructuralEditor.Document

/-! ### Runs of moves -/

/-- The selection after several moves. -/
def navigateAll (directions : List Direction) (tree : Node) (selected : Path) :
    Except EditError Path :=
  directions.foldlM (fun place direction => navigate direction tree place) selected

/-- Whether some moves lead from one selection to another. -/
def Reaches (tree : Node) (p q : Path) : Prop :=
  ∃ directions, navigateAll directions tree p = .ok q

variable {tree : Node} {p q r : Path}

theorem reaches_refl (tree : Node) (p : Path) : Reaches tree p p :=
  ⟨[], rfl⟩

theorem Reaches.trans (h : Reaches tree p q) (h' : Reaches tree q r) : Reaches tree p r := by
  obtain ⟨directions, hq⟩ := h
  obtain ⟨directions', hr⟩ := h'
  refine ⟨directions ++ directions', ?_⟩
  rw [navigateAll] at hq hr ⊢
  rw [List.foldlM_append, hq]
  exact hr

/-- A run goes on from where its first move leads. -/
theorem navigateAll_cons {direction : Direction} (h : navigate direction tree p = .ok q)
    (directions : List Direction) :
    navigateAll (direction :: directions) tree p = navigateAll directions tree q := by
  rw [navigateAll, List.foldlM_cons, h]
  rfl

theorem reaches_navigate {direction : Direction} (h : navigate direction tree p = .ok q) :
    Reaches tree p q :=
  ⟨[direction], navigateAll_cons h []⟩

theorem reaches_moveUp (tree : Node) (p : Path) : Reaches tree p (moveUp p) :=
  reaches_navigate (show navigate .up tree p = .ok _ from rfl)

theorem reaches_moveDown (tree : Node) (p : Path) : Reaches tree p (moveDown tree p) :=
  reaches_navigate (show navigate .down tree p = .ok _ from rfl)

/-! ### First nodes of pairs -/

/-- The fields that name something: the key of a property and the identifier of a
declarator. -/
def nameFields : List String :=
  ["key", "id"]

theorem firstField_mem_nameFields (kind : PairKind) : kind.firstField ∈ nameFields := by
  cases kind <;> simp [nameFields, PairKind.firstField]

theorem secondField_not_mem_nameFields (kind : PairKind) : kind.secondField ∉ nameFields := by
  cases kind <;> simp [nameFields, PairKind.secondField]

theorem groupField_not_mem_nameFields (kind : GroupKind) : kind.field ∉ nameFields := by
  cases kind <;> simp [nameFields, GroupKind.field]

/-- Whether a path goes to no first node of a pair. -/
def Nameless (p : Path) : Prop :=
  ∀ step ∈ p, step.isFieldIn nameFields = false

theorem nameless_nil : Nameless [] := by
  intro step hstep
  cases hstep

theorem nameless_append : Nameless (p ++ q) ↔ Nameless p ∧ Nameless q :=
  List.forall_mem_append

theorem isFieldIn_eq_false {name : String} (h : name ∉ nameFields) :
    (Step.field name).isFieldIn nameFields = false := by
  simpa [Step.isFieldIn] using h

/-- The selection below a node is that of a list or of a second node. -/
theorem nameless_entry (n : Node) : Nameless n.entry := by
  intro step hstep
  cases n with
  | pair kind a b =>
    obtain rfl := List.mem_singleton.1 hstep
    exact isFieldIn_eq_false (secondField_not_mem_nameFields kind)
  | group kind items =>
    cases items <;>
    · rcases List.mem_cons.1 hstep with rfl | hstep
      · exact isFieldIn_eq_false (groupField_not_mem_nameFields kind)
      · obtain rfl := List.mem_singleton.1 hstep
        rfl
  | _ => cases hstep

/-! ### Selections below a node -/

section

variable {top : Path} {n : Node} (htop : tree.nodeAt? top = some n)

include htop

/-- A list below a node is that of a group below the node. -/
theorem owner_below {list owner : Path} {kind : GroupKind} {ns : List Node}
    (howner : tree.nodeAt? owner = some (.group kind ns))
    (heq : top ++ list = owner ++ [Step.field kind.field]) :
    ∃ below, owner = top ++ below ∧ list = below ++ [Step.field kind.field] := by
  rcases List.eq_nil_or_concat list with rfl | ⟨below, step, rfl⟩
  · -- a list is no node
    have hitems := Node.itemsAt?_eq_some.1 (Node.itemsAt?_of_group howner)
    rw [← heq, List.append_nil, Node.nodeAt?_eq_some.1 htop] at hitems
    cases hitems
  · rw [List.concat_eq_append, ← List.append_assoc] at heq
    obtain ⟨hbelow, hstep⟩ := List.append_inj' heq rfl
    refine ⟨below, hbelow.symm, ?_⟩
    rw [List.concat_eq_append, hstep]

/-- Selections below a node are made of fields that hold a node, and of fields that
hold a list with a place in it. -/
@[elab_as_elim]
theorem selection_induction {motive : Path → Prop} (self : motive [])
    (field : ∀ below m name child, tree.nodeAt? (top ++ below) = some m →
      m.field? name = some (.node child) → motive below → motive (below ++ [Step.field name]))
    (place : ∀ below kind ns step, tree.nodeAt? (top ++ below) = some (.group kind ns) →
      (step = .afterLast ∨ ∃ i < ns.length, step = .index i) → motive below →
        motive (below ++ [Step.field kind.field] ++ [step]))
    (below : Path) (h : tree.resolves (top ++ below) = true) : motive below := by
  induction hlength : below.length using Nat.strongRecOn generalizing below with
  | ind length ih =>
    rcases List.eq_nil_or_concat below with rfl | ⟨list, step, rfl⟩
    · exact self
    · rw [List.concat_eq_append] at h hlength ⊢
      rw [← List.append_assoc] at h
      rw [List.length_append, List.length_singleton] at hlength
      rcases Node.resolves_snoc h with ⟨m, name, child, rfl, hm, hchild⟩ |
        ⟨owner, kind, ns, heq, howner, hplace⟩
      · exact field list m name child hm hchild
          (ih _ (by omega) list (Node.resolves_of_nodeAt? hm) rfl)
      · obtain ⟨between, rfl, rfl⟩ := owner_below htop howner heq
        rw [List.length_append, List.length_singleton] at hlength
        exact place between kind ns step howner hplace
          (ih _ (by omega) between (Node.resolves_of_nodeAt? howner) rfl)

/-- **Going up from a selection below a node reaches the node.** -/
theorem reaches_up (below : Path) (h : tree.resolves (top ++ below) = true) :
    Reaches tree (top ++ below) top := by
  refine selection_induction htop ?self ?field ?place below h
  case self =>
    rw [List.append_nil]
    exact reaches_refl tree top
  case field =>
    intro below m name child hm hchild ih
    have hup := reaches_moveUp tree (top ++ below ++ [Step.field name])
    rw [show moveUp (top ++ below ++ [Step.field name]) = top ++ below by simp [moveUp],
      List.append_assoc] at hup
    exact hup.trans ih
  case place =>
    intro below kind ns step howner hplace ih
    have hup := reaches_moveUp tree (top ++ below ++ [Step.field kind.field] ++ [step])
    have hstep : ∀ name, step ≠ .field name := by
      rcases hplace with rfl | ⟨i, -, rfl⟩ <;> simp
    rw [moveUp_place (top ++ below) _ step hstep] at hup
    simp only [List.append_assoc] at hup ih ⊢
    exact hup.trans ih

end

/-! ### Along a list -/

section

variable {owner : Path} {kind : GroupKind} {ns : List Node}

theorem groupField_isSibling (kind : GroupKind) :
    (Step.field kind.field).isFieldIn siblingFields = true := by
  cases kind <;> simp [Step.isFieldIn, siblingFields, GroupKind.field]

/-- From a place of a list, a sideways move leads to its neighbour in that list, or
nowhere. -/
theorem moveSideways_place {list : Path} {place : Step}
    (neighbour? : Nat → Step → Except EditError (Option Step))
    (hlist : tree.itemsAt? list = some ns) (hplace : ∀ name, place ≠ .field name) :
    moveSideways neighbour? tree (list ++ [place]) =
      (neighbour? ns.length place).map fun next? => list ++ [next?.getD place] := by
  obtain ⟨owner, kind, rfl, -⟩ := owner_of_items hlist
  have hno : ∀ step ∈ [place], step.isFieldIn siblingFields = false := by
    intro step hstep
    obtain rfl := List.mem_singleton.1 hstep
    cases step with
    | field name => exact absurd rfl (hplace name)
    | _ => rfl
  have hsplit : Path.splitAtLast (Step.isFieldIn siblingFields)
      (owner ++ [Step.field kind.field] ++ [place]) = some (owner, .field kind.field, [place]) := by
    rw [List.append_assoc]
    exact Path.splitAtLast_append (groupField_isSibling kind) hno owner
  simp only [moveSideways, hsplit, hlist]
  congr 1
  funext next?
  cases next? <;> simp

/-- Going right from an item leads to the next place of its list. -/
theorem navigate_right (howner : tree.nodeAt? owner = some (.group kind ns)) (i : Nat) :
    navigate .right tree (owner ++ [Step.field kind.field, .index i]) =
      .ok (owner ++ [Step.field kind.field, stepRight ns.length i]) := by
  have hplace : ∀ name, Step.index i ≠ .field name := by simp
  have hmove := moveSideways_place placeRight? (Node.itemsAt?_of_group howner) hplace
  simpa [navigate, placeRight?, Except.map] using hmove

/-- Going down and then right leads to each item of a list, … -/
theorem reaches_index (howner : tree.nodeAt? owner = some (.group kind ns)) {i : Nat}
    (hi : i < ns.length) : Reaches tree owner (owner ++ [Step.field kind.field, .index i]) := by
  induction i with
  | zero =>
    have hdown := reaches_moveDown tree owner
    rw [moveDown_of_nodeAt? howner] at hdown
    cases ns with
    | nil => cases hi
    | cons n ns => exact hdown
  | succ i ih =>
    have hright := navigate_right howner i
    rw [stepRight, if_pos hi] at hright
    exact (ih (by omega)).trans (reaches_navigate hright)

/-- … and to the place after the last one. -/
theorem reaches_afterLast (howner : tree.nodeAt? owner = some (.group kind ns)) :
    Reaches tree owner (owner ++ [Step.field kind.field, .afterLast]) := by
  rcases hsize : ns.length with - | i
  · have hdown := reaches_moveDown tree owner
    rw [moveDown_of_nodeAt? howner, List.length_eq_zero_iff.1 hsize] at hdown
    exact hdown
  · have hright := navigate_right howner i
    rw [stepRight, if_neg (by omega)] at hright
    exact (reaches_index howner (by omega)).trans (reaches_navigate hright)

end

/-! ### Down -/

/-- Of the fields that hold a node, only those of a pair do, and the first one is a
name. -/
theorem entry_of_field {n m : Node} {name : String} (h : n.field? name = some (.node m))
    (hname : (Step.field name).isFieldIn nameFields = false) : n.entry = [.field name] := by
  obtain ⟨n', hrewrites⟩ := Node.Rewrites.of_field? h (rfl : (Content.node m).sort = _)
  cases hrewrites with
  | first kind a b =>
    simp [Step.isFieldIn, firstField_mem_nameFields kind] at hname
  | second kind a b => rfl

/-- **Going down and right from a node reaches every selection below it that goes to
no name.** -/
theorem reaches_down {top : Path} {n : Node} (htop : tree.nodeAt? top = some n) (below : Path)
    (h : tree.resolves (top ++ below) = true) :
    Nameless below → Reaches tree top (top ++ below) := by
  refine selection_induction htop ?self ?field ?place below h
  case self =>
    intro _
    rw [List.append_nil]
    exact reaches_refl tree top
  case field =>
    intro below m name child hm hchild ih hnames
    obtain ⟨hbelow, hname⟩ := nameless_append.1 hnames
    have hdown := reaches_moveDown tree (top ++ below)
    rw [moveDown_of_nodeAt? hm, entry_of_field hchild (hname _ (List.mem_singleton_self _)),
      List.append_assoc] at hdown
    exact (ih hbelow).trans hdown
  case place =>
    intro below kind ns step howner hplace ih hnames
    rw [List.append_assoc] at hnames ⊢
    refine (ih (nameless_append.1 hnames).1).trans ?_
    rw [← List.append_assoc]
    rcases hplace with rfl | ⟨i, hi, rfl⟩
    · exact reaches_afterLast howner
    · exact reaches_index howner hi

/-! ### What a run of moves shares with its start -/

/-- Whether a selection `q` goes to names only where `p` does: behind a part that
they share it goes to none. -/
def SharesNames (p q : Path) : Prop :=
  ∃ shared fresh, shared <+: p ∧ q = shared ++ fresh ∧ Nameless fresh

theorem sharesNames_of_isPrefix (h : q <+: p) : SharesNames p q :=
  ⟨q, [], h, (List.append_nil q).symm, nameless_nil⟩

theorem SharesNames.trans (h : SharesNames p q) (h' : SharesNames q r) : SharesNames p r := by
  obtain ⟨shared, fresh, hshared, rfl, hfresh⟩ := h
  obtain ⟨shared', fresh', hshared', rfl, hfresh'⟩ := h'
  -- the second part that is shared ends in the first one, or in what is new there
  rcases List.prefix_or_prefix_of_prefix hshared' (List.prefix_append shared fresh) with
    hle | ⟨more, rfl⟩
  · exact ⟨shared', fresh', hle.trans hshared, rfl, hfresh'⟩
  · obtain ⟨rest, hrest⟩ := (List.prefix_append_right_inj shared).1 hshared'
    rw [← hrest] at hfresh
    refine ⟨shared, more ++ fresh', hshared, List.append_assoc _ _ _, ?_⟩
    exact nameless_append.2 ⟨(nameless_append.1 hfresh).1, hfresh'⟩

/-- A name that is not in the part shared with the start stands in no selection. -/
theorem SharesNames.getElem? (h : SharesNames p q) {i : Nat} {name : String}
    (hname : name ∈ nameFields) (hi : q[i]? = some (.field name)) : p[i]? = some (.field name) := by
  obtain ⟨shared, fresh, ⟨rest, rfl⟩, rfl, hfresh⟩ := h
  rcases Nat.lt_or_ge i shared.length with hlt | hge
  · rw [List.getElem?_append_left hlt] at hi ⊢
    exact hi
  · rw [List.getElem?_append_right hge] at hi
    have hno := hfresh _ (List.mem_of_getElem? hi)
    simp [Step.isFieldIn, hname] at hno

/-- Sideways moves land on places, and no place is a field. -/
def LandsOnPlaces (neighbour? : Nat → Step → Except EditError (Option Step)) : Prop :=
  ∀ size place next, neighbour? size place = .ok (some next) → ∀ name, next ≠ .field name

theorem landsOnPlaces_placeLeft? : LandsOnPlaces placeLeft? := by
  rintro size place _ h name rfl
  unfold placeLeft? at h
  split at h
  · split at h <;> cases h
  · cases h
  · split at h <;> cases h
  · cases h

theorem landsOnPlaces_placeRight? : LandsOnPlaces placeRight? := by
  rintro size place _ h name rfl
  unfold placeRight? stepRight at h
  split at h
  · cases h
  · split at h <;> cases h
  · cases h

theorem sharesNames_moveSideways {neighbour? : Nat → Step → Except EditError (Option Step)}
    (hlands : LandsOnPlaces neighbour?) (h : moveSideways neighbour? tree p = .ok q) :
    SharesNames p q := by
  unfold moveSideways at h
  split at h
  · next before list place below hsplit =>
    split at h
    · next items _ =>
      rcases hnext : neighbour? items.length place with cause | next?
      · rw [hnext] at h
        cases h
      · rw [hnext] at h
        cases next? with
        | none =>
          obtain rfl := Except.ok.inj h
          exact sharesNames_of_isPrefix List.prefix_rfl
        | some next =>
          obtain rfl := Except.ok.inj h
          obtain ⟨rfl, -, -⟩ := Path.splitAtLast_eq_some hsplit
          refine ⟨before ++ [list], [next], ⟨place :: below, by simp⟩, by simp, ?_⟩
          intro step hstep
          obtain rfl := List.mem_singleton.1 hstep
          cases step with
          | field name => exact absurd rfl (hlands _ _ _ hnext name)
          | _ => rfl
    · obtain rfl := Except.ok.inj h
      exact sharesNames_of_isPrefix List.prefix_rfl
  · obtain rfl := Except.ok.inj h
    exact sharesNames_of_isPrefix List.prefix_rfl

theorem moveUp_isPrefix (p : Path) : moveUp p <+: p := by
  unfold moveUp
  split
  · exact List.dropLast_prefix p
  · exact (List.dropLast_prefix _).trans (List.dropLast_prefix p)
  · exact List.prefix_rfl

theorem sharesNames_moveDown (tree : Node) (p : Path) : SharesNames p (moveDown tree p) := by
  unfold moveDown
  split
  · exact sharesNames_of_isPrefix List.prefix_rfl
  · split
    · next n _ => exact ⟨p, n.entry, List.prefix_rfl, rfl, nameless_entry n⟩
    · exact sharesNames_of_isPrefix List.prefix_rfl

/-- **A move goes to no name but one where the selection stands already.** -/
theorem sharesNames_navigate {direction : Direction} (h : navigate direction tree p = .ok q) :
    SharesNames p q := by
  cases direction with
  | up =>
    obtain rfl := Except.ok.inj h
    exact sharesNames_of_isPrefix (moveUp_isPrefix p)
  | down =>
    obtain rfl := Except.ok.inj h
    exact sharesNames_moveDown tree p
  | left => exact sharesNames_moveSideways landsOnPlaces_placeLeft? h
  | right => exact sharesNames_moveSideways landsOnPlaces_placeRight? h

/-- A run of moves from a valid selection does not fail, and what holds for each move
holds for the run. -/
theorem navigateAll_eq_ok (hp : tree.resolves p = true) (directions : List Direction) :
    ∃ q, navigateAll directions tree p = .ok q ∧ tree.resolves q = true ∧ SharesNames p q := by
  induction directions generalizing p with
  | nil => exact ⟨p, rfl, hp, sharesNames_of_isPrefix List.prefix_rfl⟩
  | cons direction directions ih =>
    obtain ⟨next, hnext, hres⟩ := navigate_eq_ok direction hp
    obtain ⟨q, hq, hqres, hshares⟩ := ih hres
    refine ⟨q, ?_, hqres, (sharesNames_navigate hnext).trans hshares⟩
    rw [navigateAll_cons hnext]
    exact hq

/-! ### Reachability -/

/-- A name is a node. -/
theorem field?_name {n : Node} {name : String} {d : Content} (hname : name ∈ nameFields)
    (h : n.field? name = some d) : ∃ m, d = .node m := by
  obtain ⟨n', hrewrites⟩ := Node.Rewrites.of_field? h (rfl : d.sort = d.sort)
  cases hrewrites with
  | value a b => simp [nameFields] at hname
  | text kind s t => cases kind <;> simp [nameFields, LeafKind.field] at hname
  | first kind a b m => exact ⟨a, rfl⟩
  | second kind a b m => exact ⟨b, rfl⟩
  | items kind ns ms => exact absurd hname (groupField_not_mem_nameFields kind)
  | keyword s t ns => simp [nameFields, keywordField] at hname

/-- A selection that goes to a name goes through a node there. -/
theorem nodeAt?_name {before after : Path} {name : String} (hname : name ∈ nameFields)
    (h : tree.resolves (before ++ Step.field name :: after) = true) :
    ∃ n, tree.nodeAt? (before ++ [Step.field name]) = some n := by
  obtain ⟨c, hc, hres⟩ := (Node.resolves_iff.1 h).split (List.cons_ne_nil _ _)
  obtain ⟨d, hd, -⟩ : ∃ d, c.child? (.field name) = some d ∧ d.Resolves after := by
    simpa using hres.cons
  obtain ⟨m, rfl, hm⟩ := Content.child?_eq_some_field hd
  obtain ⟨n, rfl⟩ := field?_name hname hm
  refine ⟨n, Node.nodeAt?_eq_some.2 ?_⟩
  rw [Node.get?_append, Node.get?, hc, Option.bind_some, Content.get?_singleton]
  exact hd

/-- A part of two selections after which one of them goes to no name reaches to the
last name of that one. -/
theorem last_name_isPrefix {shared fresh before after : Path} {step : Step}
    (heq : shared ++ fresh = before ++ step :: after) (hfresh : Nameless fresh)
    (hstep : step.isFieldIn nameFields = true) : before ++ [step] <+: shared := by
  have hfresh : step ∉ fresh := fun hmem => by
    cases hstep.symm.trans (hfresh step hmem)
  rcases List.append_eq_append_iff.1 heq with ⟨more, rfl, rfl⟩ | ⟨more, rfl, hmore⟩
  · exact absurd (List.mem_append_right more List.mem_cons_self) hfresh
  · cases more with
    | nil =>
      obtain rfl : step :: after = fresh := hmore
      exact absurd List.mem_cons_self hfresh
    | cons s more =>
      obtain rfl := (List.cons.inj hmore).1
      exact ⟨more, by simp⟩

/-- **What moves reach**: the selections that go to names only where the start does. -/
theorem reaches_iff (hp : tree.resolves p = true) :
    Reaches tree p q ↔ tree.resolves q = true ∧ SharesNames p q := by
  constructor
  · rintro ⟨directions, hq⟩
    obtain ⟨q', hq', hres, hshares⟩ := navigateAll_eq_ok hp directions
    obtain rfl := Except.ok.inj (hq'.symm.trans hq)
    exact ⟨hres, hshares⟩
  · rintro ⟨hq, shared, fresh, hshared, hfresh, hnames⟩
    -- the way turns at the last name of the target, or at the root
    obtain ⟨top, up, down, n, rfl, rfl, htop, hdown⟩ : ∃ top up down n,
        p = top ++ up ∧ q = top ++ down ∧ tree.nodeAt? top = some n ∧ Nameless down := by
      rcases hsplit : Path.splitAtLast (Step.isFieldIn nameFields) q with - | ⟨before, step, after⟩
      · exact ⟨[], p, q, tree, rfl, rfl, rfl, Path.splitAtLast_eq_none.1 hsplit⟩
      · obtain ⟨rfl, hstep, hafter⟩ := Path.splitAtLast_eq_some hsplit
        obtain ⟨up, rfl⟩ := (last_name_isPrefix hfresh.symm hnames hstep).trans hshared
        obtain ⟨name, hname, rfl⟩ := Step.isFieldIn_iff.1 hstep
        obtain ⟨n, hn⟩ := nodeAt?_name hname hq
        exact ⟨before ++ [Step.field name], up, after, n, rfl, by simp, hn, hafter⟩
    exact (reaches_up htop up hp).trans (reaches_down htop down hq hdown)

/-- **Navigation is complete and confined.**  From a valid selection, moves lead to
every valid selection that goes to no key of a property and no identifier of a
declarator.  No run of moves fails, it ends in a valid selection, and a key or an
identifier in it stands at the same place of the start. -/
theorem navigation_complete_and_confined (hp : tree.resolves p = true) :
    (∀ q, tree.resolves q = true → (∀ name ∈ nameFields, Step.field name ∉ q) →
      ∃ directions, navigateAll directions tree p = .ok q) ∧
    ∀ directions, ∃ q, navigateAll directions tree p = .ok q ∧ tree.resolves q = true ∧
      ∀ name ∈ nameFields, ∀ i : Nat,
        q[i]? = some (.field name) → p[i]? = some (.field name) := by
  constructor
  · intro q hq hnames
    have hnameless : Nameless q := by
      intro step hstep
      rcases hfield : step.isFieldIn nameFields with - | -
      · rfl
      · obtain ⟨name, hname, rfl⟩ := Step.isFieldIn_iff.1 hfield
        exact absurd hstep (hnames name hname)
    exact (reaches_iff hp).2 ⟨hq, [], q, List.nil_prefix, rfl, hnameless⟩
  · intro directions
    obtain ⟨q, hq, hres, hshares⟩ := navigateAll_eq_ok hp directions
    exact ⟨q, hq, hres, fun name hname i => hshares.getElem? hname⟩

/-- In the object `{a: [1]}`, from its key to the end of the array. -/
theorem navigation_complete_and_confined_key :
    let tree := Node.object [.property (.string "a") (.array [.number "1"])]
    let key : Path := [.field "properties", .index 0, .field "key"]
    let last : Path :=
      [.field "properties", .index 0, .field "value", .field "elements", .afterLast]
    tree.resolves key = true ∧ (∃ directions, navigateAll directions tree key = .ok last) ∧
      ∃ q, navigateAll [.down, .right, .right] tree key = .ok q ∧ tree.resolves q = true := by
  intro tree key last
  have hkey : tree.resolves key = true := by decide
  obtain ⟨hcomplete, hconfined⟩ := navigation_complete_and_confined hkey
  refine ⟨hkey, hcomplete last (by decide) (by decide), ?_⟩
  obtain ⟨q, hq, hres, -⟩ := hconfined [.down, .right, .right]
  exact ⟨q, hq, hres⟩

end StructuralEditor.Document
