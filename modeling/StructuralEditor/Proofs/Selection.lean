/-
StructuralEditor/Proofs/Selection.lean

Valid selections, and why moving keeps them valid.

`Node.resolves` looks at a path from its end.  Proofs need it along the path,
so it is first restated for contents (`Content.Resolves`), where it can be cut
at any place: a selection below a place is a selection of what stands there
(`Resolves.append`, `Resolves.split`).

From the cut follows the shape of a valid selection.  A list is always owned
by a group and reached by that group's field (`owner_of_items`), and after a
field of a list comes a position of that list or the place after its last item
(`list_at_field`).  The second fact is what every operation relies on that looks
for the innermost list of a selection and reads the next step without checking
it (`innermost_list`); for a sideways move it means that the one failure it has
cannot happen.
-/
import StructuralEditor.Document.Navigation
import StructuralEditor.Proofs.Store

namespace StructuralEditor.Document

/-! ### The place after the last item -/

namespace Path

@[simp] theorem isAfterLast_snoc (p : Path) (step : Step) :
    isAfterLast (p ++ [step]) = (step == .afterLast) := by
  simp [isAfterLast]

@[simp] theorem isAfterLast_nil : isAfterLast [] = false := rfl

theorem isAfterLast_iff {p : Path} : p.isAfterLast = true ↔ ∃ q, p = q ++ [Step.afterLast] := by
  constructor
  · intro h
    obtain ⟨q, hq⟩ := List.getLast?_eq_some_iff.1 (eq_of_beq h)
    exact ⟨q, hq⟩
  · rintro ⟨q, rfl⟩
    simp

end Path

theorem Step.isFieldIn_iff {names : List String} {step : Step} :
    step.isFieldIn names = true ↔ ∃ name ∈ names, step = .field name := by
  cases step <;> simp [Step.isFieldIn]

/-! ### Selections below a content -/

namespace Content

/-- Whether a path is a valid selection below a content. -/
def Resolves (c : Content) (p : Path) : Prop :=
  (∃ n, c.get? p = some (.node n)) ∨
    ∃ list ns, p = list ++ [.afterLast] ∧ c.get? list = some (.items ns)

@[simp] theorem resolves_nil {c : Content} : c.Resolves [] ↔ ∃ n, c = .node n := by
  simp [Resolves]

/-- A selection of what stands at a place is a selection below the whole. -/
theorem Resolves.append {c d : Content} {p q : Path} (h : d.Resolves q) (hget : c.get? p = some d) :
    c.Resolves (p ++ q) := by
  rcases h with ⟨n, hn⟩ | ⟨list, ns, rfl, hns⟩
  · exact .inl ⟨n, by rw [get?_append, hget, Option.bind_some, hn]⟩
  · refine .inr ⟨p ++ list, ns, by rw [List.append_assoc], ?_⟩
    rw [get?_append, hget, Option.bind_some, hns]

/-- A selection that goes on after a place is a selection of what stands
there. -/
theorem Resolves.split {c : Content} {p q : Path} (h : c.Resolves (p ++ q)) (hq : q ≠ []) :
    ∃ d, c.get? p = some d ∧ d.Resolves q := by
  rcases h with ⟨n, hn⟩ | ⟨list, ns, heq, hns⟩
  · rw [get?_append] at hn
    obtain ⟨d, hd, hn⟩ := Option.bind_eq_some_iff.1 hn
    exact ⟨d, hd, .inl ⟨n, hn⟩⟩
  · -- the place after the last item is in the second part, so its list is too
    obtain ⟨r, step, rfl⟩ : ∃ r step, q = r ++ [step] :=
      ⟨q.dropLast, q.getLast hq, (List.dropLast_concat_getLast hq).symm⟩
    rw [← List.append_assoc] at heq
    obtain ⟨rfl, hstep⟩ := List.append_inj' heq rfl
    obtain rfl := (List.cons.inj hstep).1
    rw [get?_append] at hns
    obtain ⟨d, hd, hns⟩ := Option.bind_eq_some_iff.1 hns
    exact ⟨d, hd, .inr ⟨r, ns, rfl, hns⟩⟩

theorem resolves_append_iff {c d : Content} {p q : Path} (hget : c.get? p = some d) (hq : q ≠ []) :
    c.Resolves (p ++ q) ↔ d.Resolves q := by
  constructor
  · intro h
    obtain ⟨e, he, hres⟩ := h.split hq
    obtain rfl := Option.some.inj (hget.symm.trans he)
    exact hres
  · intro h
    exact h.append hget

/-- A selection that takes a step is a selection of the child there; only the
place after the last item of a list has nothing below it. -/
theorem Resolves.cons {c : Content} {step : Step} {p : Path} (h : c.Resolves (step :: p)) :
    (∃ d, c.child? step = some d ∧ d.Resolves p) ∨
      (step = .afterLast ∧ p = [] ∧ c.sort = .items) := by
  -- with something after the step, the cut is behind it; else the step is the last one
  by_cases hp : p = []
  · subst hp
    rcases h with ⟨n, hn⟩ | ⟨list, ns, heq, hns⟩
    · rw [get?_cons] at hn
      obtain ⟨d, hd, hget⟩ := Option.bind_eq_some_iff.1 hn
      exact .inl ⟨d, hd, .inl ⟨n, hget⟩⟩
    · have heq : [] ++ [step] = list ++ [Step.afterLast] := heq
      obtain ⟨rfl, hstep⟩ := List.append_inj' heq rfl
      obtain rfl := Option.some.inj hns
      exact .inr ⟨(List.cons.inj hstep).1, rfl, rfl⟩
  · obtain ⟨d, hd, hres⟩ := Resolves.split (p := [step]) h hp
    rw [get?_cons] at hd
    obtain ⟨e, he, hget⟩ := Option.bind_eq_some_iff.1 hd
    obtain rfl := Option.some.inj hget
    exact .inl ⟨e, he, hres⟩

/-- A selection of a list is the place after the last item, or an item or
something below one. -/
theorem Resolves.of_items {ns : List Node} {p : Path} (h : (Content.items ns).Resolves p) :
    p = [.afterLast] ∨
      ∃ i n below, p = .index i :: below ∧ ns[i]? = some n ∧
        (Content.node n).Resolves below := by
  cases p with
  | nil => simp at h
  | cons step below =>
    rcases h.cons with ⟨d, hd, hres⟩ | ⟨rfl, rfl, -⟩
    · cases step with
      | field name => simp [child?] at hd
      | afterLast => simp at hd
      | index i =>
        obtain ⟨ms, n, hms, hn, rfl⟩ := child?_eq_some_index hd
        obtain rfl := Content.items.inj hms
        exact .inr ⟨i, n, below, rfl, hn, hres⟩
    · exact .inl rfl

/-- The places of a list are selections. -/
theorem resolves_afterLast (ns : List Node) : (Content.items ns).Resolves [.afterLast] :=
  .inr ⟨[], ns, rfl, rfl⟩

theorem resolves_index {ns : List Node} {i : Nat} {n : Node} {below : Path} (hi : ns[i]? = some n)
    (h : (Content.node n).Resolves below) : (Content.items ns).Resolves (.index i :: below) :=
  h.append (p := [.index i]) (by simp [get?_cons, child?, hi])

end Content

/-! ### Selections of a document -/

section

variable {tree : Node} {p q list : Path}

theorem Node.resolves_iff : tree.resolves p = true ↔ (Content.node tree).Resolves p := by
  rcases hlast : p.isAfterLast with - | -
  · simp only [Node.resolves, hlast, Bool.false_eq_true, if_false, Option.isSome_iff_exists,
      Node.nodeAt?_eq_some, Content.Resolves]
    constructor
    · exact .inl
    · rintro (h | ⟨list, ns, rfl, -⟩)
      · exact h
      · simp at hlast
  · obtain ⟨q, rfl⟩ := Path.isAfterLast_iff.1 hlast
    simp only [Node.resolves, hlast, if_true, Option.isSome_iff_exists, List.dropLast_concat,
      Node.itemsAt?_eq_some, Content.Resolves]
    constructor
    · rintro ⟨ns, hns⟩
      exact .inr ⟨q, ns, rfl, hns⟩
    · rintro (⟨n, hn⟩ | ⟨list, ns, heq, hns⟩)
      · rw [Content.get?_snoc] at hn
        obtain ⟨d, -, hd⟩ := Option.bind_eq_some_iff.1 hn
        simp at hd
      · obtain ⟨rfl, -⟩ := List.append_inj' heq rfl
        exact ⟨ns, hns⟩

theorem Node.resolves_append {c : Content} (hget : tree.get? p = some c) (h : c.Resolves q) :
    tree.resolves (p ++ q) = true :=
  Node.resolves_iff.2 (h.append hget)

/-- What goes on after a node is a selection if it is one of the node. -/
theorem Node.resolves_below {n : Node} (h : tree.nodeAt? p = some n) :
    tree.resolves (p ++ q) = true ↔ (Content.node n).Resolves q := by
  have hget := Node.nodeAt?_eq_some.1 h
  by_cases hq : q = []
  · subst hq
    rw [Node.resolves_iff, List.append_nil]
    exact ⟨fun _ => by simp, fun _ => .inl ⟨n, hget⟩⟩
  · rw [Node.resolves_iff]
    exact Content.resolves_append_iff hget hq

theorem Node.resolves_of_nodeAt? {n : Node} (h : tree.nodeAt? p = some n) :
    tree.resolves p = true :=
  Node.resolves_iff.2 (.inl ⟨n, Node.nodeAt?_eq_some.1 h⟩)

@[simp] theorem Node.resolves_nil : tree.resolves [] = true := rfl

/-- The places of a list in a document are selections. -/
theorem Node.resolves_afterLast {ns : List Node} (h : tree.itemsAt? list = some ns) :
    tree.resolves (list ++ [Step.afterLast]) = true :=
  Node.resolves_append (Node.itemsAt?_eq_some.1 h) (Content.resolves_afterLast ns)

theorem Node.resolves_index {ns : List Node} {i : Nat} (h : tree.itemsAt? list = some ns)
    (hi : i < ns.length) : tree.resolves (list ++ [Step.index i]) = true :=
  Node.resolves_append (Node.itemsAt?_eq_some.1 h)
    (Content.resolves_index (List.getElem?_eq_getElem hi) (by simp))

/-- No node stands after the last item of a list. -/
theorem Node.isAfterLast_of_nodeAt? {n : Node} (h : tree.nodeAt? p = some n) :
    p.isAfterLast = false := by
  rcases hlast : p.isAfterLast with - | -
  · rfl
  · obtain ⟨q, rfl⟩ := Path.isAfterLast_iff.1 hlast
    rw [Node.nodeAt?_eq_some, Node.get?_append] at h
    simp at h

/-- A selection leads to a node or to nothing. -/
theorem Node.get?_of_resolves (h : tree.resolves p = true) :
    tree.get? p = none ∨ ∃ n, tree.get? p = some (.node n) := by
  rcases Node.resolves_iff.1 h with ⟨n, hn⟩ | ⟨list, ns, rfl, hns⟩
  · exact .inr ⟨n, hn⟩
  · refine .inl ?_
    rw [Node.get?_append, Node.get?, hns]
    rfl

/-! ### The shape of a selection -/

/-- A field for a list belongs to a group and holds that group's items. -/
theorem Node.field?_of_sibling {n : Node} {name : String} {c : Content}
    (h : n.field? name = some c) (hname : name ∈ siblingFields) :
    ∃ kind ns, n = .group kind ns ∧ name = kind.field ∧ c = .items ns := by
  obtain ⟨n', hrewrites⟩ := Node.Rewrites.of_field? h (rfl : c.sort = c.sort)
  -- of all slots, only the items of a group have such a name
  cases hrewrites with
  | value a b => simp [siblingFields] at hname
  | text kind s t => cases kind <;> simp [siblingFields, LeafKind.field] at hname
  | first kind a b m => cases kind <;> simp [siblingFields, PairKind.firstField] at hname
  | second kind a b m => cases kind <;> simp [siblingFields, PairKind.secondField] at hname
  | items kind ns ms => exact ⟨kind, ns, rfl, rfl, rfl⟩
  | keyword s t ns => simp [siblingFields, keywordField] at hname

/-- A list is what the field of a group holds. -/
theorem Node.field?_items {n : Node} {name : String} {ns : List Node}
    (h : n.field? name = some (.items ns)) : ∃ kind, n = .group kind ns ∧ name = kind.field := by
  obtain ⟨n', hrewrites⟩ := Node.Rewrites.of_field? h (rfl : (Content.items ns).sort = _)
  cases hrewrites with
  | items kind ns ms => exact ⟨kind, rfl, rfl⟩

/-- A list in a document has an owner: its path ends in the field of the group
whose items it is. -/
theorem owner_of_items {ns : List Node} (h : tree.itemsAt? list = some ns) :
    ∃ owner kind, list = owner ++ [Step.field kind.field] ∧
      tree.nodeAt? owner = some (.group kind ns) := by
  have hget := Node.itemsAt?_eq_some.1 h
  rcases List.eq_nil_or_concat list with rfl | ⟨owner, step, rfl⟩
  · simp [Node.get?] at hget
  · rw [List.concat_eq_append, Node.get?_append] at hget
    obtain ⟨c, hc, hstep⟩ := Option.bind_eq_some_iff.1 hget
    rw [Content.get?_cons] at hstep
    obtain ⟨d, hd, hstep⟩ := Option.bind_eq_some_iff.1 hstep
    obtain rfl := Option.some.inj hstep
    cases step with
    | field name =>
      obtain ⟨n, rfl, hn⟩ := Content.child?_eq_some_field hd
      obtain ⟨kind, rfl, rfl⟩ := Node.field?_items hn
      exact ⟨owner, kind, by simp, Node.nodeAt?_eq_some.2 hc⟩
    | index i =>
      obtain ⟨_, _, -, -, hnode⟩ := Content.child?_eq_some_index hd
      cases hnode
    | afterLast => simp at hd

/-- The last step of a selection goes to a node that is the field of another, or to
a place of a list. -/
theorem Node.resolves_snoc {step : Step} (h : tree.resolves (p ++ [step]) = true) :
    (∃ n name m, step = .field name ∧ tree.nodeAt? p = some n ∧
      n.field? name = some (.node m)) ∨
    ∃ owner kind ns, p = owner ++ [Step.field kind.field] ∧
      tree.nodeAt? owner = some (.group kind ns) ∧
      (step = .afterLast ∨ ∃ i < ns.length, step = .index i) := by
  obtain ⟨c, hc, hres⟩ := (Node.resolves_iff.1 h).split (List.cons_ne_nil _ _)
  rcases hres.cons with ⟨d, hd, hd'⟩ | ⟨rfl, -, hsort⟩
  · obtain ⟨m, rfl⟩ := Content.resolves_nil.1 hd'
    cases step with
    | field name =>
      obtain ⟨n, rfl, hn⟩ := Content.child?_eq_some_field hd
      exact .inl ⟨n, name, m, rfl, Node.nodeAt?_eq_some.2 hc, hn⟩
    | index i =>
      obtain ⟨ns, n, rfl, hn, -⟩ := Content.child?_eq_some_index hd
      obtain ⟨owner, kind, hp, howner⟩ := owner_of_items (Node.itemsAt?_eq_some.2 hc)
      exact .inr ⟨owner, kind, ns, hp, howner, .inr ⟨i, (List.getElem?_eq_some_iff.1 hn).1, rfl⟩⟩
    | afterLast => simp at hd
  · obtain ⟨ns, rfl⟩ := Content.eq_items_of_sort hsort
    obtain ⟨owner, kind, hp, howner⟩ := owner_of_items (Node.itemsAt?_eq_some.2 hc)
    exact .inr ⟨owner, kind, ns, hp, howner, .inl rfl⟩

/-- The items of a group stand in its field. -/
theorem Node.itemsAt?_of_group {owner : Path} {kind : GroupKind} {ns : List Node}
    (h : tree.nodeAt? owner = some (.group kind ns)) :
    tree.itemsAt? (owner ++ [Step.field kind.field]) = some ns := by
  rw [Node.itemsAt?_eq_some, Node.get?_append, Node.nodeAt?_eq_some.1 h]
  simp

/-- Writing the items of a group is writing the group. -/
theorem Node.put?_items {owner : Path} {kind : GroupKind} {ns : List Node}
    (h : tree.nodeAt? owner = some (.group kind ns)) (ms : List Node) :
    tree.put? (owner ++ [Step.field kind.field]) (.items ms) =
      tree.put? owner (.node (.group kind ms)) :=
  Node.put?_append (Node.nodeAt?_eq_some.1 h) (Content.put?_group_field kind ns ms)

/-- After a field of a list, a selection has a position of that list or ends in the place
after its last item. -/
theorem list_at_field {before after : Path} {name : String}
    (hres : tree.resolves (before ++ Step.field name :: after) = true)
    (hname : name ∈ siblingFields) :
    ∃ kind ns, name = kind.field ∧ tree.nodeAt? before = some (.group kind ns) ∧
      (after = [.afterLast] ∨ ∃ i n below, after = .index i :: below ∧ ns[i]? = some n ∧
        (Content.node n).Resolves below) := by
  obtain ⟨c, hc, hres⟩ := (Node.resolves_iff.1 hres).split (List.cons_ne_nil _ _)
  obtain ⟨d, hd, hres⟩ : ∃ d, c.child? (.field name) = some d ∧ d.Resolves after := by
    simpa using hres.cons
  obtain ⟨n, rfl, hfield⟩ := Content.child?_eq_some_field hd
  obtain ⟨kind, ns, rfl, rfl, rfl⟩ := Node.field?_of_sibling hfield hname
  exact ⟨kind, ns, rfl, Node.nodeAt?_eq_some.2 hc, hres.of_items⟩

/-- This holds at the last of these fields in particular. -/
theorem innermost_list {names : List String} {before after : Path} {step : Step}
    (hres : tree.resolves p = true) (hnames : names ⊆ siblingFields)
    (hsplit : p.splitAtLast (Step.isFieldIn names) = some (before, step, after)) :
    ∃ kind ns, step = .field kind.field ∧ tree.nodeAt? before = some (.group kind ns) ∧
      tree.itemsAt? (before ++ [step]) = some ns ∧
      (after = [.afterLast] ∨ ∃ i n below, after = .index i :: below ∧ ns[i]? = some n ∧
        (Content.node n).Resolves below) := by
  obtain ⟨rfl, hstep, -⟩ := Path.splitAtLast_eq_some hsplit
  obtain ⟨name, hname, rfl⟩ := Step.isFieldIn_iff.1 hstep
  obtain ⟨kind, ns, rfl, howner, hafter⟩ := list_at_field hres (hnames hname)
  exact ⟨kind, ns, rfl, howner, Node.itemsAt?_of_group howner, hafter⟩

/-- A position after the last field of a list is one of an item. -/
theorem innermost_item {names : List String} {before below : Path} {step : Step} {i : Nat}
    (hres : tree.resolves p = true) (hnames : names ⊆ siblingFields)
    (hsplit : p.splitAtLast (Step.isFieldIn names) = some (before, step, .index i :: below)) :
    ∃ kind ns n, step = .field kind.field ∧ tree.nodeAt? before = some (.group kind ns) ∧
      tree.itemsAt? (before ++ [step]) = some ns ∧ ns[i]? = some n ∧
      (Content.node n).Resolves below := by
  obtain ⟨kind, ns, rfl, howner, hitems, hafter⟩ := innermost_list hres hnames hsplit
  rcases hafter with heq | ⟨j, n, below', heq, hn, hbelow⟩
  · cases heq
  · obtain ⟨hij, rfl⟩ := List.cons.inj heq
    obtain rfl := Step.index.inj hij
    exact ⟨kind, ns, n, rfl, howner, hitems, hn, hbelow⟩

end

/-! ### Moves -/

section

variable {tree : Node} {selected : Path}

/-- The selection below a node is a selection. -/
theorem Node.resolves_entry (n : Node) : n.resolves n.entry = true := by
  cases n with
  | pair kind a b =>
    exact Node.resolves_of_nodeAt? (n := b)
      (Node.nodeAt?_eq_some.2 (by simp [Node.get?, Node.entry]))
  | group kind items =>
    have hitems : (Node.group kind items).itemsAt? [.field kind.field] = some items :=
      Node.itemsAt?_of_group (Node.nodeAt?_nil)
    cases items with
    | nil => exact Node.resolves_afterLast hitems
    | cons x xs => exact Node.resolves_index hitems (Nat.zero_lt_succ _)
  | _ => rfl

theorem resolves_moveDown (h : tree.resolves selected = true) :
    tree.resolves (moveDown tree selected) = true := by
  unfold moveDown
  split
  · exact h
  · split
    · next n hn =>
      exact Node.resolves_append (Node.nodeAt?_eq_some.1 hn) (Node.resolves_iff.1 n.resolves_entry)
    · exact h

/-- Going down from a node enters the node. -/
theorem moveDown_of_nodeAt? {n : Node} (h : tree.nodeAt? selected = some n) :
    moveDown tree selected = selected ++ n.entry := by
  rw [moveDown, Node.isAfterLast_of_nodeAt? h, h]
  rfl

/-- The owner of a list is what lies above its places. -/
theorem moveUp_place (owner : Path) (field place : Step)
    (hplace : ∀ name, place ≠ .field name) :
    moveUp (owner ++ [field] ++ [place]) = owner := by
  cases place with
  | field name => exact absurd rfl (hplace name)
  | index i => simp [moveUp]
  | afterLast => simp [moveUp]

theorem resolves_moveUp (h : tree.resolves selected = true) :
    tree.resolves (moveUp selected) = true := by
  rcases List.eq_nil_or_concat selected with rfl | ⟨p, step, rfl⟩
  · exact h
  · rw [List.concat_eq_append] at h ⊢
    -- what the last step is taken from says how far up to go
    rcases Node.resolves_snoc h with ⟨n, name, -, rfl, hn, -⟩ |
      ⟨owner, kind, ns, rfl, howner, hplace⟩
    · rw [show moveUp (p ++ [Step.field name]) = p by simp [moveUp]]
      exact Node.resolves_of_nodeAt? hn
    · rw [moveUp_place owner _ _ (by rcases hplace with rfl | ⟨i, -, rfl⟩ <;> simp)]
      exact Node.resolves_of_nodeAt? howner

/-- From a place of a list, a neighbour is a place of the same list. -/
def IsNeighbour (neighbour? : Nat → Step → Except EditError (Option Step)) : Prop :=
  ∀ size place, (place = .afterLast ∨ ∃ i < size, place = .index i) →
    ∃ next?, neighbour? size place = .ok next? ∧
      ∀ next, next? = some next → next = .afterLast ∨ ∃ i < size, next = .index i

theorem isNeighbour_placeLeft? : IsNeighbour placeLeft? := by
  rintro size place (rfl | ⟨i, hi, rfl⟩)
  · refine ⟨_, rfl, fun next hnext => .inr ⟨size - 1, ?_⟩⟩
    by_cases hsize : size = 0
    · simp [hsize] at hnext
    · simp only [hsize, if_false, Option.some.injEq] at hnext
      exact ⟨by omega, hnext.symm⟩
  · cases i with
    | zero => exact ⟨none, rfl, by simp⟩
    | succ i =>
      refine ⟨_, rfl, fun next hnext => .inr ⟨i, by omega, ?_⟩⟩
      simpa [show i < size by omega] using hnext.symm

theorem isNeighbour_placeRight? : IsNeighbour placeRight? := by
  rintro size place (rfl | ⟨i, hi, rfl⟩)
  · exact ⟨none, rfl, by simp⟩
  · refine ⟨_, rfl, fun next hnext => ?_⟩
    obtain rfl := Option.some.inj hnext
    unfold stepRight
    split
    · next hlt => exact .inr ⟨i + 1, hlt, rfl⟩
    · exact .inl rfl

/-- A sideways move from a valid selection does not fail, and its target is
valid. -/
theorem moveSideways_eq_ok {neighbour? : Nat → Step → Except EditError (Option Step)}
    (hneighbour : IsNeighbour neighbour?) (h : tree.resolves selected = true) :
    ∃ target, moveSideways neighbour? tree selected = .ok target ∧
      tree.resolves target = true := by
  unfold moveSideways
  split
  · next before list place below hsplit =>
    obtain ⟨kind, ns, rfl, -, hitems, hafter⟩ := innermost_list h (fun _ => id) hsplit
    -- the step after the list is a place of it, so the neighbour is defined
    have hplace : place = .afterLast ∨ ∃ i < ns.length, place = .index i := by
      rcases hafter with heq | ⟨i, n, _, heq, hn, -⟩
      · exact .inl (List.cons.inj heq).1
      · exact .inr ⟨i, (List.getElem?_eq_some_iff.1 hn).1, (List.cons.inj heq).1⟩
    obtain ⟨next?, hnext?, hnext⟩ := hneighbour ns.length place hplace
    simp only [hitems, hnext?, Except.map]
    cases next? with
    | none => exact ⟨selected, rfl, h⟩
    | some next =>
      refine ⟨before ++ [Step.field kind.field] ++ [next], by simp, ?_⟩
      rcases hnext next rfl with rfl | ⟨i, hi, rfl⟩
      · exact Node.resolves_afterLast hitems
      · exact Node.resolves_index hitems hi
  · exact ⟨selected, rfl, h⟩

/-- **Moving keeps the selection valid**: from a valid selection no move
fails, and every move leads to a valid selection. -/
theorem navigate_eq_ok (direction : Direction) (h : tree.resolves selected = true) :
    ∃ target, navigate direction tree selected = .ok target ∧ tree.resolves target = true := by
  cases direction with
  | up => exact ⟨_, rfl, resolves_moveUp h⟩
  | down => exact ⟨_, rfl, resolves_moveDown h⟩
  | left => exact moveSideways_eq_ok isNeighbour_placeLeft? h
  | right => exact moveSideways_eq_ok isNeighbour_placeRight? h

end

end StructuralEditor.Document
