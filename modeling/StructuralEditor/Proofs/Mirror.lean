/-
StructuralEditor/Proofs/Mirror.lean

The two directions of a move are mirror images.

The mirror image of a document has the items of every list in reverse order, and the
mirror image of a path leads to the same place in it.  Reading and writing by path go
through the mirror (`Content.get?_mirrored`, `Content.put?_mirrored`), and so do gaps,
excerpts and steps of gaps: the image of a step up is a step down
(`Excerpt.Shifts.mirrored`), since the numbers that the two directions differ in are
mirror images in lists of the same length (`sub_beyond`, `sub_edge`).

So a move that applies has a move the other way as its image.  That one that declines
has one that declines needs no further argument: were it to apply, the image of the
image would, too, and that is the move itself (`Snapshot.mirrored_mirrored`).
-/
import StructuralEditor.Proofs.Gaps

namespace StructuralEditor

namespace Document

/-! ### Mirror images -/

mutual

/-- The mirror image of a node: all lists in it are in reverse order. -/
def Node.mirrored : Node → Node
  | .null => .null
  | .boolean value => .boolean value
  | .leaf kind text => .leaf kind text
  | .pair kind a b => .pair kind a.mirrored b.mirrored
  | .group kind ns => .group kind (Node.mirroredAll ns)

/-- The mirror image of a list. -/
def Node.mirroredAll : List Node → List Node
  | [] => []
  | n :: ns => Node.mirroredAll ns ++ [n.mirrored]

end

/-- The mirror image of a content. -/
def Content.mirrored : Content → Content
  | .node n => .node n.mirrored
  | .items ns => .items (Node.mirroredAll ns)
  | .text s => .text s
  | .flag b => .flag b

/-- The mirror image of a step from a content: positions are counted from the end. -/
def Content.mirroredStep : Content → Step → Step
  | .items ns, .index i => .index (ns.length - 1 - i)
  | _, step => step

/-- The mirror image of a path from a content. -/
def Content.mirroredPath (c : Content) : Path → Path
  | [] => []
  | step :: p => c.mirroredStep step ::
      match c.child? step with
      | some d => d.mirroredPath p
      | none => p

/-- The mirror image of a path in a document. -/
def Node.mirroredPath (tree : Node) (p : Path) : Path :=
  (Content.node tree).mirroredPath p

/-- The mirror image of a snapshot. -/
def Snapshot.mirrored (s : Snapshot) : Snapshot :=
  ⟨s.tree.mirrored, s.tree.mirroredPath s.selected⟩

/-! #### Lists -/

namespace Node

theorem mirroredAll_eq (ns : List Node) : mirroredAll ns = (ns.map mirrored).reverse := by
  induction ns with
  | nil => rfl
  | cons n ns ih => rw [mirroredAll, ih, List.map_cons, List.reverse_cons]

@[simp] theorem length_mirroredAll (ns : List Node) : (mirroredAll ns).length = ns.length := by
  simp [mirroredAll_eq]

theorem mirroredAll_append (ns ms : List Node) :
    mirroredAll (ns ++ ms) = mirroredAll ms ++ mirroredAll ns := by
  simp [mirroredAll_eq]

section

variable {ns : List Node} {i : Nat} {n : Node}

theorem getElem?_mirroredAll (hi : ns[i]? = some n) :
    (mirroredAll ns)[ns.length - 1 - i]? = some n.mirrored := by
  obtain ⟨hlt, -⟩ := List.getElem?_eq_some_iff.1 hi
  have hback : ns.length - 1 - (ns.length - 1 - i) = i := by omega
  rw [mirroredAll_eq, List.getElem?_reverse (by rw [List.length_map]; omega), List.length_map,
    hback, List.getElem?_map, hi]
  rfl

theorem mirroredAll_insertItem (ns : List Node) (i : Nat) (x : Node) :
    mirroredAll (insertItem ns i x) =
      insertItem (mirroredAll ns) (ns.length - i) x.mirrored := by
  have hsplit : mirroredAll ns = mirroredAll (ns.drop i) ++ mirroredAll (ns.take i) := by
    rw [← mirroredAll_append, List.take_append_drop]
  have hlength : ns.length - i = (mirroredAll (ns.drop i)).length := by simp
  rw [hsplit, hlength, insertItem_append, insertItem, mirroredAll_append, mirroredAll,
    List.append_assoc, List.singleton_append]

theorem mirroredAll_set (hi : ns[i]? = some n) (m : Node) :
    mirroredAll (ns.set i m) = (mirroredAll ns).set (ns.length - 1 - i) m.mirrored := by
  obtain ⟨before, after, rfl, rfl⟩ := exists_split hi
  have hmirrored : ∀ k : Node, mirroredAll (before ++ k :: after) =
      mirroredAll after ++ k.mirrored :: mirroredAll before := by
    intro k
    rw [mirroredAll_append, mirroredAll, List.append_assoc, List.singleton_append]
  have hlength : (before ++ n :: after).length - 1 - before.length =
      (mirroredAll after).length := by
    rw [List.length_append, List.length_cons, length_mirroredAll]
    omega
  rw [hlength, List.set_append_right _ _ (Nat.le_refl _), Nat.sub_self, List.set_cons_zero,
    hmirrored m, hmirrored n, List.set_append_right _ _ (Nat.le_refl _), Nat.sub_self,
    List.set_cons_zero]

end

mutual

@[simp] theorem mirrored_mirrored : ∀ n : Node, n.mirrored.mirrored = n
  | .null => rfl
  | .boolean value => rfl
  | .leaf kind text => rfl
  | .pair kind a b => by rw [mirrored, mirrored, mirrored_mirrored a, mirrored_mirrored b]
  | .group kind ns => by rw [mirrored, mirrored, mirroredAll_mirroredAll ns]

theorem mirroredAll_mirroredAll : ∀ ns : List Node, mirroredAll (mirroredAll ns) = ns
  | [] => rfl
  | n :: ns => by
    rw [mirroredAll, mirroredAll_append, mirroredAll_mirroredAll ns, mirroredAll, mirroredAll,
      mirrored_mirrored n]
    rfl

end

/-- The mirror image of a rewritten node. -/
theorem Rewrites.mirrored {n n' : Node} {name : String} {old new : Content}
    (h : Rewrites n name old new n') :
    Rewrites n.mirrored name old.mirrored new.mirrored n'.mirrored := by
  cases h <;> constructor

end Node

/-! #### Paths -/

namespace Content

variable {c c' d old new : Content} {step : Step} {p q : Path}

theorem child?_mirrored (h : c.child? step = some d) :
    c.mirrored.child? (c.mirroredStep step) = some d.mirrored := by
  cases step with
  | field name =>
    obtain ⟨n, rfl, hn⟩ := child?_eq_some_field h
    obtain ⟨n', hrewrites⟩ := Node.Rewrites.of_field? hn (rfl : d.sort = d.sort)
    exact hrewrites.mirrored.field?
  | index i =>
    obtain ⟨ns, n, rfl, hn, rfl⟩ := child?_eq_some_index h
    have hmirrored := Node.getElem?_mirroredAll hn
    exact Option.map_eq_some_iff.2 ⟨_, hmirrored, rfl⟩
  | afterLast => simp at h

theorem withChild?_mirrored (hold : c.child? step = some old)
    (h : c.withChild? step new = some c') :
    c.mirrored.withChild? (c.mirroredStep step) new.mirrored = some c'.mirrored := by
  cases step with
  | field name =>
    obtain ⟨n, rfl, -⟩ := child?_eq_some_field hold
    obtain ⟨n', hn', rfl⟩ := Option.map_eq_some_iff.1 h
    obtain ⟨old', hrewrites⟩ := Node.Rewrites.of_withField? hn'
    exact Option.map_eq_some_iff.2 ⟨_, hrewrites.mirrored.withField?, rfl⟩
  | index i =>
    obtain ⟨ns, n, rfl, hn, rfl⟩ := child?_eq_some_index hold
    obtain ⟨ms, m, heq, rfl, rfl⟩ := withChild?_eq_some_index h
    obtain rfl := Content.items.inj heq
    obtain ⟨hlt, -⟩ := List.getElem?_eq_some_iff.1 (Node.getElem?_mirroredAll hn)
    rw [mirrored, mirrored, mirrored, mirroredStep, Node.mirroredAll_set hn]
    exact if_pos hlt
  | afterLast => simp at hold

theorem get?_mirrored (h : c.get? p = some d) :
    c.mirrored.get? (c.mirroredPath p) = some d.mirrored := by
  induction p generalizing c with
  | nil =>
    obtain rfl := Option.some.inj h
    rfl
  | cons step p ih =>
    obtain ⟨e, he, hd⟩ := Option.bind_eq_some_iff.1 h
    rw [mirroredPath, he, get?_cons, child?_mirrored he]
    exact ih hd

theorem put?_mirrored (h : c.put? p new = some c') :
    c.mirrored.put? (c.mirroredPath p) new.mirrored = some c'.mirrored := by
  induction p generalizing c c' with
  | nil =>
    obtain rfl := Option.some.inj h
    rfl
  | cons step p ih =>
    obtain ⟨old, rebuilt, hold, hput, hwith⟩ := put?_cons_eq_some.1 h
    rw [mirroredPath, hold]
    exact put?_cons_eq_some.2 ⟨_, _, child?_mirrored hold, ih hput, withChild?_mirrored hold hwith⟩

@[simp] theorem mirroredPath_singleton (c : Content) (step : Step) :
    c.mirroredPath [step] = [c.mirroredStep step] := by
  rw [mirroredPath]
  split <;> rfl

theorem mirroredPath_append (h : c.get? p = some d) (q : Path) :
    c.mirroredPath (p ++ q) = c.mirroredPath p ++ d.mirroredPath q := by
  induction p generalizing c with
  | nil =>
    obtain rfl := Option.some.inj h
    rfl
  | cons step p ih =>
    obtain ⟨e, he, hd⟩ := Option.bind_eq_some_iff.1 h
    rw [List.cons_append, mirroredPath, mirroredPath, he, List.cons_append]
    exact congrArg _ (ih hd)

/-- A write at the end of a path keeps the lists on the way as long as they are. -/
theorem mirroredPath_put? (h : c.put? p new = some c') : c'.mirroredPath p = c.mirroredPath p := by
  induction p generalizing c c' with
  | nil => rfl
  | cons step p ih =>
    obtain ⟨old, rebuilt, hold, hput, hwith⟩ := put?_cons_eq_some.1 h
    have hstep : c'.mirroredStep step = c.mirroredStep step := by
      cases step with
      | index i =>
        obtain ⟨ns, m, rfl, -, rfl⟩ := withChild?_eq_some_index hwith
        rw [mirroredStep, mirroredStep, List.length_set]
      | _ => simp [mirroredStep]
    rw [mirroredPath, mirroredPath, hold, child?_withChild? hwith, hstep]
    exact congrArg _ (ih hput)

/-- The mirror image of a path runs through the same fields, … -/
theorem isFieldIn_mirroredPath {names : List String}
    (h : ∀ step ∈ p, step.isFieldIn names = false) :
    ∀ step ∈ c.mirroredPath p, step.isFieldIn names = false := by
  induction p generalizing c with
  | nil => exact h
  | cons step p ih =>
    obtain ⟨hstep, hp⟩ := List.forall_mem_cons.1 h
    rw [mirroredPath]
    refine List.forall_mem_cons.2 ⟨?_, ?_⟩
    · unfold mirroredStep
      split
      · rfl
      · exact hstep
    · split
      · exact ih hp
      · exact hp

/-- … and the mirror image of the mirror image is the path. -/
theorem mirroredPath_mirroredPath (h : c.Resolves p) :
    c.mirrored.mirroredPath (c.mirroredPath p) = p := by
  induction p generalizing c with
  | nil => rfl
  | cons step p ih =>
    rcases h.cons with ⟨d, hd, hres⟩ | ⟨rfl, rfl, -⟩
    · have hstep : c.mirrored.mirroredStep (c.mirroredStep step) = step := by
        cases step with
        | index i =>
          obtain ⟨ns, n, rfl, hn, rfl⟩ := child?_eq_some_index hd
          obtain ⟨hlt, -⟩ := List.getElem?_eq_some_iff.1 hn
          simp only [mirrored, mirroredStep, Node.length_mirroredAll, Step.index.injEq]
          omega
        | _ => simp [mirroredStep]
      rw [mirroredPath, mirroredPath, hd, child?_mirrored hd, hstep]
      exact congrArg _ (ih hres)
    · simp [mirroredPath, mirroredStep]

end Content

namespace Node

variable {tree tree' : Node} {p owner : Path} {ns : List Node}

theorem nodeAt?_mirrored {n : Node} (h : tree.nodeAt? p = some n) :
    tree.mirrored.nodeAt? (tree.mirroredPath p) = some n.mirrored :=
  nodeAt?_eq_some.2 (Content.get?_mirrored (nodeAt?_eq_some.1 h))

theorem itemsAt?_mirrored (h : tree.itemsAt? p = some ns) :
    tree.mirrored.itemsAt? (tree.mirroredPath p) = some (mirroredAll ns) :=
  itemsAt?_eq_some.2 (Content.get?_mirrored (itemsAt?_eq_some.1 h))

theorem put?_mirrored {new : Content} (h : tree.put? p new = some tree') :
    tree.mirrored.put? (tree.mirroredPath p) new.mirrored = some tree'.mirrored :=
  put?_eq_some.2 (Content.put?_mirrored (put?_eq_some.1 h))

/-- The path of an item, in the mirror. -/
theorem mirroredPath_index (h : tree.itemsAt? p = some ns) (i : Nat) :
    tree.mirroredPath (p ++ [Step.index i]) =
      tree.mirroredPath p ++ [Step.index (ns.length - 1 - i)] := by
  rw [mirroredPath, Content.mirroredPath_append (itemsAt?_eq_some.1 h),
    Content.mirroredPath_singleton]
  rfl

/-- The path of a list, in the mirror. -/
theorem mirroredPath_group {kind : GroupKind} (h : tree.nodeAt? owner = some (.group kind ns)) :
    tree.mirroredPath (owner ++ [Step.field kind.field]) =
      tree.mirroredPath owner ++ [Step.field kind.field] := by
  rw [mirroredPath, Content.mirroredPath_append (nodeAt?_eq_some.1 h),
    Content.mirroredPath_singleton]
  rfl

/-- The path of the list in a property, in the mirror. -/
theorem mirroredPath_nested {i : Nat} {key : Node} {inner : GroupKind} {items : List Node}
    (h : tree.itemsAt? p = some ns) (hi : ns[i]? = some (.property key (.group inner items))) :
    tree.mirroredPath (p ++ Content.nestedItems i .property inner) =
      tree.mirroredPath p ++ Content.nestedItems (ns.length - 1 - i) .property inner := by
  rw [mirroredPath, Content.mirroredPath_append (itemsAt?_eq_some.1 h)]
  simp [Content.nestedItems, Content.mirroredPath, Content.mirroredStep, mirroredPath, hi]

end Node

/-- Of a valid selection, the mirror image of the mirror image is the selection. -/
theorem Snapshot.mirrored_mirrored {s : Snapshot} (hs : s.resolves = true) :
    s.mirrored.mirrored = s := by
  have hpath := Content.mirroredPath_mirroredPath (Node.resolves_iff.1 hs)
  rw [mirrored, Snapshot.mk.injEq]
  exact ⟨s.tree.mirrored_mirrored, hpath⟩

end Document

namespace Editing

open Document Document.Node

/-! ### Gaps in the mirror -/

/-- A gap that has passed an item has it in front, in the mirror. -/
theorem sub_beyond (direction : Vertical) {size k : Nat} (hk : k < size) :
    size - direction.beyond k = direction.opposite.beyond (size - 1 - k) := by
  cases direction <;> simp only [Vertical.beyond, Vertical.opposite] <;> omega

/-- A gap at one edge is at the other one, in the mirror. -/
theorem sub_edge (direction : Vertical) (size : Nat) :
    size - direction.edge size = direction.opposite.edge size := by
  cases direction <;> simp [Vertical.edge, Vertical.opposite]

@[simp] theorem isProperty_mirrored (n : Node) : n.mirrored.isProperty = n.isProperty := by
  cases n with
  | pair kind a b => cases kind <;> rfl
  | _ => rfl

theorem nestedProperties?_mirrored (n : Node) :
    nestedProperties? n.mirrored = (nestedProperties? n).map mirroredAll := by
  cases n with
  | pair kind a b =>
    cases kind with
    | property =>
      cases b with
      | group inner ns => cases inner <;> rfl
      | _ => rfl
    | declarator => rfl
  | _ => rfl

/-- The mirror image of an excerpt. -/
def Excerpt.mirrored (x : Excerpt) : Excerpt :=
  ⟨x.rest.mirrored, x.item.mirrored, x.item.mirroredPath x.below⟩

/-- The mirror image of a gap in the rest of a document. -/
def Gap.mirrored (g : Gap) (rest : Node) : Gap :=
  ⟨rest.mirroredPath g.list, ((rest.itemsAt? g.list).getD []).length - g.position⟩

/-- The mirror image of what a move does: it goes the other way. -/
def Effect.mirrored : Effect → Effect
  | .swapped direction => .swapped direction.opposite
  | effect => effect

@[simp] theorem Effect.details_mirrored (effect : Effect) :
    effect.mirrored.details = effect.details := by
  cases effect <;> rfl

section

variable {x : Excerpt} {g g' : Gap} {s : Snapshot} {rest item tree : Node} {ns : List Node}

theorem Gap.mirrored_of_items (hlist : rest.itemsAt? g.list = some ns) :
    g.mirrored rest = ⟨rest.mirroredPath g.list, ns.length - g.position⟩ := by
  rw [Gap.mirrored, hlist]
  rfl

theorem Gap.Fills.mirrored (h : g.Fills rest item tree) :
    (g.mirrored rest).Fills rest.mirrored item.mirrored tree.mirrored := by
  obtain ⟨hlist, hle, hput⟩ := h
  rw [Gap.mirrored_of_items hlist]
  refine ⟨itemsAt?_mirrored hlist, by simp, ?_⟩
  rw [← mirroredAll_insertItem]
  exact put?_mirrored hput

/-- The mirror image of a path that leads to an item or below it. -/
theorem Gap.Fills.mirroredPath (h : g.Fills rest item tree) (below : Path) :
    tree.mirroredPath (g.path ++ below) =
      (g.mirrored rest).path ++ item.mirroredPath below := by
  have ⟨hlist, hle, hput⟩ := h
  -- the lists on the way are as long without the item
  have hway : tree.mirroredPath g.list = rest.mirroredPath g.list :=
    Content.mirroredPath_put? (put?_eq_some.1 hput)
  have hposition := mirroredPath_index (h.itemsAt? hlist) g.position
  rw [length_insertItem, Nat.add_sub_cancel, hway] at hposition
  rw [Node.mirroredPath, Content.mirroredPath_append (nodeAt?_eq_some.1 h.nodeAt?),
    Gap.mirrored_of_items hlist]
  exact congrArg (· ++ _) hposition

theorem Excerpt.Makes.mirrored (h : x.Makes g s) :
    x.mirrored.Makes (g.mirrored x.rest) s.mirrored := by
  refine ⟨h.fills.mirrored, ?_, ?_, Content.isFieldIn_mirroredPath h.below⟩
  · rw [Snapshot.mirrored, h.selected]
    exact h.fills.mirroredPath x.below
  · obtain ⟨hlist, -, -⟩ := h.fills
    obtain ⟨owner, kind, hpath, howner⟩ := owner_of_items hlist
    obtain ⟨owner', field, hpath', hfield⟩ := h.isEditable
    obtain ⟨-, hlast⟩ := List.append_inj' (hpath'.symm.trans hpath) rfl
    obtain rfl := List.singleton_inj.1 hlast
    refine ⟨x.rest.mirroredPath owner, .field kind.field, ?_, hfield⟩
    rw [Gap.mirrored, hpath]
    exact mirroredPath_group howner

/-- **The mirror image of a step is a step the other way.** -/
theorem Excerpt.Shifts.mirrored {direction : Vertical} {effect : Effect}
    (h : x.Shifts direction g effect g') :
    x.mirrored.Shifts direction.opposite (g.mirrored x.rest) effect.mirrored
      (g'.mirrored x.rest) := by
  cases h with
  | @swapped list ns k neighbour hlist hk hplain =>
    obtain ⟨hlt, -⟩ := List.getElem?_eq_some_iff.1 hk
    rw [Gap.mirrored_of_items hlist, Gap.mirrored_of_items hlist, sub_beyond _ hlt,
      sub_beyond _ hlt]
    refine .swapped (itemsAt?_mirrored hlist) (getElem?_mirroredAll hk) fun hproperty => ?_
    rw [nestedProperties?_mirrored, hplain ((isProperty_mirrored _).symm.trans hproperty)]
    rfl
  | @entered list ns k key properties hlist hk hproperty =>
    obtain ⟨hlt, -⟩ := List.getElem?_eq_some_iff.1 hk
    rw [Gap.mirrored_of_items hlist, Gap.mirrored_of_items (itemsAt?_nested hlist hk),
      sub_beyond _ hlt, sub_edge, mirroredPath_nested hlist hk, ← length_mirroredAll properties]
    exact .entered (itemsAt?_mirrored hlist) (getElem?_mirroredAll hk)
      ((isProperty_mirrored _).trans hproperty)
  | @exited owner ns k key inner items howner hk hproperty =>
    obtain ⟨hlt, -⟩ := List.getElem?_eq_some_iff.1 hk
    have hlist := itemsAt?_of_group howner
    rw [Gap.mirrored_of_items (itemsAt?_nested hlist hk), Gap.mirrored_of_items hlist,
      sub_beyond _ hlt, sub_edge, mirroredPath_nested hlist hk, mirroredPath_group howner,
      ← length_mirroredAll items]
    exact .exited (nodeAt?_mirrored howner) (getElem?_mirroredAll hk)
      ((isProperty_mirrored _).trans hproperty)

end

/-! ### Moves in the mirror -/

/-- A move that applies has a move the other way as its mirror image. -/
theorem move_mirrored_of_applied {direction : Vertical} {s : Snapshot} {effect : Effect}
    {change : Change} (h : move direction s.tree s.selected = .ok (.applied effect change)) :
    ∃ s' : Snapshot, change = ⟨some s'.tree, some s'.selected⟩ ∧
      move direction.opposite s.mirrored.tree s.mirrored.selected =
        .ok (.applied effect.mirrored ⟨some s'.mirrored.tree, some s'.mirrored.selected⟩) := by
  rcases move_declined_or_shifts direction s with ⟨reason, hmove⟩ |
    ⟨x, g, effect', g', s', hs, hshifts, hs', hmove⟩
  · cases hmove.symm.trans h
  · obtain ⟨rfl, rfl⟩ := Outcome.applied.inj (Except.ok.inj (hmove.symm.trans h))
    obtain ⟨t, ht, himage⟩ := hs.mirrored.move_eq_ok hshifts.mirrored
    rw [ht.unique hs'.mirrored] at himage
    exact ⟨s', rfl, himage⟩

/-- **Moves up and down are mirror images.**  For a valid selection, a move and the move
the other way in the mirror either both decline, or both apply, do the same, and lead to
mirror images. -/
theorem move_mirrored {tree : Node} {selected : Path} (direction : Vertical)
    (h : tree.resolves selected = true) :
    (∃ reason reason', move direction tree selected = .ok (.declined reason) ∧
      move direction.opposite tree.mirrored (tree.mirroredPath selected) =
        .ok (.declined reason')) ∨
    ∃ effect effect' rebuilt target,
      move direction tree selected = .ok (.applied effect ⟨some rebuilt, some target⟩) ∧
      move direction.opposite tree.mirrored (tree.mirroredPath selected) =
        .ok (.applied effect' ⟨some rebuilt.mirrored, some (rebuilt.mirroredPath target)⟩) ∧
      effect'.details = effect.details := by
  rcases move_declined_or_shifts direction ⟨tree, selected⟩ with ⟨reason, hmove⟩ |
    ⟨-, -, effect, -, s', -, -, -, hmove⟩
  · rcases move_declined_or_shifts direction.opposite (Snapshot.mirrored ⟨tree, selected⟩) with
      ⟨reason', himage⟩ | ⟨-, -, effect, -, s', -, -, -, himage⟩
    · exact .inl ⟨reason, reason', hmove, himage⟩
    · -- the image of the image is the move itself
      obtain ⟨t, -, hback⟩ := move_mirrored_of_applied himage
      have hself : Snapshot.mirrored (.mirrored ⟨tree, selected⟩) = ⟨tree, selected⟩ :=
        Snapshot.mirrored_mirrored h
      rw [hself, Vertical.opposite_opposite, hmove] at hback
      cases hback
  · obtain ⟨t, ht, himage⟩ := move_mirrored_of_applied (s := ⟨tree, selected⟩) hmove
    obtain ⟨htree, hselected⟩ := Change.mk.inj ht
    refine .inr ⟨effect, effect.mirrored, t.tree, t.selected, ?_, himage, effect.details_mirrored⟩
    rw [← htree, ← hselected]
    exact hmove

/-- A property that goes up into an object goes to the head of it; in the mirror it goes
down, and to the tail. -/
theorem move_mirrored_into_object :
    let item := Node.property (.string "a") (.number "1")
    let other := Node.property (.string "c") (.number "2")
    let tree := Node.object [.property (.string "b") (.object [other]), item]
    let selected : Path := [.field "properties", .index 1, .field "value"]
    tree.resolves selected = true ∧ ∃ effect, effect.details = [("case", .text "enter")] ∧
      move .down (.object [item, .property (.string "b") (.object [other])])
          [.field "properties", .index 0, .field "value"] =
        .ok (.applied effect ⟨some (.object [.property (.string "b") (.object [other, item])]),
          some [.field "properties", .index 0, .field "value",
            .field "properties", .index 1, .field "value"]⟩) := by
  intro item other tree selected
  have hres : tree.resolves selected = true := rfl
  have hup : move .up tree selected =
      .ok (.applied .entered ⟨some (.object [.property (.string "b") (.object [item, other])]),
        some ([.field "properties", .index 0, .field "value",
          .field "properties", .index 0, .field "value"])⟩) := rfl
  refine ⟨hres, ?_⟩
  rcases move_mirrored .up hres with ⟨_, _, hdeclined, -⟩ |
    ⟨effect, effect', rebuilt, target, hmove, himage, hdetails⟩
  · cases hdeclined.symm.trans hup
  · obtain ⟨rfl, hchange⟩ := Outcome.applied.inj (Except.ok.inj (hmove.symm.trans hup))
    obtain ⟨hrebuilt, htarget⟩ := Change.mk.inj hchange
    obtain rfl := Option.some.inj hrebuilt
    obtain rfl := Option.some.inj htarget
    exact ⟨effect', hdetails, himage⟩

end Editing

end StructuralEditor
