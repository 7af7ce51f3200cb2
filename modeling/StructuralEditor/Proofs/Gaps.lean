/-
StructuralEditor/Proofs/Gaps.lean

Moving an item is moving a gap.

A move takes an item out of one list and puts it into the same or another one, and
the paths of what stands behind the item shift while it does.  They stop shifting
once the item is taken away.  What is left, the *rest* of the document, is the same
before and after the move; all that changes is the gap in the rest that the item
fills.  So a document is taken apart into an *excerpt* (`Excerpt`: the rest, the
item, and the selection below the item) and a gap, and a move is a step of the gap
while the excerpt stays (`Excerpt.Shifts`): past an item, past the head of a property
into its object, or out of an object past the property that holds it.

The two directions differ in two numbers only: where a gap is that has passed an
item (`Vertical.beyond`), and which end of a list it is bound for (`Vertical.edge`).

Two lemmas tie the steps to the moves, and between them say all that a move can
do: a step of the gap is what the move does (`Excerpt.Makes.move_eq_ok`), and without
a step the move declines (`Excerpt.Makes.shifts_or_declined`).
-/
import StructuralEditor.Editing.Move
import StructuralEditor.Proofs.Selection

namespace StructuralEditor

open Document

/-! ### Items put in and taken out -/

namespace Document.Node

section

variable {ns : List Node} {i k : Nat} {n : Node}

theorem mem_insertItem {m : Node} : m ∈ insertItem ns i n ↔ m = n ∨ m ∈ ns := by
  have hmem := List.mem_append (a := m) (s := ns.take i) (t := ns.drop i)
  rw [List.take_append_drop] at hmem
  rw [insertItem, List.mem_append, List.mem_cons, hmem]
  exact or_left_comm

theorem insertItem_append (before after : List Node) (x : Node) :
    insertItem (before ++ after) before.length x = before ++ x :: after := by
  simp [insertItem]

theorem eraseIdx_append_cons (before after : List Node) (n : Node) :
    (before ++ n :: after).eraseIdx before.length = before ++ after := by
  rw [List.eraseIdx_append_of_length_le (Nat.le_refl _), Nat.sub_self, List.eraseIdx_cons_zero]

/-- An item splits its list in two. -/
theorem exists_split (h : ns[k]? = some n) :
    ∃ before after, ns = before ++ n :: after ∧ before.length = k := by
  obtain ⟨hk, rfl⟩ := List.getElem?_eq_some_iff.1 h
  exact ⟨ns.take k, ns.drop (k + 1), by simp, by simp; omega⟩

/-- The two ways of putting an item beside another one. -/
theorem insertItem_beside (h : ns[k]? = some n) (x : Node) :
    ∃ before after, ns = before ++ n :: after ∧ before.length = k ∧
      insertItem ns k x = before ++ x :: n :: after ∧
      insertItem ns (k + 1) x = before ++ n :: x :: after := by
  obtain ⟨before, after, rfl, rfl⟩ := exists_split h
  refine ⟨before, after, rfl, rfl, insertItem_append before _ x, ?_⟩
  have hsecond := insertItem_append (before ++ [n]) after x
  simpa using hsecond

/-- An item that has been put in is taken out again, … -/
theorem eraseIdx_insertItem (hi : i ≤ ns.length) (x : Node) :
    (insertItem ns i x).eraseIdx i = ns := by
  have hlen : (ns.take i).length = i := by simp [hi]
  rw [insertItem, List.eraseIdx_append_of_length_le (Nat.le_of_eq hlen), hlen, Nat.sub_self,
    List.eraseIdx_cons_zero, List.take_append_drop]

/-- … and one that has been taken out is put back. -/
theorem insertItem_eraseIdx (h : ns[k]? = some n) : insertItem (ns.eraseIdx k) k n = ns := by
  obtain ⟨before, after, rfl, rfl⟩ := exists_split h
  rw [eraseIdx_append_cons, insertItem_append]

end

/-! #### The object in a property -/

section

variable {tree tree' key : Node} {owner list : Path} {ns ms ms' : List Node} {k : Nat} {n : Node}
  {inner : GroupKind}

/-- The items of the group in a property. -/
theorem itemsAt?_nested (hlist : tree.itemsAt? list = some ns)
    (hk : ns[k]? = some (.property key (.group inner ms))) :
    tree.itemsAt? (list ++ Content.nestedItems k .property inner) = some ms := by
  rw [itemsAt?_eq_some, get?_append, itemsAt?_eq_some.1 hlist]
  exact Content.get?_nestedItems hk

/-- New items for the group in a property of an object, and the object around it. -/
theorem nodeAt?_of_nested (howner : tree.nodeAt? owner = some (.object ns))
    (hk : ns[k]? = some (.property key (.group inner ms)))
    (hput : tree.put? (owner ++ [Step.field GroupKind.object.field] ++
      Content.nestedItems k .property inner) (.items ms') = some tree') :
    tree'.nodeAt? owner = some (.object (ns.set k (.property key (.group inner ms')))) := by
  rw [put?_append (itemsAt?_eq_some.1 (itemsAt?_of_group howner)) (Content.put?_nestedItems hk ms'),
    put?_items howner] at hput
  exact nodeAt?_eq_some.2 (get?_put? hput)

end

end Document.Node

namespace Editing

open Document.Node

/-! ### Directions -/

namespace Vertical

/-- The position of a gap that has passed item `k`. -/
def beyond : Vertical → Nat → Nat
  | .up, k => k
  | .down, k => k + 1

/-- The last position of a gap in a list of `size` items. -/
def edge : Vertical → Nat → Nat
  | .up, _ => 0
  | .down, size => size

@[simp] theorem opposite_opposite (direction : Vertical) :
    direction.opposite.opposite = direction := by
  cases direction <;> rfl

theorem edge_le (direction : Vertical) (size : Nat) : direction.edge size ≤ size := by
  cases direction <;> simp [edge]

end Vertical

section

variable {ns : List Node} {k : Nat} {n : Node} (direction : Vertical)

theorem beyond_le (h : ns[k]? = some n) : direction.beyond k ≤ ns.length := by
  obtain ⟨hk, -⟩ := List.getElem?_eq_some_iff.1 h
  cases direction <;> simp only [Vertical.beyond] <;> omega

/-- A gap is at the edge, or there is an item to pass. -/
theorem eq_edge_or_beyond {i : Nat} (hi : i ≤ ns.length) :
    i = direction.edge ns.length ∨
      ∃ k n, ns[k]? = some n ∧ i = direction.opposite.beyond k := by
  cases direction with
  | up =>
    cases i with
    | zero => exact .inl rfl
    | succ k => exact .inr ⟨k, ns[k], List.getElem?_eq_getElem hi, rfl⟩
  | down =>
    rcases Nat.eq_or_lt_of_le hi with rfl | hlt
    · exact .inl rfl
    · exact .inr ⟨i, ns[i], List.getElem?_eq_getElem hlt, rfl⟩

/-! With item `x` in the gap in front of item `k`, the two are neighbours. -/

theorem getElem?_beyond (h : ns[k]? = some n) (x : Node) :
    (insertItem ns (direction.opposite.beyond k) x)[direction.beyond k]? = some n := by
  obtain ⟨before, after, -, rfl, hfirst, hsecond⟩ := insertItem_beside h x
  cases direction <;> simp [Vertical.opposite, Vertical.beyond, hfirst, hsecond]

/-- Once the two have changed places, the gap has passed the item. -/
theorem set_set_beyond (h : ns[k]? = some n) (x : Node) :
    ((insertItem ns (direction.opposite.beyond k) x).set (direction.opposite.beyond k) n).set
      (direction.beyond k) x = insertItem ns (direction.beyond k) x := by
  obtain ⟨before, after, -, rfl, hfirst, hsecond⟩ := insertItem_beside h x
  cases direction <;> simp [Vertical.opposite, Vertical.beyond, hfirst, hsecond]

/-- The neighbour that has been rewritten, without the item beside it. -/
theorem eraseIdx_set_beyond (h : ns[k]? = some n) (m x : Node) :
    ((insertItem ns (direction.opposite.beyond k) x).set (direction.beyond k) m).eraseIdx
      (direction.opposite.beyond k) = ns.set k m := by
  obtain ⟨before, after, rfl, rfl, hfirst, hsecond⟩ := insertItem_beside h x
  cases direction <;>
    simp [Vertical.opposite, Vertical.beyond, hfirst, hsecond, List.eraseIdx_append_of_length_le]

end

/-! ### Gaps -/

/-- A place in a list for one more item: the path of the list, and the position. -/
structure Gap where
  list : Path
  position : Nat

/-- The path of the item that fills a gap. -/
def Gap.path (g : Gap) : Path :=
  g.list ++ [.index g.position]

/-- Whether a document is the rest with the item in a gap. -/
inductive Gap.Fills (g : Gap) (rest item tree : Node) : Prop
  | intro {ns : List Node} (hlist : rest.itemsAt? g.list = some ns) (hle : g.position ≤ ns.length)
      (hput : rest.put? g.list (.items (insertItem ns g.position item)) = some tree)

section

variable {g : Gap} {rest item tree tree' : Node} {ns : List Node}

/-- Every place of a list can be filled. -/
theorem exists_fills {list : Path} {i : Nat} (hlist : rest.itemsAt? list = some ns)
    (hi : i ≤ ns.length) (item : Node) :
    ∃ tree, rest.insertAt list i item = .ok tree ∧ Gap.Fills ⟨list, i⟩ rest item tree := by
  obtain ⟨tree, hok, hput⟩ := insertAt_eq_ok hlist hi item
  exact ⟨tree, hok, hlist, hi, hput⟩

/-- An item that is taken out leaves a gap, which it fills. -/
theorem fills_deleteAt {list : Path} {k : Nat} (hlist : tree.itemsAt? list = some ns)
    (hk : ns[k]? = some item) :
    Gap.Fills ⟨list, k⟩ (tree.deleteAt (list ++ [Step.index k])) item tree := by
  obtain ⟨hlt, -⟩ := List.getElem?_eq_some_iff.1 hk
  have hdelete := put?_deleteAt hlist hlt
  refine ⟨itemsAt?_eq_some.2 (get?_put? hdelete), ?_, ?_⟩
  · show k ≤ _
    rw [List.length_eraseIdx_of_lt hlt]
    omega
  · -- putting the item back writes the old list again
    show Node.put? _ list (.items (insertItem _ k item)) = _
    rw [insertItem_eraseIdx hk]
    exact (put?_put? hdelete).trans (put?_self (itemsAt?_eq_some.1 hlist))

namespace Gap.Fills

/-- With the item in the gap, the list is longer by it. -/
theorem put?_filled (h : g.Fills rest item tree) (hlist : rest.itemsAt? g.list = some ns) :
    rest.put? g.list (.items (insertItem ns g.position item)) = some tree := by
  obtain ⟨hlist', -, hput⟩ := h
  obtain rfl := Option.some.inj (hlist'.symm.trans hlist)
  exact hput

theorem itemsAt? (h : g.Fills rest item tree) (hlist : rest.itemsAt? g.list = some ns) :
    tree.itemsAt? g.list = some (insertItem ns g.position item) :=
  itemsAt?_eq_some.2 (get?_put? (h.put?_filled hlist))

theorem unique (h : g.Fills rest item tree) (h' : g.Fills rest item tree') : tree = tree' := by
  have ⟨hlist, _, _⟩ := h
  exact Option.some.inj ((h.put?_filled hlist).symm.trans (h'.put?_filled hlist))

theorem nodeAt? (h : g.Fills rest item tree) : tree.nodeAt? g.path = some item := by
  obtain ⟨hlist, hle, hput⟩ := h
  exact nodeAt?_index (itemsAt?_eq_some.2 (get?_put? hput)) (getElem?_insertItem_self _ hle item)

/-- A write of the whole list comes to the same with the item and without it. -/
theorem put?_eq (h : g.Fills rest item tree) (c : Content) :
    tree.put? g.list c = rest.put? g.list c := by
  obtain ⟨-, -, hput⟩ := h
  exact put?_put? hput

theorem put?_rest (h : g.Fills rest item tree) (hlist : rest.itemsAt? g.list = some ns) :
    tree.put? g.list (.items ns) = some rest := by
  rw [h.put?_eq]
  exact put?_self (itemsAt?_eq_some.1 hlist)

/-- The item is put into the gap by an insertion, … -/
theorem insertAt (h : g.Fills rest item tree) :
    rest.insertAt g.list g.position item = .ok tree := by
  have ⟨hlist, hle, _⟩ := h
  obtain ⟨tree', hok, hfills⟩ := exists_fills hlist hle item
  rw [hok, h.unique hfills]

/-- … and by a deletion it is taken out. -/
theorem deleteAt (h : g.Fills rest item tree) : tree.deleteAt g.path = rest := by
  have ⟨hlist, hle, _⟩ := h
  have hdelete := put?_deleteAt (h.itemsAt? hlist) (i := g.position)
    (by rw [length_insertItem]; omega)
  rw [eraseIdx_insertItem hle, h.put?_rest hlist] at hdelete
  exact (Option.some.inj hdelete).symm

end Gap.Fills

end

/-! ### Located items -/

/-- Whether a located item is where it says. -/
structure LocatedItem.IsAt (l : LocatedItem) (tree : Node) : Prop where
  items : tree.itemsAt? l.list = some l.items
  item : l.items[l.position]? = some l.item

/-- Whether the path of a list ends in a field whose list takes insertions and
reorderings. -/
def IsEditable (list : Path) : Prop :=
  ∃ owner field, list = owner ++ [field] ∧ field.isFieldIn editableFields = true

/-- Whether a located item is the one in the innermost editable list of a selection. -/
structure LocatedItem.Encloses (l : LocatedItem) (tree : Node) (selected : Path) : Prop where
  isAt : l.IsAt tree
  selected : selected = l.path ++ l.below
  isEditable : IsEditable l.list
  below : ∀ step ∈ l.below, step.isFieldIn editableFields = false

/-- That is the item which a move locates. -/
theorem locateItem?_eq_some_iff {tree : Node} {selected : Path} {l : LocatedItem} :
    locateItem? tree selected = some l ↔ l.Encloses tree selected := by
  constructor
  · intro hl
    unfold locateItem? at hl
    split at hl
    · next before field i below hsplit =>
      obtain ⟨ns, hns, hitem⟩ := Option.bind_eq_some_iff.1 hl
      obtain ⟨n, hn, rfl⟩ := Option.map_eq_some_iff.1 hitem
      obtain ⟨rfl, hfield, hbelow⟩ := Path.splitAtLast_eq_some hsplit
      exact ⟨⟨hns, hn⟩, by simp [LocatedItem.path], ⟨before, field, rfl, hfield⟩,
        (List.forall_mem_cons.1 hbelow).2⟩
    · cases hl
  · rintro ⟨hl, rfl, ⟨owner, field, hlist, hfield⟩, hbelow⟩
    obtain ⟨list, i, items, item, below⟩ := l
    obtain rfl : list = owner ++ [field] := hlist
    have hsplit : Path.splitAtLast (Step.isFieldIn editableFields)
        (owner ++ field :: .index i :: below) = some (owner, field, .index i :: below) :=
      Path.splitAtLast_append hfield (List.forall_mem_cons.2 ⟨rfl, hbelow⟩) owner
    have hitems : tree.itemsAt? (owner ++ [field]) = some items := hl.items
    have hitem : items[i]? = some item := hl.item
    simp [locateItem?, LocatedItem.path, hsplit, hitems, hitem]

theorem nestedProperties?_eq_some {n : Node} {properties : List Node} :
    nestedProperties? n = some properties ↔ ∃ key, n = .property key (.object properties) := by
  constructor
  · intro h
    unfold nestedProperties? at h
    split at h
    · next key ps => exact ⟨key, by rw [Option.some.inj h]⟩
    · cases h
  · rintro ⟨key, rfl⟩
    rfl

/-- The place outside a list: the list is that of a group which is the value of
the property at the place. -/
theorem outerPlace?_eq_some {p owner : Path} {k : Nat} (h : outerPlace? p = some (owner, k)) :
    ∃ step, p = owner ++ [Step.field GroupKind.object.field] ++
      [.index k, .field PairKind.property.secondField, step] := by
  fun_induction outerPlace? p generalizing owner with
  | case1 => cases h
  | case2 k last =>
    obtain ⟨rfl, rfl⟩ : [] = owner ∧ k = _ := by simpa using h
    exact ⟨last, rfl⟩
  | case3 step rest _ ih =>
    obtain ⟨⟨owner', k'⟩, h', heq⟩ := Option.map_eq_some_iff.1 h
    obtain ⟨rfl, rfl⟩ : step :: owner' = owner ∧ k' = k := by simpa using heq
    obtain ⟨last, rfl⟩ := ih h'
    exact ⟨last, rfl⟩

theorem outerPlace?_nested (owner : Path) (k : Nat) (inner : GroupKind) :
    outerPlace? (owner ++ [Step.field GroupKind.object.field] ++
      Content.nestedItems k .property inner) = some (owner, k) := by
  induction owner with
  | nil => rfl
  | cons step owner ih =>
    rw [List.cons_append, List.cons_append, outerPlace?, ih]
    · rfl
    · -- the rest is too long for the last four steps of the path
      intro _ _ _ hrest
      have hlength := congrArg List.length hrest
      simp [Content.nestedItems] at hlength

/-! ### Excerpts -/

/-- An item taken out of a document: what is left of the document, the item, and
the part of the selection below the item. -/
structure Excerpt where
  rest : Node
  item : Node
  below : Path

/-- Whether a snapshot shows the item of an excerpt in a gap of the rest, and in a
list where it can be moved. -/
structure Excerpt.Makes (x : Excerpt) (g : Gap) (s : Snapshot) : Prop where
  fills : g.Fills x.rest x.item s.tree
  selected : s.selected = g.path ++ x.below
  isEditable : IsEditable g.list
  below : ∀ step ∈ x.below, step.isFieldIn editableFields = false

/-- The item of an excerpt in a gap, as a move locates it. -/
def Excerpt.located (x : Excerpt) (g : Gap) (ns : List Node) : LocatedItem :=
  ⟨g.list, g.position, insertItem ns g.position x.item, x.item, x.below⟩

section

variable {x : Excerpt} {g : Gap} {direction : Vertical} {ns : List Node} {k : Nat} {n : Node}

@[simp] theorem Excerpt.located_item : (x.located g ns).item = x.item :=
  rfl

/-- In front of item `k`, that item is the neighbour; … -/
theorem Excerpt.neighbour?_of_beyond (hposition : g.position = direction.opposite.beyond k)
    (hk : ns[k]? = some n) :
    (x.located g ns).neighbour? direction = some (direction.beyond k, n) := by
  have hnext : nextPosition? direction g.position = some (direction.beyond k) := by
    rw [hposition]
    cases direction <;> rfl
  have hn := getElem?_beyond direction hk x.item
  rw [← hposition] at hn
  simp [LocatedItem.neighbour?, Excerpt.located, hnext, hn]

/-- … at the edge there is none. -/
theorem Excerpt.neighbour?_of_edge (hposition : g.position = direction.edge ns.length) :
    (x.located g ns).neighbour? direction = none := by
  cases direction with
  | up =>
    have hposition : g.position = 0 := hposition
    simp [LocatedItem.neighbour?, nextPosition?, Excerpt.located, hposition]
  | down =>
    have hposition : g.position = ns.length := hposition
    simp [LocatedItem.neighbour?, nextPosition?, Excerpt.located, hposition]

end

/-- The excerpt that takes a located item out. -/
def LocatedItem.excerpt (l : LocatedItem) (tree : Node) : Excerpt :=
  ⟨tree.deleteAt l.path, l.item, l.below⟩

/-- The gap that a located item leaves. -/
def LocatedItem.gap (l : LocatedItem) : Gap :=
  ⟨l.list, l.position⟩

theorem makes_of_located {s : Snapshot} {l : LocatedItem}
    (hl : locateItem? s.tree s.selected = some l) : (l.excerpt s.tree).Makes l.gap s := by
  obtain ⟨hat, hselected, heditable, hbelow⟩ := locateItem?_eq_some_iff.1 hl
  exact ⟨fills_deleteAt hat.items hat.item, hselected, heditable, hbelow⟩

section

variable {x : Excerpt} {g g' : Gap} {s s' : Snapshot} {ns : List Node} {direction : Vertical}

namespace Excerpt.Makes

theorem encloses (h : x.Makes g s) (hlist : x.rest.itemsAt? g.list = some ns) :
    (x.located g ns).Encloses s.tree s.selected := by
  have ⟨hlist', hle, _⟩ := h.fills
  obtain rfl := Option.some.inj (hlist'.symm.trans hlist)
  exact ⟨⟨h.fills.itemsAt? hlist, getElem?_insertItem_self _ hle x.item⟩, h.selected, h.isEditable,
    h.below⟩

theorem located (h : x.Makes g s) (hlist : x.rest.itemsAt? g.list = some ns) :
    locateItem? s.tree s.selected = some (x.located g ns) :=
  locateItem?_eq_some_iff.2 (h.encloses hlist)

/-- An excerpt with its gap says all of a snapshot, … -/
theorem unique (h : x.Makes g s) (h' : x.Makes g s') : s = s' := by
  obtain ⟨tree, selected⟩ := s
  obtain ⟨tree', selected'⟩ := s'
  rw [Snapshot.mk.injEq]
  exact ⟨h.fills.unique h'.fills, h.selected.trans h'.selected.symm⟩

/-- … and what is selected of it does not depend on the gap. -/
theorem get?_selected (h : x.Makes g s) : s.tree.get? s.selected = x.item.get? x.below := by
  rw [h.selected, Node.get?_append, nodeAt?_eq_some.1 h.fills.nodeAt?]
  rfl

theorem resolves_iff (h : x.Makes g s) :
    s.resolves = true ↔ (Content.node x.item).Resolves x.below := by
  rw [Snapshot.resolves, h.selected, Node.resolves_below h.fills.nodeAt?]

end Excerpt.Makes

/-! ### Steps of a gap -/

/-- What a move does to the gap of an item: the item passes another one, or it
enters the object of a property and goes to the far end of it, or it leaves the
object of a property and passes the property.  Only properties enter and leave. -/
inductive Excerpt.Shifts (x : Excerpt) (direction : Vertical) : Gap → Effect → Gap → Prop
  | swapped {list : Path} {ns : List Node} {k : Nat} {neighbour : Node}
      (hlist : x.rest.itemsAt? list = some ns) (hk : ns[k]? = some neighbour)
      (hplain : x.item.isProperty = true → nestedProperties? neighbour = none) :
      Shifts x direction ⟨list, direction.opposite.beyond k⟩ (.swapped direction)
        ⟨list, direction.beyond k⟩
  | entered {list : Path} {ns : List Node} {k : Nat} {key : Node} {properties : List Node}
      (hlist : x.rest.itemsAt? list = some ns)
      (hk : ns[k]? = some (.property key (.object properties)))
      (hproperty : x.item.isProperty = true) :
      Shifts x direction ⟨list, direction.opposite.beyond k⟩ .entered
        ⟨list ++ Content.nestedItems k .property .object, direction.edge properties.length⟩
  | exited {owner : Path} {ns : List Node} {k : Nat} {key : Node} {inner : GroupKind}
      {items : List Node} (howner : x.rest.nodeAt? owner = some (.object ns))
      (hk : ns[k]? = some (.property key (.group inner items)))
      (hproperty : x.item.isProperty = true) :
      Shifts x direction
        ⟨owner ++ [.field GroupKind.object.field] ++ Content.nestedItems k .property inner,
          direction.edge items.length⟩ .exited
        ⟨owner ++ [.field GroupKind.object.field], direction.beyond k⟩

/-- No step ends where it starts. -/
theorem Excerpt.Shifts.path_ne {effect : Effect} (h : x.Shifts direction g effect g') :
    g'.path ≠ g.path := by
  intro heq
  cases h with
  | swapped => cases direction <;> simp [Gap.path, Vertical.beyond, Vertical.opposite] at heq
  | entered => simp [Gap.path, Content.nestedItems] at heq
  | exited => simp [Gap.path, Content.nestedItems] at heq

/-! #### One lemma for each case of a move -/

theorem isEditable_nested (list : Path) (k : Nat) :
    IsEditable (list ++ Content.nestedItems k .property .object) :=
  ⟨list ++ [Step.index k, .field PairKind.property.secondField], .field GroupKind.object.field,
    by simp [Content.nestedItems], rfl⟩

/-- Entering an object, with the positions of either direction. -/
theorem enter_beyond (direction : Vertical) (tree : Node) (l : LocatedItem) (k : Nat)
    (properties : List Node) :
    enter direction tree l (direction.beyond k) properties =
      (tree.insertAt (l.list ++ Content.nestedItems (direction.beyond k) .property .object)
        (direction.edge properties.length) l.item).map fun grown =>
          .applied .entered ⟨some (grown.deleteAt l.path),
            some (l.list ++ Content.nestedItems k .property .object ++
              [.index (direction.edge properties.length)] ++ l.below)⟩ := by
  have hbind : ∀ {α β : Type} (r : Except EditError α) (f : α → β),
      (r >>= fun a => .ok (f a)) = r.map f := by
    intro α β r f
    cases r <;> rfl
  unfold enter
  rw [← hbind]
  cases direction with
  | up => simp [Vertical.beyond, Vertical.edge, Content.nestedItems]
  | down => simp [Vertical.beyond, Vertical.edge, Content.nestedItems]

namespace Excerpt.Makes

variable {k : Nat} {key : Node}

theorem swap_eq_ok {neighbour : Node} (h : x.Makes g s)
    (hposition : g.position = direction.opposite.beyond k)
    (hlist : x.rest.itemsAt? g.list = some ns) (hk : ns[k]? = some neighbour) :
    ∃ s', x.Makes ⟨g.list, direction.beyond k⟩ s' ∧
      swap direction s.tree (x.located g ns) (direction.beyond k) neighbour =
        .ok (.applied (.swapped direction) ⟨some s'.tree, some s'.selected⟩) := by
  obtain ⟨tree, -, hfills⟩ := exists_fills hlist (beyond_le direction hk) x.item
  have hset : s.tree.set g.list (.items (((insertItem ns g.position x.item).set g.position
      neighbour).set (direction.beyond k) x.item)) = .ok tree := by
    rw [hposition, set_set_beyond direction hk]
    exact set_eq_ok_of_put? ((h.fills.put?_eq _).trans (hfills.put?_filled hlist))
  refine ⟨⟨tree, _⟩, ⟨hfills, rfl, h.isEditable, h.below⟩, ?_⟩
  simp only [swap, Excerpt.located, hset]
  rfl

theorem enter_eq_ok {properties : List Node} (h : x.Makes g s)
    (hposition : g.position = direction.opposite.beyond k)
    (hlist : x.rest.itemsAt? g.list = some ns)
    (hk : ns[k]? = some (.property key (.object properties))) :
    ∃ s', x.Makes ⟨g.list ++ Content.nestedItems k .property .object,
        direction.edge properties.length⟩ s' ∧
      enter direction s.tree (x.located g ns) (direction.beyond k) properties =
        .ok (.applied .entered ⟨some s'.tree, some s'.selected⟩) := by
  have hget := itemsAt?_eq_some.1 hlist
  have hgetTree := itemsAt?_eq_some.1 (h.fills.itemsAt? hlist)
  have hbeyond := getElem?_beyond direction hk x.item
  rw [← hposition] at hbeyond
  have hnested := itemsAt?_nested (h.fills.itemsAt? hlist) hbeyond
  -- the insertion is a write at the list of the item, with the neighbour grown, …
  obtain ⟨grown, hok, hgrown⟩ :=
    insertAt_eq_ok hnested (direction.edge_le properties.length) x.item
  rw [put?_append hgetTree (Content.put?_nestedItems hbeyond _)] at hgrown
  -- … and so is the deletion after it; in the rest both are one write at the inner list
  have hdelete := put?_deleteAt (itemsAt?_eq_some.2 (get?_put? hgrown)) (i := g.position) (by
    have hle := beyond_le direction.opposite hk
    rw [List.length_set, length_insertItem]
    omega)
  rw [hposition, eraseIdx_set_beyond direction hk, put?_put? hgrown, h.fills.put?_eq,
    ← put?_append hget (Content.put?_nestedItems hk _), ← hposition] at hdelete
  refine ⟨⟨_, _⟩, ⟨⟨itemsAt?_nested hlist hk, direction.edge_le _, hdelete⟩, rfl,
    isEditable_nested g.list k, h.below⟩, ?_⟩
  rw [enter_beyond]
  simp only [Excerpt.located] at hok ⊢
  rw [hok]
  rfl

theorem exit?_eq_ok {owner : Path} {inner : GroupKind} {items : List Node} (h : x.Makes g s)
    (hlist : g.list = owner ++ [Step.field GroupKind.object.field] ++
      Content.nestedItems k .property inner)
    (howner : x.rest.nodeAt? owner = some (.object ns))
    (hk : ns[k]? = some (.property key (.group inner items))) :
    ∃ s', x.Makes ⟨owner ++ [Step.field GroupKind.object.field], direction.beyond k⟩ s' ∧
      exit? direction s.tree (x.located g items) =
        .ok (some (.applied .exited ⟨some s'.tree, some s'.selected⟩)) := by
  obtain ⟨tree, hok, hfills⟩ :=
    exists_fills (itemsAt?_of_group howner) (beyond_le direction hk) x.item
  -- with the item in it, the object around the list is an object still
  obtain ⟨properties, value, hobject, hproperty⟩ : ∃ properties value,
      s.tree.nodeAt? owner = some (.object properties) ∧
      s.tree.nodeAt? (owner ++ [Step.field GroupKind.object.field] ++ [Step.index k]) =
        some (.property key value) := by
    obtain ⟨-, -, hput⟩ := h.fills
    rw [hlist] at hput
    have hobject := nodeAt?_of_nested howner hk hput
    obtain ⟨hlt, -⟩ := List.getElem?_eq_some_iff.1 hk
    exact ⟨_, _, hobject, nodeAt?_index (itemsAt?_of_group hobject) (List.getElem?_set_self hlt)⟩
  refine ⟨⟨tree, _⟩, ⟨hfills, rfl, ⟨owner, _, rfl, rfl⟩, h.below⟩, ?_⟩
  have hrest : s.tree.deleteAt (x.located g items).path = x.rest := h.fills.deleteAt
  unfold exit?
  simp only [Excerpt.located, hlist, outerPlace?_nested, hobject, hproperty, LocatedItem.path]
    at hrest ⊢
  rw [hrest]
  cases direction with
  | up =>
    simp only [Vertical.beyond] at hok
    rw [hok]
    rfl
  | down =>
    simp only [Vertical.beyond] at hok
    rw [hok]
    rfl

/-- At the edge of its list a property leaves the object, or there is none to leave. -/
theorem exits_or_stays (h : x.Makes g s) (hlist : x.rest.itemsAt? g.list = some ns)
    (hposition : g.position = direction.edge ns.length) (hproperty : x.item.isProperty = true) :
    (∃ g', x.Shifts direction g .exited g') ∨
      exit? direction s.tree (x.located g ns) = .ok none := by
  unfold exit?
  simp only [Excerpt.located]
  split
  · exact .inr rfl
  · next owner k hplace =>
    split
    · next ns' key value howner hvalue =>
      obtain ⟨step, hpath⟩ := outerPlace?_eq_some hplace
      obtain ⟨list, position⟩ := g
      obtain rfl : position = direction.edge ns.length := hposition
      obtain rfl : list = _ := hpath
      have houter := itemsAt?_eq_some.1 (itemsAt?_of_group howner)
      have hk : ns'[k]? = some (.property key value) := by
        rw [nodeAt?_eq_some, Node.get?_append, houter] at hvalue
        simpa using hvalue
      -- the property at the place is the pair whose second node owns the list
      obtain ⟨inner, rfl, rfl⟩ : ∃ inner : GroupKind,
          value = .group inner (insertItem ns (direction.edge ns.length) x.item) ∧
            step = .field inner.field := by
        have hitems := itemsAt?_eq_some.1 (h.fills.itemsAt? hlist)
        simp only at hitems
        rw [Node.get?_append, houter] at hitems
        have hchild : (Content.node value).child? step =
            some (.items (insertItem ns (direction.edge ns.length) x.item)) := by
          simpa [Content.get?_cons, hk] using hitems
        cases step with
        | field name =>
          obtain ⟨inner, rfl, rfl⟩ := field?_items hchild
          exact ⟨inner, rfl, rfl⟩
        | _ => cases hchild
      have hrest := nodeAt?_of_nested howner hk (h.fills.put?_rest hlist)
      obtain ⟨hlt, -⟩ := List.getElem?_eq_some_iff.1 hk
      exact .inl ⟨_, .exited hrest (List.getElem?_set_self hlt) hproperty⟩
    · exact .inr rfl

end Excerpt.Makes

/-! ### Moves -/

/-- At the edge of its list an item leaves the object or stays. -/
theorem move_of_edge {tree : Node} {selected : Path} {l : LocatedItem}
    (hlocate : locateItem? tree selected = some l) (hedge : l.neighbour? direction = none) :
    move direction tree selected =
      if l.item.isProperty then
        (exit? direction tree l).map (·.getD (.declined (.atBoundary direction)))
      else .ok (.declined (.atBoundary direction)) := by
  simp only [move, hlocate, hedge]
  split
  · rcases exit? direction tree l with cause | left? <;> rfl
  · rfl

/-- **A step of the gap is what the move does.** -/
theorem Excerpt.Makes.move_eq_ok {effect : Effect} (h : x.Makes g s)
    (hshifts : x.Shifts direction g effect g') :
    ∃ s', x.Makes g' s' ∧
      move direction s.tree s.selected =
        .ok (.applied effect ⟨some s'.tree, some s'.selected⟩) := by
  cases hshifts with
  | @swapped list ns k neighbour hlist hk hplain =>
    have hlocate := h.located hlist
    have hneighbour : (x.located ⟨list, direction.opposite.beyond k⟩ ns).neighbour? direction =
        some (direction.beyond k, neighbour) := x.neighbour?_of_beyond rfl hk
    obtain ⟨s', hs', hswap⟩ := h.swap_eq_ok rfl hlist hk
    refine ⟨s', hs', ?_⟩
    simp only [move, hlocate, hneighbour]
    split
    · next properties hproperty hnested =>
      rw [hplain hproperty] at hnested
      cases hnested
    · exact hswap
  | @entered list ns k key properties hlist hk hproperty =>
    have hlocate := h.located hlist
    have hneighbour : (x.located ⟨list, direction.opposite.beyond k⟩ ns).neighbour? direction =
        some (direction.beyond k, .property key (.object properties)) :=
      x.neighbour?_of_beyond rfl hk
    obtain ⟨s', hs', henter⟩ := h.enter_eq_ok rfl hlist hk
    refine ⟨s', hs', ?_⟩
    simp only [move, hlocate, hneighbour, Excerpt.located_item, hproperty]
    exact henter
  | @exited owner ns k key inner items howner hk hproperty =>
    have hlocate := h.located (itemsAt?_nested (itemsAt?_of_group howner) hk)
    obtain ⟨s', hs', hexit⟩ := h.exit?_eq_ok rfl howner hk
    refine ⟨s', hs', ?_⟩
    rw [move_of_edge hlocate (x.neighbour?_of_edge rfl), Excerpt.located_item, if_pos hproperty,
      hexit]
    rfl

/-- **Without a step of the gap the move declines.** -/
theorem Excerpt.Makes.shifts_or_declined (h : x.Makes g s) (direction : Vertical) :
    (∃ effect g', x.Shifts direction g effect g') ∨
      ∃ reason, move direction s.tree s.selected = .ok (.declined reason) := by
  have ⟨hlist, hle, _⟩ := h.fills
  rcases eq_edge_or_beyond direction hle with hedge | ⟨k, n, hk, hbeyond⟩
  · have hmove := move_of_edge (h.located hlist) (x.neighbour?_of_edge hedge)
    rw [Excerpt.located_item] at hmove
    by_cases hproperty : x.item.isProperty = true
    · rw [if_pos hproperty] at hmove
      rcases h.exits_or_stays hlist hedge hproperty with ⟨g', hshifts⟩ | hstays
      · exact .inl ⟨_, _, hshifts⟩
      · exact .inr ⟨_, hmove.trans (by rw [hstays]; rfl)⟩
    · exact .inr ⟨_, hmove.trans (if_neg hproperty)⟩
  · obtain ⟨list, position⟩ := g
    obtain rfl : position = _ := hbeyond
    rcases hnested : nestedProperties? n with - | properties
    · exact .inl ⟨_, _, .swapped hlist hk fun _ => hnested⟩
    · by_cases hproperty : x.item.isProperty = true
      · obtain ⟨key, rfl⟩ := nestedProperties?_eq_some.1 hnested
        exact .inl ⟨_, _, .entered hlist hk hproperty⟩
      · exact .inl ⟨_, _, .swapped hlist hk fun h => absurd h hproperty⟩

/-- What a move comes to: it declines, or takes a step with the gap of an item. -/
theorem move_declined_or_shifts (direction : Vertical) (s : Snapshot) :
    (∃ reason, move direction s.tree s.selected = .ok (.declined reason)) ∨
    ∃ x g effect g' s', Excerpt.Makes x g s ∧ x.Shifts direction g effect g' ∧ x.Makes g' s' ∧
      move direction s.tree s.selected =
        .ok (.applied effect ⟨some s'.tree, some s'.selected⟩) := by
  rcases hlocate : locateItem? s.tree s.selected with - | l
  · exact .inl ⟨.nothingToMove, by simp only [move, hlocate]⟩
  · have hmakes := makes_of_located hlocate
    rcases hmakes.shifts_or_declined direction with ⟨effect, g', hshifts⟩ | hdeclined
    · obtain ⟨s', hs', hmove⟩ := hmakes.move_eq_ok hshifts
      exact .inr ⟨_, _, effect, g', s', hmakes, hshifts, hs', hmove⟩
    · exact .inl hdeclined

end

end Editing

end StructuralEditor
