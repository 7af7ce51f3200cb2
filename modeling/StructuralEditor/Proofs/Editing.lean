/-
StructuralEditor/Proofs/Editing.lean

What the edits of a document do, and that they keep a valid selection valid.

For every edit but one there is a lemma that says what it comes to: it declines, or
it applies with a tree that is one write into the old one (`insert_cases`,
`delete_cases`, `replace_cases`, …).  The selection that goes with such a tree is
computed by each edit in its own way, but always as the path of the write followed by
a path below what has been written.  So that it is valid follows from `resolves_put?`
alone (`Edit.keepsSelection_run`).

The one edit is the move, which takes an item out of one list and puts it into
another.  The path below the item goes along with it, valid or not (`move_cases`).
-/
import StructuralEditor.Editing.Edit
import StructuralEditor.Proofs.Gaps

namespace StructuralEditor.Editing

open Document

/-! ### Outcomes that keep the selection valid -/

/-- Failures over a path: it leads nowhere, or to something else than is due
there. -/
def isPathFailure : EditError → Bool
  | .unresolved _ | .notACollection _ | .unfit _ | .fieldAsPosition _ => true
  | .unknownDirection _ | .notText | .number _ => false

/-- Whether an edit of a snapshot leaves a document with a valid selection behind,
and does not fail over a path. -/
def KeepsSelection (s : Snapshot) : Except EditError Outcome → Prop
  | .ok (.applied _ change) => (s.apply change).resolves = true
  | .ok (.misplaced _ _ _ _) => False
  | .ok (.declined _) => True
  | .error cause => isPathFailure cause = false

variable {tree rebuilt : Node} {selected list : Path}

/-- A path below a new content is a selection of the whole. -/
theorem resolves_put? {new : Content} {p q : Path} (h : tree.put? p new = some rebuilt)
    (hq : new.Resolves q) : rebuilt.resolves (p ++ q) = true :=
  Node.resolves_append (Node.get?_put? h) hq

/-- A new tree with a path below the place where it is new. -/
theorem keepsSelection_put? {new : Content} {p q : Path} (h : tree.put? p new = some rebuilt)
    (hq : new.Resolves q) (effect : Effect) :
    KeepsSelection ⟨tree, selected⟩ (.ok (.applied effect ⟨some rebuilt, some (p ++ q)⟩)) :=
  resolves_put? h hq

/-! ### The selection -/

theorem keepsSelection_moveSelection (direction : Direction) (h : tree.resolves selected = true) :
    KeepsSelection ⟨tree, selected⟩ (moveSelection direction tree selected) := by
  obtain ⟨target, hnav, htarget⟩ := navigate_eq_ok direction h
  rw [moveSelection, hnav]
  exact htarget

theorem keepsSelection_select (target : Path) :
    KeepsSelection ⟨tree, selected⟩ (.ok (select target tree)) := by
  unfold select
  split
  · next h => exact h
  · trivial

/-! ### Insertion -/

theorem editableFields_subset : editableFields ⊆ siblingFields := by decide

/-- For a valid selection, an insertion goes to a place of a list that is
there. -/
theorem insertionPlace?_eq_some {place : Path × Nat} (h : tree.resolves selected = true)
    (hplace : insertionPlace? tree selected = some place) :
    ∃ owner kind ns, place.1 = owner ++ [Step.field kind.field] ∧
      tree.nodeAt? owner = some (.group kind ns) ∧ tree.itemsAt? place.1 = some ns ∧
      place.2 ≤ ns.length := by
  unfold insertionPlace? at hplace
  split at hplace
  · next hlast =>
    obtain ⟨ns, hns, rfl⟩ := Option.map_eq_some_iff.1 hplace
    obtain ⟨owner, kind, hlist, howner⟩ := owner_of_items hns
    exact ⟨owner, kind, ns, hlist, howner, hns, Nat.le_refl _⟩
  · next hlast =>
    split at hplace
    · next ns hn =>
      obtain rfl := Option.some.inj hplace
      exact ⟨selected, .array, ns, rfl, hn, Node.itemsAt?_of_group hn, Nat.zero_le _⟩
    · next ns hn =>
      obtain rfl := Option.some.inj hplace
      exact ⟨selected, .object, ns, rfl, hn, Node.itemsAt?_of_group hn, Nat.zero_le _⟩
    · split at hplace
      · next before step i below hsplit =>
        obtain rfl := Option.some.inj hplace
        obtain ⟨kind, ns, n, rfl, howner, hns, hn, -⟩ :=
          innermost_item h editableFields_subset hsplit
        exact ⟨before, kind, ns, rfl, howner, hns, (List.getElem?_eq_some_iff.1 hn).1⟩
      · next before step below _ hsplit =>
        obtain rfl := Option.some.inj hplace
        obtain ⟨kind, ns, rfl, howner, hns, -⟩ := innermost_list h editableFields_subset hsplit
        exact ⟨before, kind, ns, rfl, howner, hns, Nat.zero_le _⟩
      · cases hplace

/-- An insertion into the list of an array or an object writes one item more.  A
position beyond the end counts as the end. -/
theorem insert_eq_ok (node : Node) {owner : Path} {kind : GroupKind} {ns : List Node}
    {i : Nat} (hplace : insertionPlace? tree selected = some (owner ++ [Step.field kind.field], i))
    (howner : tree.nodeAt? owner = some (.group kind ns)) (hkind : kind = .array ∨ kind = .object) :
    ∃ item below rebuilt,
      (kind = .array ∧ item = node ∧ below = [] ∨
        kind = .object ∧ item = .unnamed node ∧ below = [.field PairKind.property.firstField]) ∧
      tree.put? (owner ++ [Step.field kind.field])
        (.items (Node.insertItem ns (min i ns.length) item)) = some rebuilt ∧
      insert node tree selected = .ok (.applied (.inserted i) ⟨some rebuilt,
        some (owner ++ [Step.field kind.field] ++ Step.index i :: below)⟩) := by
  have hns := Node.itemsAt?_of_group howner
  simp only [insert, hplace, List.dropLast_concat, howner]
  -- the owner of the list decides how the new node goes in
  rcases hkind with rfl | rfl
  · obtain ⟨rebuilt, hok, hput⟩ := Node.insertAt_clamped hns i node
    refine ⟨node, [], rebuilt, .inl ⟨rfl, rfl, rfl⟩, hput, ?_⟩
    simp [hok, bind, Except.bind]
  · obtain ⟨rebuilt, hok, hput⟩ := Node.insertAt_clamped hns i (.unnamed node)
    refine ⟨.unnamed node, _, rebuilt, .inr ⟨rfl, rfl, rfl⟩, hput, ?_⟩
    simp [hok, bind, Except.bind]

/-- An insertion into any other list declines. -/
theorem insert_of_other (node : Node) {owner : Path} {name : String} {i : Nat}
    (hplace : insertionPlace? tree selected = some (owner ++ [Step.field name], i))
    (howner : ∀ kind ns, tree.nodeAt? owner = some (.group kind ns) →
      kind ≠ .array ∧ kind ≠ .object) :
    insert node tree selected = .ok (.declined .noListAround) := by
  simp only [insert, hplace, List.dropLast_concat]
  split
  · next ns hn => exact absurd rfl (howner _ ns hn).1
  · next ns hn => exact absurd rfl (howner _ ns hn).2
  · rfl

/-- What an insertion into the list of a group comes to, whatever the position. -/
theorem insert_cases_of_place (node : Node) {owner : Path} {kind : GroupKind} {ns : List Node}
    {i : Nat} (hplace : insertionPlace? tree selected = some (owner ++ [Step.field kind.field], i))
    (howner : tree.nodeAt? owner = some (.group kind ns)) :
    insert node tree selected = .ok (.declined .noListAround) ∨
    ∃ item below rebuilt,
      (kind = .array ∧ item = node ∧ below = [] ∨
        kind = .object ∧ item = .unnamed node ∧ below = [.field PairKind.property.firstField]) ∧
      tree.put? (owner ++ [Step.field kind.field])
        (.items (Node.insertItem ns (min i ns.length) item)) = some rebuilt ∧
      insert node tree selected = .ok (.applied (.inserted i) ⟨some rebuilt,
        some (owner ++ [Step.field kind.field] ++ Step.index i :: below)⟩) := by
  by_cases hkind : kind = .array ∨ kind = .object
  · exact .inr (insert_eq_ok node hplace howner hkind)
  · refine .inl (insert_of_other node hplace fun kind' ns' hn => ?_)
    obtain ⟨rfl, -⟩ := Node.group.inj (Option.some.inj (howner.symm.trans hn))
    exact not_or.1 hkind

/-- What an insertion comes to: it declines, or writes one item more into an
array or an object. -/
theorem insert_cases (node : Node) (h : tree.resolves selected = true) :
    insert node tree selected = .ok (.declined .noListAround) ∨
    ∃ owner kind ns i item below rebuilt,
      insertionPlace? tree selected = some (owner ++ [Step.field kind.field], i) ∧
      tree.nodeAt? owner = some (.group kind ns) ∧ i ≤ ns.length ∧
      (kind = .array ∧ item = node ∧ below = [] ∨
        kind = .object ∧ item = .unnamed node ∧ below = [.field PairKind.property.firstField]) ∧
      tree.put? (owner ++ [Step.field kind.field]) (.items (Node.insertItem ns i item)) =
        some rebuilt ∧
      insert node tree selected = .ok (.applied (.inserted i) ⟨some rebuilt,
        some (owner ++ [Step.field kind.field] ++ Step.index i :: below)⟩) := by
  rcases hplace : insertionPlace? tree selected with - | ⟨list, i⟩
  · exact .inl (by simp only [insert, hplace])
  · obtain ⟨owner, kind, ns, rfl, howner, -, hi⟩ := insertionPlace?_eq_some h hplace
    rcases insert_cases_of_place node hplace howner with heq |
      ⟨item, below, rebuilt, hitem, hput, heq⟩
    · exact .inl heq
    · rw [Nat.min_eq_left hi] at hput
      exact .inr ⟨owner, kind, ns, i, item, below, rebuilt, rfl, howner, hi, hitem, hput, heq⟩

/-- What is selected of an inserted item, itself or its empty name, is there. -/
theorem resolves_inserted {kind : GroupKind} {node item : Node} {below : Path}
    (hitem : kind = .array ∧ item = node ∧ below = [] ∨
      kind = .object ∧ item = .unnamed node ∧ below = [.field PairKind.property.firstField]) :
    (Content.node item).Resolves below := by
  rcases hitem with ⟨-, rfl, rfl⟩ | ⟨-, rfl, rfl⟩
  · simp
  · exact .inl ⟨.string "", rfl⟩

theorem keepsSelection_insert (node : Node) (h : tree.resolves selected = true) :
    KeepsSelection ⟨tree, selected⟩ (insert node tree selected) := by
  rcases insert_cases node h with heq |
    ⟨owner, kind, ns, i, item, below, rebuilt, -, -, hi, hitem, hput, heq⟩
  · rw [heq]
    trivial
  · rw [heq]
    apply keepsSelection_put? hput
    exact Content.resolves_index (Node.getElem?_insertItem_self ns hi item)
      (resolves_inserted hitem)

/-! ### Deletion -/

/-- The deepest item of a selection, if it is there, is an item of a group. -/
theorem deepestItem?_eq_some {item : Path} {c : Content}
    (hitem : deepestItem? selected = some item) (hc : tree.get? item = some c) :
    ∃ owner kind ns i, item = owner ++ [Step.field kind.field] ++ [Step.index i] ∧
      tree.nodeAt? owner = some (.group kind ns) ∧ i < ns.length := by
  obtain ⟨⟨before, step, after⟩, hsplit, rfl⟩ := Option.map_eq_some_iff.1 hitem
  obtain ⟨-, hstep, -⟩ := Path.splitAtLast_eq_some hsplit
  cases step with
  | index i =>
    rw [Node.get?_append] at hc
    obtain ⟨d, hd, hchild⟩ := Option.bind_eq_some_iff.1 hc
    rw [Content.get?_singleton] at hchild
    obtain ⟨ns, n, rfl, hn, -⟩ := Content.child?_eq_some_index hchild
    obtain ⟨owner, kind, rfl, howner⟩ := owner_of_items (Node.itemsAt?_eq_some.2 hd)
    exact ⟨owner, kind, ns, i, rfl, howner, (List.getElem?_eq_some_iff.1 hn).1⟩
  | _ => simp [Step.isIndex] at hstep

/-- Without an item the whole document goes. -/
theorem delete_document (h : deepestItem? selected = none) :
    delete tree selected = .applied .documentDeleted ⟨some .null, some []⟩ := by
  unfold delete
  split
  · rfl
  · rw [h]

/-- An item that is not there stops the deletion, … -/
theorem delete_missing {item : Path}
    (hinner : ¬ (selected.length = 2 && selected.isAfterLast) = true)
    (hdeepest : deepestItem? selected = some item) (hitem : tree.get? item = none) :
    delete tree selected = .declined (.nothingToDelete selected) := by
  rw [delete, if_neg hinner, hdeepest]
  simp only [hitem, Option.isNone_none, if_true]

/-- … and one that is there is taken out of its group. -/
theorem delete_of_deepest {owner : Path} {kind : GroupKind} {ns : List Node} {i : Nat}
    (hinner : ¬ (selected.length = 2 && selected.isAfterLast) = true)
    (hdeepest : deepestItem? selected = some (owner ++ [Step.field kind.field] ++ [Step.index i]))
    (howner : tree.nodeAt? owner = some (.group kind ns)) (hi : i < ns.length) :
    ∃ rebuilt, tree.put? owner (.node (.group kind (ns.eraseIdx i))) = some rebuilt ∧
      delete tree selected = .applied .itemDeleted ⟨some rebuilt,
        some (if selected.isAfterLast then []
          else owner ++ (Node.group kind (ns.eraseIdx i)).entry)⟩ := by
  have hns := Node.itemsAt?_of_group howner
  have hput := Node.put?_deleteAt hns hi
  rw [Node.put?_items howner] at hput
  have hthere :
      (tree.get? (owner ++ [Step.field kind.field] ++ [Step.index i])).isNone = false := by
    rw [Node.get?_append, Node.itemsAt?_eq_some.1 hns, Option.bind_some,
      Content.get?_index (List.getElem?_eq_getElem hi)]
    rfl
  -- up from the item and down again enters the group in the new document
  have hup : moveUp (owner ++ [Step.field kind.field] ++ [Step.index i]) = owner :=
    moveUp_place owner _ _ (by simp)
  have hdown := moveDown_of_nodeAt? (Node.nodeAt?_eq_some.2 (Node.get?_put? hput))
  refine ⟨_, hput, ?_⟩
  rw [delete, if_neg hinner, hdeepest]
  simp only [hthere, Bool.false_eq_true, if_false, hup, hdown]

/-- What a deletion comes to: the whole document becomes null, the deepest item is
not there, or it is taken out of its group. -/
theorem delete_cases (tree : Node) (selected : Path) :
    delete tree selected = .applied .documentDeleted ⟨some .null, some []⟩ ∨
    delete tree selected = .declined (.nothingToDelete selected) ∨
    ∃ owner kind ns i rebuilt,
      deepestItem? selected = some (owner ++ [Step.field kind.field] ++ [Step.index i]) ∧
      tree.nodeAt? owner = some (.group kind ns) ∧ i < ns.length ∧
      tree.put? owner (.node (.group kind (ns.eraseIdx i))) = some rebuilt ∧
      delete tree selected = .applied .itemDeleted ⟨some rebuilt,
        some (if selected.isAfterLast then []
          else owner ++ (Node.group kind (ns.eraseIdx i)).entry)⟩ := by
  by_cases houter : (selected.length = 2 && selected.isAfterLast) = true
  · exact .inl (by rw [delete, if_pos houter])
  · rcases hitem : deepestItem? selected with - | item
    · exact .inl (delete_document hitem)
    · rcases hc : tree.get? item with - | c
      · exact .inr (.inl (delete_missing houter hitem hc))
      · obtain ⟨owner, kind, ns, i, rfl, howner, hi⟩ := deepestItem?_eq_some hitem hc
        obtain ⟨rebuilt, hput, heq⟩ := delete_of_deepest houter hitem howner hi
        exact .inr (.inr ⟨owner, kind, ns, i, rebuilt, rfl, howner, hi, hput, heq⟩)

/-- **A deletion leaves a valid selection behind**, whether there was one before or
not. -/
theorem keepsSelection_delete (tree : Node) (selected : Path) :
    KeepsSelection ⟨tree, selected⟩ (.ok (delete tree selected)) := by
  rcases delete_cases tree selected with heq | heq |
    ⟨owner, kind, ns, i, rebuilt, -, -, -, hput, heq⟩
  · rw [heq]
    rfl
  · rw [heq]
    trivial
  · rw [heq]
    split
    · exact Node.resolves_nil
    · exact keepsSelection_put? hput (Node.resolves_iff.1 (Node.resolves_entry _)) _

/-! ### Moving an item -/

/-- What a move comes to: it declines, or the new selection leads on from the item as
the old one did. -/
theorem move_cases (direction : Vertical) (tree : Node) (selected : Path) :
    (∃ reason, move direction tree selected = .ok (.declined reason)) ∨
    ∃ effect rebuilt target,
      move direction tree selected = .ok (.applied effect ⟨some rebuilt, some target⟩) ∧
      rebuilt.resolves target = tree.resolves selected := by
  rcases move_declined_or_shifts direction ⟨tree, selected⟩ with hdeclined |
    ⟨x, g, effect, g', s', hs, -, hs', hmove⟩
  · exact .inl hdeclined
  · exact .inr ⟨effect, s'.tree, s'.selected, hmove,
      Bool.eq_iff_iff.2 (hs'.resolves_iff.trans hs.resolves_iff.symm)⟩

theorem keepsSelection_move (direction : Vertical) (h : tree.resolves selected = true) :
    KeepsSelection ⟨tree, selected⟩ (move direction tree selected) := by
  rcases move_cases direction tree selected with ⟨reason, heq⟩ |
    ⟨effect, rebuilt, target, heq, hres⟩
  · rw [heq]
    trivial
  · rw [heq]
    exact hres.trans h

/-! ### The selected node -/

/-- A replacement writes the selected node, … -/
theorem replace_eq_ok {old : Node} (hold : tree.nodeAt? selected = some old) (node : Node)
    (below : Path) :
    ∃ rebuilt, tree.put? selected (.node node) = some rebuilt ∧
      replace node below tree selected =
        .ok (.applied .replaced ⟨some rebuilt, some (selected ++ below)⟩) := by
  obtain ⟨rebuilt, hok, hput⟩ := Node.set_eq_ok (.node node) (Node.nodeAt?_eq_some.1 hold) rfl
  have hget := Node.nodeAt?_eq_some.1 hold
  exact ⟨rebuilt, hput, by simp [replace, hget, hok, bind, Except.bind]⟩

/-- … declines if there is nothing, and misplaces the node where something else is. -/
theorem replace_cases (node : Node) (below : Path) (tree : Node) (selected : Path) :
    (tree.get? selected = none ∧
      replace node below tree selected = .ok (.declined (.nothingToReplace selected))) ∨
    (∃ c, tree.get? selected = some c ∧ c.node? = none ∧
      replace node below tree selected =
        .ok (.misplaced .replaced node selected (selected ++ below))) ∨
    ∃ old rebuilt, tree.nodeAt? selected = some old ∧
      tree.put? selected (.node node) = some rebuilt ∧
      replace node below tree selected =
        .ok (.applied .replaced ⟨some rebuilt, some (selected ++ below)⟩) := by
  rcases hold : tree.get? selected with - | c
  · exact .inl ⟨rfl, by simp [replace, hold]⟩
  · cases c with
    | node old =>
      have hnode := Node.nodeAt?_eq_some.2 hold
      obtain ⟨rebuilt, hput, heq⟩ := replace_eq_ok hnode node below
      exact .inr (.inr ⟨old, rebuilt, hnode, hput, heq⟩)
    | _ => exact .inr (.inl ⟨_, rfl, rfl, by simp [replace, hold]⟩)

theorem keepsSelection_replace {node : Node} {below : Path} (hs : tree.resolves selected = true)
    (h : node.resolves below = true) :
    KeepsSelection ⟨tree, selected⟩ (replace node below tree selected) := by
  rcases replace_cases node below tree selected with
    ⟨-, heq⟩ | ⟨c, hc, hnone, -⟩ | ⟨old, rebuilt, -, hput, heq⟩
  · rw [heq]
    trivial
  · -- nothing but a node stands at a selection
    rcases Node.get?_of_resolves hs with hget | ⟨n, hget⟩
    · cases hget.symm.trans hc
    · obtain rfl := Option.some.inj (hget.symm.trans hc)
      cases hnone
  · rw [heq]
    exact keepsSelection_put? hput (Node.resolves_iff.1 h) _

/-- Writing a field of the selected node is writing the node. -/
theorem set_field_eq_ok {name : String} {old new : Content}
    (h : tree.get? (selected ++ [Step.field name]) = some old) (hsort : old.sort = new.sort) :
    ∃ node node' rebuilt, tree.nodeAt? selected = some node ∧
      node.withField? name new = some node' ∧
      tree.put? selected (.node node') = some rebuilt ∧
      tree.set (selected ++ [Step.field name]) new = .ok rebuilt := by
  obtain ⟨rebuilt, hok, hput⟩ := Node.set_eq_ok new h hsort
  rw [Node.get?_append] at h
  obtain ⟨c, hc, hfield⟩ := Option.bind_eq_some_iff.1 h
  rw [Content.get?_singleton] at hfield
  obtain ⟨node, rfl, hfield⟩ := Content.child?_eq_some_field hfield
  obtain ⟨node', hnode'⟩ := Node.exists_withField? hfield hsort
  have hwrite : (Content.node node).put? [.field name] new = some (.node node') :=
    Content.put?_cons_eq_some.2 ⟨old, new, hfield, rfl, by simp [Content.withChild?, hnode']⟩
  refine ⟨node, node', rebuilt, Node.nodeAt?_eq_some.2 hc, hnode', ?_, hok⟩
  rw [← hput]
  exact (Node.put?_append hc hwrite).symm

/-- A new tree in which the selected node is new, and the same selection. -/
theorem keepsSelection_put?_selected {node : Node}
    (h : tree.put? selected (.node node) = some rebuilt) (effect : Effect) :
    KeepsSelection ⟨tree, selected⟩ (.ok (.applied effect ⟨some rebuilt, none⟩)) :=
  Node.resolves_of_nodeAt? (Node.nodeAt?_eq_some.2 (Node.get?_put? h))

/-- Whether a revision gives the value of the selected node, if it has one, a
value of the same sort, or else fails over something else than a path. -/
def KeepsSort (revise : Content → Except EditError Content) (s : Snapshot) : Prop :=
  ∀ old, s.tree.get? (s.selected ++ [.field "value"]) = some old →
    match revise old with
    | .ok new => old.sort = new.sort
    | .error cause => isPathFailure cause = false

theorem keepsSelection_updateValue {revise : Content → Except EditError Content}
    (hrevise : KeepsSort revise ⟨tree, selected⟩) :
    KeepsSelection ⟨tree, selected⟩ (updateValue revise tree selected) := by
  unfold updateValue
  simp only
  split
  · trivial
  · next old hold =>
    have hkeep := hrevise old hold
    rcases hnew : revise old with cause | new
    · rw [hnew] at hkeep
      exact hkeep
    · rw [hnew] at hkeep
      obtain ⟨_, node', rebuilt, -, -, hput, hok⟩ := set_field_eq_ok hold hkeep
      simp only [bind, Except.bind, hok]
      exact keepsSelection_put?_selected hput _

/-- A text is written into the selected leaf, … -/
theorem setText_eq_ok {kind : LeafKind} {old : String}
    (hleaf : tree.nodeAt? selected = some (.leaf kind old)) (text : String) :
    ∃ rebuilt, tree.put? selected (.node (.leaf kind text)) = some rebuilt ∧
      setText text tree selected = .ok (.applied .textEdited ⟨some rebuilt, none⟩) := by
  have hold : tree.get? (selected ++ [Step.field kind.field]) = some (.text old) := by
    rw [Node.get?_append, Node.nodeAt?_eq_some.1 hleaf]
    simp [Node.field?]
  have hsort : (Content.text old).sort = (Content.text text).sort := rfl
  obtain ⟨node, node', rebuilt, hnode, hnode', hput, hok⟩ := set_field_eq_ok hold hsort
  obtain rfl := Option.some.inj (hleaf.symm.trans hnode)
  obtain rfl : .leaf kind text = node' := by simpa [Node.withField?] using hnode'
  exact ⟨rebuilt, hput, by simp [setText, hleaf, hok, bind, Except.bind]⟩

/-- … and nowhere else. -/
theorem setText_cases (text : String) (tree : Node) (selected : Path) :
    (∃ reason, setText text tree selected = .ok (.declined reason)) ∨
    ∃ kind old rebuilt, tree.nodeAt? selected = some (.leaf kind old) ∧
      tree.put? selected (.node (.leaf kind text)) = some rebuilt ∧
      setText text tree selected = .ok (.applied .textEdited ⟨some rebuilt, none⟩) := by
  by_cases hleaf : ∃ kind old, tree.nodeAt? selected = some (.leaf kind old)
  · obtain ⟨kind, old, hleaf⟩ := hleaf
    obtain ⟨rebuilt, hput, heq⟩ := setText_eq_ok hleaf text
    exact .inr ⟨kind, old, rebuilt, hleaf, hput, heq⟩
  · refine .inl ?_
    unfold setText
    split
    · exact ⟨_, rfl⟩
    · next kind old heq => exact absurd ⟨kind, old, heq⟩ hleaf
    · exact ⟨_, rfl⟩

theorem keepsSelection_setText (text : String) :
    KeepsSelection ⟨tree, selected⟩ (setText text tree selected) := by
  rcases setText_cases text tree selected with ⟨reason, heq⟩ | ⟨kind, old, rebuilt, -, hput, heq⟩
  · rw [heq]
    trivial
  · rw [heq]
    exact keepsSelection_put?_selected hput _

/-- Only a declaration has a keyword. -/
theorem field?_keywordField {n : Node} {c : Content} (h : n.field? keywordField = some c) :
    ∃ keyword ns, n = .declaration keyword ns ∧ c = .text keyword := by
  obtain ⟨n', hrewrites⟩ := Node.Rewrites.of_field? h (rfl : c.sort = c.sort)
  generalize hname : keywordField = name at hrewrites
  cases hrewrites with
  | value a b => simp [keywordField] at hname
  | text kind s t => cases kind <;> simp [keywordField, LeafKind.field] at hname
  | first kind a b m => cases kind <;> simp [keywordField, PairKind.firstField] at hname
  | second kind a b m => cases kind <;> simp [keywordField, PairKind.secondField] at hname
  | items kind ns ms => exact absurd hname.symm kind.field_ne_keywordField
  | keyword s t ns => exact ⟨s, ns, rfl, rfl⟩

/-- A keyword is written into the selected declaration, and nowhere else. -/
theorem changeKeyword_cases (keyword : String) (tree : Node) (selected : Path) :
    changeKeyword keyword tree selected = .ok (.declined .notADeclaration) ∨
    ∃ old ns rebuilt, tree.nodeAt? selected = some (.declaration old ns) ∧
      tree.put? selected (.node (.declaration keyword ns)) = some rebuilt ∧
      changeKeyword keyword tree selected =
        .ok (.applied (.keywordSet keyword) ⟨some rebuilt, none⟩) := by
  rcases hold : tree.get? (selected ++ [Step.field keywordField]) with - | old
  · exact .inl (by simp only [changeKeyword, hold])
  · have hfield := hold
    rw [Node.get?_append] at hfield
    obtain ⟨c, hc, hfield⟩ := Option.bind_eq_some_iff.1 hfield
    rw [Content.get?_singleton] at hfield
    obtain ⟨node, rfl, hfield⟩ := Content.child?_eq_some_field hfield
    obtain ⟨before, ns, rfl, rfl⟩ := field?_keywordField hfield
    have hsort : (Content.text before).sort = (Content.text keyword).sort := rfl
    obtain ⟨node, node', rebuilt, hnode, hnode', hput, hok⟩ := set_field_eq_ok hold hsort
    obtain rfl := Option.some.inj ((Node.nodeAt?_eq_some.2 hc).symm.trans hnode)
    obtain rfl : .declaration keyword ns = node' := by simpa [Node.withField?] using hnode'
    exact .inr ⟨before, ns, rebuilt, hnode, hput,
      by simp [changeKeyword, hold, hok, bind, Except.bind]⟩

theorem keepsSelection_changeKeyword (keyword : String) :
    KeepsSelection ⟨tree, selected⟩ (changeKeyword keyword tree selected) := by
  rcases changeKeyword_cases keyword tree selected with heq | ⟨old, ns, rebuilt, -, hput, heq⟩
  · rw [heq]
    trivial
  · rw [heq]
    exact keepsSelection_put?_selected hput _

theorem keepsSelection_addToNumber (increment : Data) :
    KeepsSelection ⟨tree, selected⟩ (addToNumber increment tree selected) := by
  unfold addToNumber
  split
  · next text hnumber =>
    refine keepsSelection_updateValue fun old hold => ?_
    have hold : old = .text text := by
      rw [Node.get?_append, Node.nodeAt?_eq_some.1 hnumber] at hold
      simpa [Node.field?, LeafKind.field] using hold.symm
    subst hold
    rcases increment.addend with cause | term <;> rfl
  · trivial

/-! ### All edits -/

/-- Whether an edit is within its contract on a snapshot: the selection that
comes with a replacement is one of the new node, and a revision of a value
keeps its sort.  All other edits take anything. -/
def Edit.IsAdmissible (edit : Edit) (s : Snapshot) : Prop :=
  match edit with
  | .replace node below => node.resolves below = true
  | .updateValue revise => KeepsSort revise s
  | _ => True

/-- **Every edit keeps a valid selection valid**, none misplaces a node, and none fails
over a path. -/
theorem Edit.keepsSelection_run {edit : Edit} {s : Snapshot} (hs : s.resolves = true)
    (hedit : edit.IsAdmissible s) : KeepsSelection s (edit.run s) := by
  cases edit with
  | navigate name =>
    simp only [Edit.run]
    rcases hname : Direction.ofName name with cause | direction
    · unfold Direction.ofName at hname
      split at hname
      · cases hname
      · obtain rfl := Except.error.inj hname
        rfl
    · exact keepsSelection_moveSelection direction hs
  | select target => exact keepsSelection_select target
  | insert node => exact keepsSelection_insert node hs
  | delete => exact keepsSelection_delete s.tree s.selected
  | move name =>
    simp only [Edit.run]
    split
    · exact keepsSelection_move _ hs
    · trivial
  | replace node below => exact keepsSelection_replace hs hedit
  | updateValue revise => exact keepsSelection_updateValue hedit
  | setText text => exact keepsSelection_setText text
  | changeKeyword keyword => exact keepsSelection_changeKeyword keyword
  | setBoolean value => exact keepsSelection_replace hs rfl
  | addToNumber increment => exact keepsSelection_addToNumber increment
  | toText => exact keepsSelection_replace hs rfl
  | toNumber => exact keepsSelection_replace hs rfl
  | toArray =>
    simp only [Edit.run, Editing.toArray]
    split
    · trivial
    · exact keepsSelection_replace hs rfl
  | toObject =>
    simp only [Edit.run, Editing.toObject]
    split
    · trivial
    · exact keepsSelection_replace hs rfl
  | toNull => exact keepsSelection_replace hs rfl
  | reset tree => exact Node.resolves_nil

end StructuralEditor.Editing
