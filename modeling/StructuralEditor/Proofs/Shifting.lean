/-
StructuralEditor/Proofs/Shifting.lean

Insertions and deletions are inverse, and shift what stands behind.

Both tie two documents of which one has an item more: an insertion fills a gap of the
shorter one, a deletion leaves it (`Gap.Fills`).  So there is one thing to say about
either, and it is said of the gap: the two documents hold the same, but for the item and
for the positions behind it (`Gap.Displaces`).  That the operations are inverse says then
that each of them goes one way between two such documents.

Any integer serves as the position of an insertion; it counts as the nearest place that
the list has.
-/
import StructuralEditor.Proofs.Gaps
import StructuralEditor.Proofs.Independence

namespace StructuralEditor

open Document

namespace Document.Node

/-! ### Positions -/

section

variable {ns : List Node} {i m : Nat}

/-- An item that is put in leaves those ahead of it where they are, … -/
theorem getElem?_insertItem_of_lt (hi : i ≤ ns.length) (hm : m < i) (x : Node) :
    (insertItem ns i x)[m]? = ns[m]? := by
  have hlen : (ns.take i).length = i := by simp [hi]
  rw [insertItem, List.getElem?_append_left (by omega), List.getElem?_take_of_lt hm]

/-- … and those behind it go one place further. -/
theorem getElem?_insertItem_succ (hi : i ≤ ns.length) (hm : i ≤ m) (x : Node) :
    (insertItem ns i x)[m + 1]? = ns[m]? := by
  have hlen : (ns.take i).length = i := by simp [hi]
  rw [insertItem, List.getElem?_append_right (by omega), hlen, Nat.sub_add_comm hm,
    List.getElem?_cons_succ, List.getElem?_drop, Nat.add_sub_cancel' hm]

theorem clampPosition_le (size : Nat) (i : Int) : clampPosition size i ≤ size :=
  Nat.min_le_right _ _

theorem clampPosition_clampPosition (size : Nat) (i : Int) :
    clampPosition size (clampPosition size i) = clampPosition size i := by
  rw [clampPosition, clampPosition, Int.toNat_natCast, Nat.min_assoc, Nat.min_self]

/-- A clamped position is between the head of the list and the place after its last
item. -/
theorem clampPosition_eq (size : Nat) (i : Int) :
    clampPosition size i = (max 0 (min i size)).toNat := by
  rw [clampPosition]
  omega

end

/-! ### Failures -/

section

variable {tree : Node} {list p : Path} {ns : List Node}

theorem insertAt_clampPosition (hlist : tree.itemsAt? list = some ns) (i : Int) (x : Node) :
    tree.insertAt list i x = tree.insertAt list (clampPosition ns.length i) x := by
  simp only [insertAt, hlist, clampPosition_clampPosition]

/-- An insertion fails exactly where there is no list. -/
theorem insertAt_eq_error_iff (i : Int) (x : Node) (cause : EditError) :
    tree.insertAt list i x = .error cause ↔
      tree.itemsAt? list = none ∧ cause = .notACollection list := by
  rcases hlist : tree.itemsAt? list with - | ns
  · simp [insertAt, hlist, eq_comm]
  · obtain ⟨tree', hok, -⟩ := insertAt_eq_ok hlist (clampPosition_le ns.length i) x
    rw [← insertAt_clampPosition hlist] at hok
    simp [hok]

/-- A deletion of no item changes nothing. -/
theorem deleteAt_eq_self
    (h : ∀ list k ns, p = list ++ [Step.index k] → tree.itemsAt? list = some ns → ns.length ≤ k) :
    tree.deleteAt p = tree := by
  unfold deleteAt
  split
  · next k hlast =>
    split
    · next ns hns =>
      obtain ⟨list, rfl⟩ := List.getLast?_eq_some_iff.1 hlast
      rw [List.dropLast_concat] at hns
      rw [if_neg (Nat.not_lt.2 (h list k ns rfl hns))]
    · rfl
  · rfl

/-- What an item of a list has below it. -/
theorem get?_item (hlist : tree.itemsAt? list = some ns) (m : Nat) (below : Path) :
    tree.get? (list ++ Step.index m :: below) = ns[m]?.bind (·.get? below) := by
  rw [get?_append, itemsAt?_eq_some.1 hlist, Option.bind_some, Content.get?_cons,
    Content.child?_index]
  rcases ns[m]? with - | n <;> rfl

end

end Document.Node

namespace Editing

open Document.Node

/-! ### Two documents that differ by an item -/

/-- What a document has in common with its rest.  Ahead of the gap the items of the list
stand at the same positions, behind it they stand one place further, and every path that
is independent of the list leads to the same. -/
structure Gap.Displaces (g : Gap) (rest item tree : Node) : Prop where
  ahead : ∀ m < g.position, ∀ below,
    tree.get? (g.list ++ Step.index m :: below) = rest.get? (g.list ++ Step.index m :: below)
  inside : ∀ below, tree.get? (g.list ++ Step.index g.position :: below) = item.get? below
  behind : ∀ m, g.position ≤ m → ∀ below,
    tree.get? (g.list ++ Step.index (m + 1) :: below) = rest.get? (g.list ++ Step.index m :: below)
  apart : ∀ p, ¬ g.list <+: p → ¬ p <+: g.list → tree.get? p = rest.get? p

/-- **An item in a gap shifts what stands behind it**, and nothing else. -/
theorem Gap.Fills.displaces {g : Gap} {rest item tree : Node} (h : g.Fills rest item tree) :
    g.Displaces rest item tree := by
  have ⟨hlist, hle, hput⟩ := h
  have hitems := h.itemsAt? hlist
  refine ⟨fun m hm below => ?_, fun below => ?_, fun m hm below => ?_, fun p hlp hpl => ?_⟩
  · rw [get?_item hitems, get?_item hlist, getElem?_insertItem_of_lt hle hm]
  · rw [get?_item hitems, getElem?_insertItem_self _ hle, Option.bind_some]
  · rw [get?_item hitems, get?_item hlist, getElem?_insertItem_succ hle hm]
  · exact Content.get?_put?_of_forks (Path.forks_of_not_isPrefix hlp hpl) (put?_eq_some.1 hput)

/-- Every integer is a position for an insertion, once it is clamped to the list. -/
theorem exists_fills_clamped {rest : Node} {list : Path} {ns : List Node}
    (hlist : rest.itemsAt? list = some ns) (i : Int) (item : Node) :
    ∃ tree, rest.insertAt list i item = .ok tree ∧
      Gap.Fills ⟨list, (max 0 (min i ns.length)).toNat⟩ rest item tree := by
  rw [insertAt_clampPosition hlist, ← clampPosition_eq]
  exact exists_fills hlist (clampPosition_le ns.length i) item

/-- **Insertions and deletions are inverse, and shift only what stands behind.**  In a
list an item can be put at every place and taken out again, and every item can be taken
out and put back.  The items ahead of it stay where they are, those behind it go one
place further or one back, and nothing else changes.  An insertion fails exactly where
there is no list, and a deletion where there is no item changes nothing. -/
theorem insertion_and_deletion_are_inverse (tree : Node) (list : Path) :
    (∀ ns, tree.itemsAt? list = some ns →
      (∀ (i : Int) (x : Node), ∃ tree', tree.insertAt list i x = .ok tree' ∧
        tree'.deleteAt (list ++ [Step.index (max 0 (min i ns.length)).toNat]) = tree ∧
        Gap.Displaces ⟨list, (max 0 (min i ns.length)).toNat⟩ tree x tree') ∧
      ∀ k < ns.length, ∃ n, tree.get? (list ++ [Step.index k]) = some (.node n) ∧
        (tree.deleteAt (list ++ [Step.index k])).insertAt list k n = .ok tree ∧
        Gap.Displaces ⟨list, k⟩ (tree.deleteAt (list ++ [Step.index k])) n tree) ∧
    (∀ (i : Int) (x : Node) (cause : EditError), tree.insertAt list i x = .error cause ↔
      tree.itemsAt? list = none ∧ cause = .notACollection list) ∧
    ∀ p, (∀ list k ns, p = list ++ [Step.index k] → tree.itemsAt? list = some ns → ns.length ≤ k) →
      tree.deleteAt p = tree := by
  refine ⟨fun ns hlist => ⟨fun i x => ?_, fun k hk => ?_⟩, insertAt_eq_error_iff,
    fun p => deleteAt_eq_self⟩
  · obtain ⟨tree', hok, hfills⟩ := exists_fills_clamped hlist i x
    exact ⟨tree', hok, hfills.deleteAt, hfills.displaces⟩
  · have hn := List.getElem?_eq_getElem hk
    have hfills := fills_deleteAt hlist hn
    exact ⟨ns[k], nodeAt?_eq_some.1 (nodeAt?_index hlist hn), hfills.insertAt, hfills.displaces⟩

/-- In front of the two items of an array in an object, before the head of the array; and
without the first of them. -/
theorem insertion_and_deletion_are_inverse_nested :
    let numbers := [Node.number "1", .array [.number "2"]]
    let tree := Node.program [.object [.property (.string "a") (.array numbers)]]
    let value : Path :=
      [.field "body", .index 0, .field "properties", .index 0, .field "value"]
    let list : Path := value ++ [Step.field "elements"]
    let inner : Path := [.field "elements", .index 0]
    let rest := tree.deleteAt (list ++ [Step.index 0])
    tree.itemsAt? list = some numbers ∧
      (∃ tree', tree.insertAt list (-4) .null = .ok tree' ∧
        tree'.deleteAt (list ++ [Step.index 0]) = tree ∧
        tree'.get? (list ++ Step.index 2 :: inner) = some (.node (.number "2"))) ∧
      (∃ n, rest.insertAt list 0 n = .ok tree) ∧
      rest.get? (list ++ Step.index 0 :: inner) = some (.node (.number "2")) ∧
      tree.insertAt value 0 .null = .error (.notACollection value) ∧
      tree.deleteAt (list ++ [Step.index 2]) = tree := by
  intro numbers tree value list inner rest
  have hlist : tree.itemsAt? list = some numbers := by decide +kernel
  have hvalue : tree.itemsAt? value = none := by decide +kernel
  have hinner : tree.get? (list ++ Step.index 1 :: inner) = some (.node (.number "2")) := by
    decide +kernel
  obtain ⟨hitems, -, hnone⟩ := insertion_and_deletion_are_inverse tree list
  obtain ⟨hinserts, hdeletes⟩ := hitems numbers hlist
  obtain ⟨tree', hok, hback, hdisplaces⟩ := hinserts (-4) .null
  obtain ⟨n, -, hagain, hdisplaces'⟩ := hdeletes 0 (by decide)
  refine ⟨hlist, ⟨tree', hok, hback, ?_⟩, ⟨n, hagain⟩, ?_, ?_, hnone _ ?_⟩
  · rw [hdisplaces.behind 1 (by decide), hinner]
  · rw [← hdisplaces'.behind 0 (by decide), hinner]
  · obtain ⟨-, hfails, -⟩ := insertion_and_deletion_are_inverse tree value
    exact (hfails 0 .null _).2 ⟨hvalue, rfl⟩
  · -- the list has two items, so none stands at position 2
    intro list' k ns heq hns
    obtain ⟨rfl, hk⟩ := List.append_inj' heq rfl
    obtain rfl := Step.index.inj (List.cons.inj hk).1
    obtain rfl := Option.some.inj (hlist.symm.trans hns)
    decide

end Editing

end StructuralEditor
