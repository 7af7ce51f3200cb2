/-
StructuralEditor/Proofs/Retracing.lean

Moves that undo each other.

Up takes back a step down: what down adds to a selection is a field of the node
there, or a field with a place of its list, and up drops exactly that
(`moveUp_moveDown`).

Left takes back a step right and right one left, as long as the step leads
somewhere.  For this the places of a list with `n` items are numbered from `0` to
`n`, where `n` is the place after the last item (`placeAt`).  Right adds one to the
number and left takes one from it (`navigate_right_placeAt`, `navigate_left_placeAt`),
right stops at `n` and left at `0`; so a run of the same moves adds or takes their
number (`navigateAll_right`, `navigateAll_left`).
-/
import StructuralEditor.Proofs.Reachability

namespace StructuralEditor.Document

variable {tree : Node} {p list : Path} {ns : List Node}

/-! ### Down and up -/

/-- Going up drops what going down has added. -/
theorem moveUp_entry (p : Path) {n : Node} (h : n.entry ≠ []) : moveUp (p ++ n.entry) = p := by
  cases n with
  | pair kind a b => simp [Node.entry, moveUp]
  | group kind items => cases items <;> simp [Node.entry, moveUp]
  | _ => exact absurd rfl h

/-- **Up takes back a step down.** -/
theorem moveUp_moveDown (h : moveDown tree p ≠ p) : moveUp (moveDown tree p) = p := by
  rcases hn : tree.nodeAt? p with - | n
  · refine absurd ?_ h
    rw [moveDown, hn]
    exact ite_self p
  · rw [moveDown_of_nodeAt? hn] at h ⊢
    exact moveUp_entry p fun hentry => h (by rw [hentry, List.append_nil])

/-! ### The places of a list by number -/

/-- The place with number `k` of a list of `size` items: an item, or behind the items
the place after the last one. -/
def placeAt (size k : Nat) : Step :=
  if k < size then .index k else .afterLast

theorem placeAt_of_lt {size k : Nat} (h : k < size) : placeAt size k = .index k :=
  if_pos h

theorem placeAt_of_ge {size k : Nat} (h : size ≤ k) : placeAt size k = .afterLast :=
  if_neg (by omega)

theorem placeAt_eq_index {size k i : Nat} : placeAt size k = .index i ↔ k < size ∧ k = i := by
  rcases Nat.lt_or_ge k size with hk | hk
  · simp [placeAt_of_lt hk, hk]
  · simp [placeAt_of_ge hk, Nat.not_lt.2 hk]

theorem placeAt_eq_afterLast {size k : Nat} : placeAt size k = .afterLast ↔ size ≤ k := by
  simp [placeAt]

theorem placeAt_ne_field (size k : Nat) (name : String) : placeAt size k ≠ .field name := by
  unfold placeAt
  split <;> simp

/-- A selection in a list is one of its places. -/
theorem exists_placeAt {place : Step} (hlist : tree.itemsAt? list = some ns)
    (h : tree.resolves (list ++ [place]) = true) :
    ∃ k ≤ ns.length, place = placeAt ns.length k := by
  have hplace : (Content.items ns).Resolves [place] :=
    (Content.resolves_append_iff (Node.itemsAt?_eq_some.1 hlist) (List.cons_ne_nil _ _)).1
      (Node.resolves_iff.1 h)
  rcases hplace.of_items with heq | ⟨i, n, below, heq, hn, -⟩
  · obtain rfl := (List.cons.inj heq).1
    exact ⟨ns.length, Nat.le_refl _, (placeAt_of_ge (Nat.le_refl _)).symm⟩
  · obtain rfl := (List.cons.inj heq).1
    obtain ⟨hi, -⟩ := List.getElem?_eq_some_iff.1 hn
    exact ⟨i, Nat.le_of_lt hi, (placeAt_of_lt hi).symm⟩

/-! ### Left and right -/

/-- Going right adds one to the number of the place, … -/
theorem navigate_right_placeAt (hlist : tree.itemsAt? list = some ns) (k : Nat) :
    navigate .right tree (list ++ [placeAt ns.length k]) =
      .ok (list ++ [placeAt ns.length (k + 1)]) := by
  rw [navigate, moveSideways_place placeRight? hlist (placeAt_ne_field _ _)]
  rcases Nat.lt_or_ge k ns.length with hk | hk
  · rw [placeAt_of_lt hk]
    rfl
  · rw [placeAt_of_ge hk, placeAt_of_ge (by omega)]
    rfl

/-- … and going left takes one from it. -/
theorem navigate_left_placeAt (hlist : tree.itemsAt? list = some ns) {k : Nat}
    (hk : k ≤ ns.length) :
    navigate .left tree (list ++ [placeAt ns.length k]) =
      .ok (list ++ [placeAt ns.length (k - 1)]) := by
  rw [navigate, moveSideways_place placeLeft? hlist (placeAt_ne_field _ _)]
  rcases Nat.lt_or_eq_of_le hk with hlt | rfl
  · rw [placeAt_of_lt hlt, placeAt_of_lt (by omega)]
    cases k with
    | zero => rfl
    | succ i => simp [placeLeft?, show i < ns.length by omega, Except.map]
  · -- in an empty list the place after the last item is the only one
    rw [placeAt_of_ge (Nat.le_refl _)]
    by_cases hsize : ns.length = 0
    · simp [placeLeft?, placeAt, hsize, Except.map]
    · simp [placeLeft?, placeAt, hsize, Except.map, show ns.length - 1 < ns.length by omega]

/-- Several steps to the right add their number, … -/
theorem navigateAll_right (hlist : tree.itemsAt? list = some ns) (k i : Nat) :
    navigateAll (List.replicate k .right) tree (list ++ [placeAt ns.length i]) =
      .ok (list ++ [placeAt ns.length (i + k)]) := by
  induction k generalizing i with
  | zero => rfl
  | succ k ih =>
    rw [List.replicate_succ, navigateAll_cons (navigate_right_placeAt hlist i), ih,
      Nat.add_right_comm, Nat.add_assoc]

/-- … and several steps to the left take it. -/
theorem navigateAll_left (hlist : tree.itemsAt? list = some ns) (k : Nat) {i : Nat}
    (hi : i ≤ ns.length) :
    navigateAll (List.replicate k .left) tree (list ++ [placeAt ns.length i]) =
      .ok (list ++ [placeAt ns.length (i - k)]) := by
  induction k generalizing i with
  | zero => rfl
  | succ k ih =>
    rw [List.replicate_succ, navigateAll_cons (navigate_left_placeAt hlist hi), ih (by omega),
      Nat.sub_sub, Nat.add_comm 1 k]

/-- **Left takes back a step right**, … -/
theorem navigate_left_of_right {k : Nat} (hlist : tree.itemsAt? list = some ns)
    (hk : k ≤ ns.length) (hne : placeAt ns.length (k + 1) ≠ placeAt ns.length k) :
    navigate .left tree (list ++ [placeAt ns.length (k + 1)]) =
      .ok (list ++ [placeAt ns.length k]) := by
  rcases Nat.lt_or_eq_of_le hk with hlt | rfl
  · exact navigate_left_placeAt hlist hlt
  · exact absurd ((placeAt_of_ge (by omega)).trans (placeAt_of_ge (Nat.le_refl _)).symm) hne

/-- … **and right a step left.** -/
theorem navigate_right_of_left {k : Nat} (hlist : tree.itemsAt? list = some ns)
    (hne : placeAt ns.length (k - 1) ≠ placeAt ns.length k) :
    navigate .right tree (list ++ [placeAt ns.length (k - 1)]) =
      .ok (list ++ [placeAt ns.length k]) := by
  cases k with
  | zero => exact absurd rfl hne
  | succ k => exact navigate_right_placeAt hlist k

/-! ### All moves -/

/-- **Moves undo each other.**  From a valid selection, up leads back from below if down
has led away.  From a place of a list, left leads back if right has led away, and right
if left has.  From the first item, `k` steps to the right select the item `k`, or the
place after the last item if there is no such item; from that place, `k` steps to the
left select the `k`th item from the end, or the first one if there are fewer. -/
theorem moves_undo_each_other (h : tree.resolves p = true) :
    (∃ below, navigate .down tree p = .ok below ∧
      (below ≠ p → navigate .up tree below = .ok p)) ∧
    ∀ (list : Path) (ns : List Node) (place : Step), tree.itemsAt? list = some ns → p = list ++ [place] →
      (∃ right, navigate .right tree p = .ok right ∧
        (right ≠ p → navigate .left tree right = .ok p)) ∧
      (∃ left, navigate .left tree p = .ok left ∧
        (left ≠ p → navigate .right tree left = .ok p)) ∧
      (place = .index 0 → ∀ k, navigateAll (List.replicate k .right) tree p =
        .ok (list ++ [if k < ns.length then Step.index k else .afterLast])) ∧
      (place = .afterLast → ∀ k,
        (1 ≤ k → k ≤ ns.length → navigateAll (List.replicate k .left) tree p =
          .ok (list ++ [Step.index (ns.length - k)])) ∧
        (ns.length < k → 1 ≤ ns.length → navigateAll (List.replicate k .left) tree p =
          .ok (list ++ [Step.index 0]))) := by
  refine ⟨⟨_, rfl, fun hne => congrArg Except.ok (moveUp_moveDown hne)⟩, ?_⟩
  rintro list ns place hlist rfl
  obtain ⟨k, hk, rfl⟩ := exists_placeAt hlist h
  have hsnoc : ∀ {a b : Step}, list ++ [a] ≠ list ++ [b] → a ≠ b := by
    rintro a _ hne rfl
    exact hne rfl
  refine ⟨⟨_, navigate_right_placeAt hlist k, fun hne => ?right⟩,
    ⟨_, navigate_left_placeAt hlist hk, fun hne => ?left⟩,
    fun hfirst n => ?fromFirst, fun hlast n => ⟨fun hpos hle => ?toItem, fun hlt hpos => ?toFirst⟩⟩
  case right => exact navigate_left_of_right hlist hk (hsnoc hne)
  case left => exact navigate_right_of_left hlist (hsnoc hne)
  case fromFirst =>
    obtain ⟨-, rfl⟩ := placeAt_eq_index.1 hfirst
    rw [navigateAll_right hlist, Nat.zero_add]
    rfl
  all_goals
    -- the place after the last item has the number of items as its number
    obtain rfl : k = ns.length := Nat.le_antisymm hk (placeAt_eq_afterLast.1 hlast)
    rw [navigateAll_left hlist n (Nat.le_refl _)]
  case toItem => rw [placeAt_of_lt (by omega)]
  case toFirst => rw [Nat.sub_eq_zero_of_le (Nat.le_of_lt hlt), placeAt_of_lt hpos]

/-- From the array in an array, there and back; and through the outer one. -/
theorem moves_undo_each_other_nested :
    let tree := Node.program [.array [.number "1", .array [.number "2"]]]
    let list : Path := [.field "body", .index 0, .field "elements"]
    let first := list ++ [Step.index 0]
    let inner := list ++ [Step.index 1]
    let last := list ++ [Step.afterLast]
    let below := inner ++ [Step.field "elements", .index 0]
    navigate .down tree inner = .ok below ∧ navigate .up tree below = .ok inner ∧
      navigate .right tree inner = .ok last ∧ navigate .left tree last = .ok inner ∧
      navigate .left tree inner = .ok first ∧ navigate .right tree first = .ok inner ∧
      (∀ k, navigateAll (List.replicate k .right) tree first =
        .ok (list ++ [if k < 2 then Step.index k else .afterLast])) ∧
      navigateAll [.left] tree last = .ok inner ∧
      navigateAll [.left, .left, .left] tree last = .ok first := by
  intro tree list first inner last below
  have hlist : tree.itemsAt? list = some [.number "1", .array [.number "2"]] := by decide
  have hdown : navigate .down tree inner = .ok below := rfl
  have hright : navigate .right tree inner = .ok last := rfl
  have hleft : navigate .left tree inner = .ok first := rfl
  -- the selection of the inner array
  obtain ⟨⟨b, hb, hup⟩, hinner⟩ := moves_undo_each_other (show tree.resolves inner = true by decide)
  obtain ⟨⟨r, hr, hundoRight⟩, ⟨l, hl, hundoLeft⟩, -⟩ := hinner list _ _ hlist rfl
  obtain rfl := Except.ok.inj (hdown.symm.trans hb)
  obtain rfl := Except.ok.inj (hright.symm.trans hr)
  obtain rfl := Except.ok.inj (hleft.symm.trans hl)
  -- the ends of the outer one
  obtain ⟨-, hfirst⟩ := moves_undo_each_other (show tree.resolves first = true by decide)
  obtain ⟨-, hlast⟩ := moves_undo_each_other (show tree.resolves last = true by decide)
  obtain ⟨-, -, hruns, -⟩ := hfirst list _ _ hlist rfl
  obtain ⟨-, -, -, hback⟩ := hlast list _ _ hlist rfl
  exact ⟨hdown, hup (by decide), hright, hundoRight (by decide), hleft, hundoLeft (by decide),
    hruns rfl, (hback rfl 1).1 (by decide) (by decide), (hback rfl 3).2 (by decide) (by decide)⟩

end StructuralEditor.Document
