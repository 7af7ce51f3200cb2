/-
StructuralEditor/Proofs/Parts.lean

The parts of a value, and their order.

The parts of a value are the values in it and the keys of the records in it, each at the
place that its node is to have (`Data.parts`).  Where a part comes in the reading of the
value is read off its place: what is outside comes first, items go from left to right, and
a key goes before the value under it (`Path.Precedes`).  The list of the parts is in that
order (`Data.pairwise_partsAt`), which takes two facts: parts of a value are at or below
its place (`isPrefix_partsAt`), and places below two steps are in the order of the steps
(`Path.precedes_of_before`).
-/
import Mathlib.Data.List.Lex
import StructuralEditor.Data.Value
import StructuralEditor.Proofs.Store

namespace StructuralEditor

open Document

/-! ### The order of places -/

namespace Document

/-- Whether of two steps from one place the first is read before the second: items go
from left to right, and a key goes before the value under it. -/
def Step.Before : Step → Step → Prop
  | .index i, .index j => i < j
  | .field a, .field b =>
    a = PairKind.property.firstField ∧ b = PairKind.property.secondField
  | _, _ => False

theorem Step.index_before {i j : Nat} (hij : i < j) : (Step.index i).Before (.index j) :=
  hij

theorem Step.key_before_value :
    (Step.field PairKind.property.firstField).Before (.field PairKind.property.secondField) :=
  ⟨rfl, rfl⟩

instance : Std.Asymm Step.Before where
  asymm a b hab hba := by
    cases a <;> cases b <;> simp only [Step.Before] at hab hba
    · obtain ⟨rfl, rfl⟩ := hab
      exact PairKind.property.firstField_ne_secondField hba.1.symm
    · omega

namespace Path

/-- Whether a place is read before another one: it is outside of it, or comes first by
the steps with which the two paths part. -/
abbrev Precedes : Path → Path → Prop :=
  List.Lex Step.Before

variable {p q r : Path} {a b : Step}

/-- What is outside precedes what is inside. -/
theorem precedes_inside (h : p ++ [a] <+: q) : p.Precedes q := by
  obtain ⟨rest, rfl⟩ := h
  have hempty : Precedes [] (a :: rest) := .nil
  have hinside := List.Lex.append_left Step.Before hempty p
  rwa [List.append_nil, List.append_cons] at hinside

/-- Two steps in order put in order what comes behind them. -/
theorem precedes_of_before (hab : a.Before b) (hq : p ++ [a] <+: q) (hr : p ++ [b] <+: r) :
    q.Precedes r := by
  obtain ⟨rest, rfl⟩ := hq
  obtain ⟨rest', rfl⟩ := hr
  rw [← List.append_cons, ← List.append_cons]
  exact List.Lex.append_left Step.Before (.rel hab) p

end Path

end Document

/-! ### Parts of a value -/

namespace Data

/-- An induction over values: items and the values of a record are below the whole, keys
are not. -/
@[elab_as_elim]
theorem induction {motive : Data → Prop} (null : motive .null)
    (boolean : ∀ b, motive (.boolean b)) (integer : ∀ i, motive (.integer i))
    (decimal : ∀ x, motive (.decimal x)) (text : ∀ s, motive (.text s))
    (list : ∀ items, (∀ item ∈ items, motive item) → motive (.list items))
    (tuple : ∀ items, (∀ item ∈ items, motive item) → motive (.tuple items))
    (record : ∀ entries, (∀ e ∈ entries, motive e.2) → motive (.record entries))
    (node : ∀ n, motive (.node n)) (foreign : ∀ kind, motive (.foreign kind)) (d : Data) :
    motive d :=
  @Data.rec motive (fun items => ∀ item ∈ items, motive item)
    (fun entries => ∀ e ∈ entries, motive e.2) (fun e => motive e.2)
    null boolean integer decimal text list tuple record node foreign
    (by simp) (fun _ _ hitem hrest => List.forall_mem_cons.2 ⟨hitem, hrest⟩)
    (by simp) (fun _ _ he hrest => List.forall_mem_cons.2 ⟨he, hrest⟩)
    (fun _ _ _ hvalue => hvalue) d

/-- A part of a value: a value in it, or a key of a record in it. -/
inductive Part where
  | value (d : Data)
  | key (d : Data)

mutual

/-- The parts of a value, each at the place of its node, where the node of the whole
stands at `p`.  A node has no parts but itself. -/
def partsAt (p : Path) : Data → List (Path × Part)
  | .list items =>
    (p, .value (.list items)) :: partsOfItems (p ++ [.field GroupKind.array.field]) 0 items
  | .tuple items =>
    (p, .value (.tuple items)) :: partsOfItems (p ++ [.field GroupKind.array.field]) 0 items
  | .record entries =>
    (p, .value (.record entries)) :: partsOfEntries (p ++ [.field GroupKind.object.field]) 0 entries
  | d => [(p, .value d)]

/-- The parts of values that stand in a list from position `i` on. -/
def partsOfItems (list : Path) (i : Nat) : List Data → List (Path × Part)
  | [] => []
  | item :: rest => partsAt (list ++ [Step.index i]) item ++ partsOfItems list (i + 1) rest

/-- The parts of entries that stand in a list from position `i` on. -/
def partsOfEntries (list : Path) (i : Nat) : List (Data × Data) → List (Path × Part)
  | [] => []
  | (key, value) :: rest =>
    (list ++ [Step.index i] ++ [Step.field PairKind.property.firstField], .key key) ::
        partsAt (list ++ [Step.index i] ++ [Step.field PairKind.property.secondField]) value ++
      partsOfEntries list (i + 1) rest

end

/-- The parts of a value, each at its place in the node of the value. -/
def parts (d : Data) : List (Path × Part) :=
  d.partsAt []

/-! #### Places of parts -/

/-- The parts of an entry, where its property stands at `p`.  No other node has fields of
these names. -/
def partsOfEntry (p : Path) (e : Data × Data) : List (Path × Part) :=
  (p ++ [Step.field PairKind.property.firstField], .key e.1) ::
    partsAt (p ++ [Step.field PairKind.property.secondField]) e.2

/-- The parts of several things that stand in a list, given those of each. -/
def partsOfAll {α : Type} (partsOf : Path → α → List (Path × Part)) (list : Path) (as : List α) :
    List (Path × Part) :=
  as.zipIdx.flatMap fun e => partsOf (list ++ [Step.index e.2]) e.1

theorem partsOfItems_eq (list : Path) (items : List Data) :
    partsOfItems list 0 items = partsOfAll partsAt list items := by
  have hfrom : ∀ i, partsOfItems list i items =
      (items.zipIdx i).flatMap fun e => partsAt (list ++ [Step.index e.2]) e.1 := by
    induction items with
    | nil => exact fun i => rfl
    | cons item rest ih =>
      intro i
      rw [partsOfItems, ih, List.zipIdx_cons, List.flatMap_cons]
  exact hfrom 0

theorem partsOfEntries_eq (list : Path) (entries : List (Data × Data)) :
    partsOfEntries list 0 entries = partsOfAll partsOfEntry list entries := by
  have hfrom : ∀ i, partsOfEntries list i entries =
      (entries.zipIdx i).flatMap fun e => partsOfEntry (list ++ [Step.index e.2]) e.1 := by
    induction entries with
    | nil => exact fun i => rfl
    | cons e rest ih =>
      intro i
      rw [partsOfEntries, ih, List.zipIdx_cons, List.flatMap_cons]
      rfl
  exact hfrom 0

section

variable {α : Type} {partsOf : Path → α → List (Path × Part)} {list p : Path} {as : List α}
  {x : Path × Part}

theorem mem_partsOfAll :
    x ∈ partsOfAll partsOf list as ↔
      ∃ i a, as[i]? = some a ∧ x ∈ partsOf (list ++ [Step.index i]) a := by
  rw [partsOfAll, List.mem_flatMap]
  constructor
  · rintro ⟨⟨a, i⟩, he, hx⟩
    exact ⟨i, a, List.mk_mem_zipIdx_iff_getElem?.1 he, hx⟩
  · rintro ⟨i, a, hi, hx⟩
    exact ⟨(a, i), List.mk_mem_zipIdx_iff_getElem?.2 hi, hx⟩

/-- What stands in a list is inside the list. -/
theorem isPrefix_partsOfAll (h : ∀ a ∈ as, ∀ p, ∀ x ∈ partsOf p a, p <+: x.1)
    (hx : x ∈ partsOfAll partsOf list as) : list <+: x.1 := by
  obtain ⟨i, a, hi, hx⟩ := mem_partsOfAll.1 hx
  exact (List.prefix_append list _).trans (h a (List.mem_of_getElem? hi) _ x hx)

/-- The order of what stands in a list is that of the positions, and that of each thing. -/
theorem pairwise_partsOfAll (hinside : ∀ a ∈ as, ∀ p, ∀ x ∈ partsOf p a, p <+: x.1)
    (h : ∀ a ∈ as, ∀ p, (partsOf p a).Pairwise fun x y => x.1.Precedes y.1) :
    (partsOfAll partsOf list as).Pairwise fun x y => x.1.Precedes y.1 := by
  have hmem : ∀ e ∈ as.zipIdx, e.1 ∈ as := fun e he =>
    List.mem_of_getElem? (List.mem_zipIdx_iff_getElem?.1 he)
  have hpositions : as.zipIdx.Pairwise fun e e' => e.2 < e'.2 := by
    rw [← List.pairwise_map, List.zipIdx_map_snd]
    exact List.pairwise_lt_range'
  refine List.pairwise_flatMap.2 ⟨fun e he => h e.1 (hmem e he) _, ?_⟩
  refine hpositions.imp_of_mem fun {e e'} he he' hlt x hx y hy => ?_
  exact Path.precedes_of_before (Step.index_before hlt) (hinside e.1 (hmem e he) _ x hx)
    (hinside e'.1 (hmem e' he') _ y hy)

end

/-- The parts of a value other than itself. -/
def partsWithin (p : Path) : Data → List (Path × Part)
  | .list items | .tuple items => partsOfAll partsAt (p ++ [.field GroupKind.array.field]) items
  | .record entries => partsOfAll partsOfEntry (p ++ [.field GroupKind.object.field]) entries
  | _ => []

theorem partsAt_eq (p : Path) (d : Data) : partsAt p d = (p, .value d) :: partsWithin p d := by
  cases d with
  | list items | tuple items => rw [partsAt, partsOfItems_eq, partsWithin]
  | record entries => rw [partsAt, partsOfEntries_eq, partsWithin]
  | _ => rfl

/-! #### The order of parts -/

section

variable {d : Data} {e : Data × Data}

/-- If all parts within a value are inside it, then so are all parts. -/
theorem isPrefix_partsAt_of_within
    (h : ∀ p, ∀ x ∈ partsWithin p d, ∃ step, p ++ [step] <+: x.1) (p : Path) :
    ∀ x ∈ partsAt p d, p <+: x.1 := by
  intro x hx
  rw [partsAt_eq] at hx
  rcases List.mem_cons.1 hx with rfl | hx
  · exact List.prefix_rfl
  · obtain ⟨step, hstep⟩ := h p x hx
    exact (List.prefix_append p [step]).trans hstep

/-- The parts of an entry are inside its property. -/
theorem isPrefix_partsOfEntry (h : ∀ p, ∀ x ∈ partsAt p e.2, p <+: x.1) (p : Path) :
    ∀ x ∈ partsOfEntry p e, p <+: x.1 := by
  intro x hx
  rcases List.mem_cons.1 hx with rfl | hx
  · exact List.prefix_append p _
  · exact (List.prefix_append p _).trans (h _ x hx)

theorem isPrefix_partsWithin (d : Data) :
    ∀ p, ∀ x ∈ partsWithin p d, ∃ step, p ++ [step] <+: x.1 := by
  induction d using Data.induction with
  | list items ih | tuple items ih =>
    have hitems := fun item hitem => isPrefix_partsAt_of_within (ih item hitem)
    exact fun p x hx => ⟨_, isPrefix_partsOfAll hitems hx⟩
  | record entries ih =>
    have hentries := fun e he => isPrefix_partsOfEntry (isPrefix_partsAt_of_within (ih e he))
    exact fun p x hx => ⟨_, isPrefix_partsOfAll hentries hx⟩
  | _ => simp [partsWithin]

/-- The parts of a value are inside it. -/
theorem isPrefix_partsAt (d : Data) (p : Path) : ∀ x ∈ partsAt p d, p <+: x.1 :=
  isPrefix_partsAt_of_within (isPrefix_partsWithin d) p

/-- A value comes before the parts within it. -/
theorem pairwise_partsAt_of_within
    (h : ∀ p, (partsWithin p d).Pairwise fun x y => x.1.Precedes y.1) (p : Path) :
    (partsAt p d).Pairwise fun x y => x.1.Precedes y.1 := by
  rw [partsAt_eq]
  refine List.pairwise_cons.2 ⟨fun x hx => ?_, h p⟩
  obtain ⟨step, hstep⟩ := isPrefix_partsWithin d p x hx
  exact Path.precedes_inside hstep

/-- A key comes before the value under it. -/
theorem pairwise_partsOfEntry (h : ∀ p, (partsAt p e.2).Pairwise fun x y => x.1.Precedes y.1)
    (p : Path) : (partsOfEntry p e).Pairwise fun x y => x.1.Precedes y.1 := by
  refine List.pairwise_cons.2 ⟨fun x hx => ?_, h _⟩
  exact Path.precedes_of_before Step.key_before_value List.prefix_rfl (isPrefix_partsAt e.2 _ x hx)

/-- **The parts of a value are listed in the order of their places.** -/
theorem pairwise_partsAt (d : Data) : ∀ p, (partsAt p d).Pairwise fun x y => x.1.Precedes y.1 := by
  induction d using Data.induction with
  | list items ih | tuple items ih =>
    exact pairwise_partsAt_of_within fun p =>
      pairwise_partsOfAll (fun item _ => isPrefix_partsAt item) ih
  | record entries ih =>
    exact pairwise_partsAt_of_within fun p =>
      pairwise_partsOfAll (fun e _ => isPrefix_partsOfEntry (isPrefix_partsAt e.2))
        fun e he => pairwise_partsOfEntry (ih e he)
  | _ => simp [partsAt]

end

end Data

end StructuralEditor
