/-
StructuralEditor/Proofs/Conversion.lean

Which values have a node, and what the node looks like.

The conversion of a value stops at the first of its parts that it does not admit
(`reports_toNode`), and as the parts are listed in the order of their places, this is the
part that is first by its place (`toNode_eq_error_iff`).

If all parts are admitted, then each of them has its node at its place (`hasNode_partsAt`),
and the numbers of the document are canonical unless they come from a node in the value
(`number_of_toNode`).  For both, value and node are walked down side by side.  The one is
an induction over the value, the other goes on below a path of the node; what they share
is that the items of a list and the entries of a record are converted one by one
(`toNodes_eq_ok`, `toProperties_eq_ok`), so that what is true of each item at its index is
true of the list.
-/
import StructuralEditor.Data.Conversion
import StructuralEditor.Proofs.Canonicity
import StructuralEditor.Proofs.Parts
import StructuralEditor.Proofs.Results
import StructuralEditor.Proofs.Selection

namespace StructuralEditor

open Document Number

namespace Data

/-! ### The first part that is refused -/

/-- Whether a part can be converted: null, truth values, numbers, texts, lists, records
and nodes can be, and of keys only texts. -/
inductive Part.IsAdmitted : Part → Prop
  | null : IsAdmitted (.value .null)
  | boolean (b : Bool) : IsAdmitted (.value (.boolean b))
  | integer (i : Int) : IsAdmitted (.value (.integer i))
  | decimal (x : Double) : IsAdmitted (.value (.decimal x))
  | text (s : String) : IsAdmitted (.value (.text s))
  | list (items : List Data) : IsAdmitted (.value (.list items))
  | tuple (items : List Data) : IsAdmitted (.value (.tuple items))
  | record (entries : List (Data × Data)) : IsAdmitted (.value (.record entries))
  | node (n : Node) : IsAdmitted (.value (.node n))
  | key (name : String) : IsAdmitted (.key (.text name))

/-- Why a part cannot be converted. -/
def Part.refusal? : Part → Option ConversionError
  | .value (.foreign kind) => some (.unsupported (typeName (.foreign kind)))
  | .value _ => none
  | .key (.text _) => none
  | .key d => some (.ofKey d)

/-- Of all refusals, only that of a key may fail to be worded. -/
theorem Part.refusal?_eq_unwritableKey {part : Part} :
    part.refusal? = some .unwritableKey ↔ ∃ key, part = .key key ∧ key.isWritable = false := by
  constructor
  · intro h
    rcases part with d | d
    · cases d <;> cases h
    · refine ⟨d, rfl, ?_⟩
      cases d with
      | text name => cases h
      | _ =>
        have hkey := Option.some.inj h
        rw [ConversionError.ofKey] at hkey
        split at hkey
        · cases hkey
        · next hwritable => exact Bool.eq_false_iff.2 hwritable
  · rintro ⟨key, rfl, hkey⟩
    cases key with
    | text name => cases hkey
    | _ =>
      show some (ConversionError.ofKey _) = _
      rw [ConversionError.ofKey, hkey]
      rfl

theorem Part.refusal?_eq_none_iff {part : Part} : part.refusal? = none ↔ part.IsAdmitted := by
  constructor
  · intro h
    rcases part with d | d
    · cases d with
      | foreign kind => cases h
      | _ => constructor
    · cases d with
      | text name => constructor
      | _ => cases h
  · intro h
    cases h <;> rfl

/-- Why the parts that are not admitted cannot be converted. -/
def refusals (l : List (Path × Part)) : List ConversionError :=
  l.filterMap fun x => x.2.refusal?

theorem refusals_append (l l' : List (Path × Part)) :
    refusals (l ++ l') = refusals l ++ refusals l' :=
  List.filterMap_append

theorem refusals_cons_of_isAdmitted {x : Path × Part} (hx : x.2.IsAdmitted)
    (l : List (Path × Part)) : refusals (x :: l) = refusals l :=
  List.filterMap_cons_none (Part.refusal?_eq_none_iff.2 hx)

/-- Items are converted from left to right. -/
theorem reports_toNodes {items : List Data}
    (h : ∀ item ∈ items, ∀ p, Reports (refusals (partsAt p item)) item.toNode) (list : Path)
    (i : Nat) : Reports (refusals (partsOfItems list i items)) (toNodes items) := by
  induction items generalizing i with
  | nil => exact Reports.ok []
  | cons item rest ih =>
    obtain ⟨hitem, hrest⟩ := List.forall_mem_cons.1 h
    rw [partsOfItems, refusals_append, toNodes]
    exact (hitem _).bind fun node => (ih hrest (i + 1)).bind_ok fun nodes => ⟨_, rfl⟩

/-- Entries are converted from left to right, and each of them key first. -/
theorem reports_toProperties {entries : List (Data × Data)}
    (h : ∀ e ∈ entries, ∀ p, Reports (refusals (partsAt p e.2)) e.2.toNode) (list : Path)
    (i : Nat) : Reports (refusals (partsOfEntries list i entries)) (toProperties entries) := by
  induction entries generalizing i with
  | nil => exact Reports.ok []
  | cons e rest ih =>
    obtain ⟨hvalue, hrest⟩ := List.forall_mem_cons.1 h
    obtain ⟨key, value⟩ := e
    cases key with
    | text name =>
      rw [partsOfEntries, List.cons_append, refusals_cons_of_isAdmitted (.key name),
        refusals_append, toProperties]
      exact (hvalue _).bind fun node => (ih hrest (i + 1)).bind_ok fun nodes => ⟨_, rfl⟩
    | _ => exact Reports.error _ _

/-- **A conversion stops at the first part that it does not admit.** -/
theorem reports_toNode (d : Data) : ∀ p, Reports (refusals (partsAt p d)) d.toNode := by
  induction d using Data.induction with
  | list items ih =>
    intro p
    rw [partsAt, refusals_cons_of_isAdmitted (.list items), toNode]
    exact (reports_toNodes ih _ 0).map _
  | tuple items ih =>
    intro p
    rw [partsAt, refusals_cons_of_isAdmitted (.tuple items), toNode]
    exact (reports_toNodes ih _ 0).map _
  | record entries ih =>
    intro p
    rw [partsAt, refusals_cons_of_isAdmitted (.record entries), toNode]
    exact (reports_toProperties ih _ 0).map _
  | foreign kind => exact fun p => Reports.error _ _
  | _ => exact fun p => Reports.ok _

/-- A value has a node if all of its parts are admitted. -/
theorem exists_toNode_iff {d : Data} :
    (∃ n, d.toNode = .ok n) ↔ ∀ x ∈ d.parts, x.2.IsAdmitted := by
  rw [(reports_toNode d []).iff.1, refusals, List.filterMap_eq_nil_iff]
  simp only [Part.refusal?_eq_none_iff, parts]

/-- Whether a part is refused for a cause, and comes before all other parts that are
refused. -/
def IsFirstRefused (l : List (Path × Part)) (x : Path × Part) (cause : ConversionError) : Prop :=
  x ∈ l ∧ x.2.refusal? = some cause ∧
    ∀ y ∈ l, ¬ y.2.IsAdmitted → y = x ∨ x.1.Precedes y.1

section

variable {l : List (Path × Part)} {x y : Path × Part} {cause cause' : ConversionError}

theorem not_isAdmitted_of_refusal? (hx : x.2.refusal? = some cause) : ¬ x.2.IsAdmitted := by
  rw [← Part.refusal?_eq_none_iff, hx]
  exact nofun

/-- One part at most is the first. -/
theorem IsFirstRefused.unique (hx : IsFirstRefused l x cause) (hy : IsFirstRefused l y cause') :
    x = y ∧ cause = cause' := by
  obtain ⟨hxl, hxr, hxfirst⟩ := hx
  obtain ⟨hyl, hyr, hyfirst⟩ := hy
  have heq : x = y := by
    rcases hxfirst y hyl (not_isAdmitted_of_refusal? hyr) with heq | hxy
    · exact heq.symm
    · rcases hyfirst x hxl (not_isAdmitted_of_refusal? hxr) with heq | hyx
      · exact heq
      · exact absurd hyx (asymm hxy)
  subst heq
  exact ⟨rfl, Option.some.inj (hxr.symm.trans hyr)⟩

/-- In a list that is in order, the first part that is refused is the one found first. -/
theorem exists_isFirstRefused (hl : l.Pairwise fun x y => x.1.Precedes y.1)
    (h : (refusals l).head? = some cause) : ∃ x, IsFirstRefused l x cause := by
  rw [refusals, List.head?_filterMap] at h
  obtain ⟨before, x, after, rfl, hx, hbefore⟩ := List.findSome?_eq_some_iff.1 h
  obtain ⟨-, hafter, -⟩ := List.pairwise_append.1 hl
  refine ⟨x, by simp, hx, fun y hy hrefused => ?_⟩
  rcases List.mem_append.1 hy with hy | hy
  · exact absurd (Part.refusal?_eq_none_iff.1 (hbefore y hy)) hrefused
  · rcases List.mem_cons.1 hy with rfl | hy
    · exact .inl rfl
    · exact .inr ((List.pairwise_cons.1 hafter).1 y hy)

end

/-- A value that has none is refused over the first part that is not admitted. -/
theorem toNode_eq_error_iff {d : Data} {cause : ConversionError} :
    d.toNode = .error cause ↔ ∃ x, IsFirstRefused d.parts x cause := by
  obtain ⟨hok, herror⟩ := (reports_toNode d []).iff
  constructor
  · exact fun h => exists_isFirstRefused (pairwise_partsAt d []) ((herror cause).1 h)
  · rintro ⟨x, hx⟩
    rcases hnode : d.toNode with cause' | n
    · obtain ⟨y, hy⟩ := exists_isFirstRefused (pairwise_partsAt d []) ((herror cause').1 hnode)
      rw [(hx.unique hy).2]
    · exact absurd (exists_toNode_iff.1 ⟨n, hnode⟩ x hx.1) (not_isAdmitted_of_refusal? hx.2.1)

/-! ### The node of a value -/

/-- Whether a text is the canonical one of a number. -/
structure IsTextOf (text : String) (x : Double) : Prop where
  isCanonical : IsCanonical text
  ofLeading : Double.ofLeading text = x.dropZeroSign

theorem isTextOf_canonicalText (x : Double) : IsTextOf x.canonicalText x :=
  ⟨isCanonical_canonicalText x, x.ofLeading_canonicalText⟩

/-- Whether a node is what a part becomes, apart from what is in it.  A number becomes its
canonical text, an integer that of the double next to it. -/
inductive Part.Matches : Part → Node → Prop
  | null : Matches (.value .null) .null
  | boolean (b : Bool) : Matches (.value (.boolean b)) (.boolean b)
  | integer {i : Int} {text : String} (htext : IsTextOf text (.ofInt i)) :
      Matches (.value (.integer i)) (.number text)
  | decimal {x : Double} {text : String} (htext : IsTextOf text x) :
      Matches (.value (.decimal x)) (.number text)
  | text (s : String) : Matches (.value (.text s)) (.string s)
  | list {items : List Data} {ns : List Node} (hlength : items.length = ns.length) :
      Matches (.value (.list items)) (.array ns)
  | tuple {items : List Data} {ns : List Node} (hlength : items.length = ns.length) :
      Matches (.value (.tuple items)) (.array ns)
  | record {entries : List (Data × Data)} {ns : List Node} (hlength : entries.length = ns.length) :
      Matches (.value (.record entries)) (.object ns)
  | node (n : Node) : Matches (.value (.node n)) n
  | key (name : String) : Matches (.key (.text name)) (.string name)

/-- Whether an entry is converted to a property. -/
def IsProperty (e : Data × Data) (n : Node) : Prop :=
  ∃ name value, e.1 = .text name ∧ e.2.toNode = .ok value ∧ n = .property (.string name) value

/-- Items are converted one by one, … -/
theorem toNodes_eq_ok {items : List Data} {ns : List Node} (h : toNodes items = .ok ns) :
    List.Forall₂ (fun item n => item.toNode = .ok n) items ns := by
  induction items generalizing ns with
  | nil =>
    obtain rfl := Except.ok.inj h
    exact .nil
  | cons item rest ih =>
    rw [toNodes] at h
    obtain ⟨node, hnode, h⟩ := bind_eq_ok.1 h
    obtain ⟨nodes, hnodes, h⟩ := bind_eq_ok.1 h
    obtain rfl := Except.ok.inj h
    exact .cons hnode (ih hnodes)

/-- … and so are entries. -/
theorem toProperties_eq_ok {entries : List (Data × Data)} {ns : List Node}
    (h : toProperties entries = .ok ns) : List.Forall₂ IsProperty entries ns := by
  induction entries generalizing ns with
  | nil =>
    obtain rfl := Except.ok.inj h
    exact .nil
  | cons e rest ih =>
    obtain ⟨key, d⟩ := e
    cases key with
    | text name =>
      rw [toProperties] at h
      obtain ⟨value, hvalue, h⟩ := bind_eq_ok.1 h
      obtain ⟨nodes, hnodes, h⟩ := bind_eq_ok.1 h
      obtain rfl := Except.ok.inj h
      exact .cons ⟨name, value, rfl, hvalue, rfl⟩ (ih hnodes)
    | _ => cases h

section

variable {α β : Type} {R : α → β → Prop} {as : List α} {bs : List β} {a : α}

/-- What is in the first of two lists that match has its like at the same position of the
second. -/
theorem exists_getElem?_of_forall₂ (h : List.Forall₂ R as bs) {i : Nat} (ha : as[i]? = some a) :
    ∃ b, bs[i]? = some b ∧ R a b := by
  obtain ⟨hi, rfl⟩ := List.getElem?_eq_some_iff.1 ha
  have hi' : i < bs.length := h.length_eq ▸ hi
  exact ⟨bs[i], List.getElem?_eq_getElem hi', h.get hi hi'⟩

theorem exists_mem_of_forall₂ (h : List.Forall₂ R as bs) (ha : a ∈ as) : ∃ b ∈ bs, R a b := by
  obtain ⟨i, ha⟩ := List.getElem?_of_mem ha
  obtain ⟨b, hb, hR⟩ := exists_getElem?_of_forall₂ h ha
  exact ⟨b, List.mem_of_getElem? hb, hR⟩

end

section

variable {tree n : Node} {p q : Path} {text : String} {items : List Data}
  {entries : List (Data × Data)}

theorem array_of_toNodes (h : (toNodes items).map Node.array = .ok n) :
    ∃ ns, n = .array ns ∧ List.Forall₂ (fun item n => item.toNode = .ok n) items ns := by
  obtain ⟨ns, hns, rfl⟩ := map_eq_ok.1 h
  exact ⟨ns, rfl, toNodes_eq_ok hns⟩

theorem object_of_toProperties (h : (toProperties entries).map Node.object = .ok n) :
    ∃ ns, n = .object ns ∧ List.Forall₂ IsProperty entries ns := by
  obtain ⟨ns, hns, rfl⟩ := map_eq_ok.1 h
  exact ⟨ns, rfl, toProperties_eq_ok hns⟩

/-- Whether a document has the node of a part at its place. -/
def HasNode (tree : Node) (x : Path × Part) : Prop :=
  ∃ n, tree.nodeAt? x.1 = some n ∧ x.2.Matches n

/-- A group has the nodes of all that its items come from. -/
theorem hasNode_partsOfAll {α : Type} {R : α → Node → Prop} {kind : GroupKind} {ns : List Node}
    {partsOf : Path → α → List (Path × Part)} {as : List α}
    (hgroup : tree.nodeAt? p = some (.group kind ns)) (hns : List.Forall₂ R as ns)
    (h : ∀ a ∈ as, ∀ p n, R a n → tree.nodeAt? p = some n → ∀ x ∈ partsOf p a, HasNode tree x) :
    ∀ x ∈ partsOfAll partsOf (p ++ [.field kind.field]) as, HasNode tree x := by
  intro x hx
  obtain ⟨i, a, ha, hx⟩ := mem_partsOfAll.1 hx
  obtain ⟨n, hn, hR⟩ := exists_getElem?_of_forall₂ hns ha
  have hitem := Node.nodeAt?_index (Node.itemsAt?_of_group hgroup) hn
  exact h a (List.mem_of_getElem? ha) _ n hR hitem x hx

/-- A property has the nodes of its key and of all parts of its value. -/
theorem hasNode_partsOfEntry {e : Data × Data} (hn : IsProperty e n)
    (hp : tree.nodeAt? p = some n)
    (h : ∀ p n, e.2.toNode = .ok n → tree.nodeAt? p = some n →
      ∀ x ∈ partsAt p e.2, HasNode tree x) :
    ∀ x ∈ partsOfEntry p e, HasNode tree x := by
  obtain ⟨name, value, hname, hvalue, rfl⟩ := hn
  obtain ⟨hkey, hsecond⟩ := Node.nodeAt?_of_pair hp
  have hmatches : (Part.key e.1).Matches (.string name) := by
    rw [hname]
    exact .key name
  exact List.forall_mem_cons.2 ⟨⟨_, hkey, hmatches⟩, h _ value hvalue hsecond⟩

/-- **All parts of a value have their nodes**, each at its place. -/
theorem hasNode_partsAt (d : Data) : ∀ p n, d.toNode = .ok n → tree.nodeAt? p = some n →
    ∀ x ∈ partsAt p d, HasNode tree x := by
  induction d using Data.induction with
  | list items ih | tuple items ih =>
    intro p n h hp
    obtain ⟨ns, rfl, hns⟩ := array_of_toNodes h
    rw [partsAt_eq]
    exact List.forall_mem_cons.2
      ⟨⟨_, hp, by constructor; exact hns.length_eq⟩, hasNode_partsOfAll hp hns ih⟩
  | record entries ih =>
    intro p n h hp
    obtain ⟨ns, rfl, hns⟩ := object_of_toProperties h
    have hentries := hasNode_partsOfAll hp hns fun e he p n hn hp =>
      hasNode_partsOfEntry hn hp (ih e he)
    rw [partsAt_eq]
    exact List.forall_mem_cons.2 ⟨⟨_, hp, .record hns.length_eq⟩, hentries⟩
  | integer i =>
    intro p n h hp
    obtain rfl := Except.ok.inj h
    exact List.forall_mem_singleton.2 ⟨_, hp, .integer (isTextOf_canonicalText _)⟩
  | decimal x =>
    intro p n h hp
    obtain rfl := Except.ok.inj h
    exact List.forall_mem_singleton.2 ⟨_, hp, .decimal (isTextOf_canonicalText x)⟩
  | null | boolean | text | node =>
    intro p n h hp
    obtain rfl := Except.ok.inj h
    exact List.forall_mem_singleton.2 ⟨_, hp, by constructor⟩
  | foreign kind =>
    intro p n h
    cases h

/-! ### The numbers of a node -/

/-- Whether a place is that of a node in a value, or inside it. -/
def IsInNode (l : List (Path × Part)) (p : Path) : Prop :=
  ∃ x ∈ l, (∃ n, x.2 = .value (.node n)) ∧ x.1 <+: p

theorem IsInNode.mono {l l' : List (Path × Part)} (h : IsInNode l p) (hl : l ⊆ l') :
    IsInNode l' p := by
  obtain ⟨x, hx, hnode⟩ := h
  exact ⟨x, hl hx, hnode⟩

/-- A number in a group is a number in one of its items. -/
theorem number_of_partsOfAll {α : Type} {R : α → Node → Prop} {kind : GroupKind} {ns : List Node}
    {partsOf : Path → α → List (Path × Part)} {as : List α} (hns : List.Forall₂ R as ns)
    (hq : (Node.group kind ns).nodeAt? q = some (.number text))
    (h : ∀ a ∈ as, ∀ p n q, R a n → n.nodeAt? q = some (.number text) →
      IsCanonical text ∨ IsInNode (partsOf p a) (p ++ q)) :
    IsCanonical text ∨ IsInNode (partsOfAll partsOf (p ++ [.field kind.field]) as) (p ++ q) := by
  obtain ⟨-, hc⟩ | ⟨r, rfl, hr⟩ := Content.get?_group (.inl rfl) (Node.nodeAt?_eq_some.1 hq)
  · cases hc
  · obtain ⟨-, hc⟩ | ⟨i, n, r, rfl, hn, hr⟩ := Content.get?_items hr
    · cases hc
    · obtain ⟨a, ha, hR⟩ := exists_getElem?_of_forall₂ hns.flip hn
      have hplace : p ++ .field kind.field :: .index i :: r =
          p ++ [.field kind.field] ++ [.index i] ++ r := by simp
      rw [hplace]
      have hitem := h a (List.mem_of_getElem? ha) (p ++ [.field kind.field] ++ [.index i]) n r hR
        (Node.nodeAt?_eq_some.2 hr)
      exact hitem.imp_right fun hin => hin.mono fun x hx => mem_partsOfAll.2 ⟨i, a, ha, hx⟩

/-- A number in a property is a number in its value. -/
theorem number_of_partsOfEntry {e : Data × Data} (hn : IsProperty e n)
    (hq : n.nodeAt? q = some (.number text))
    (h : ∀ p n q, e.2.toNode = .ok n → n.nodeAt? q = some (.number text) →
      IsCanonical text ∨ IsInNode (partsAt p e.2) (p ++ q)) :
    IsCanonical text ∨ IsInNode (partsOfEntry p e) (p ++ q) := by
  obtain ⟨name, value, -, hvalue, rfl⟩ := hn
  obtain ⟨-, hc⟩ | ⟨r, ⟨-, hkey⟩ | ⟨rfl, hr⟩⟩ := Content.get?_pair (Node.nodeAt?_eq_some.1 hq)
  · cases hc
  · cases (Content.get?_leaf (.inl rfl) hkey).2
  · have hsecond := h (p ++ [.field PairKind.property.secondField]) value r hvalue
      (Node.nodeAt?_eq_some.2 hr)
    rw [List.append_cons]
    exact hsecond.imp_right fun hin => hin.mono (List.subset_cons_self _ _)

/-- **Every number that is not in a node of the value is canonical.** -/
theorem number_of_toNode (d : Data) : ∀ p n q, d.toNode = .ok n →
    n.nodeAt? q = some (.number text) → IsCanonical text ∨ IsInNode (partsAt p d) (p ++ q) := by
  induction d using Data.induction with
  | list items ih | tuple items ih =>
    intro p n q h hq
    obtain ⟨ns, rfl, hns⟩ := array_of_toNodes h
    rw [partsAt_eq]
    exact (number_of_partsOfAll hns hq ih).imp_right fun hin => hin.mono (List.subset_cons_self _ _)
  | record entries ih =>
    intro p n q h hq
    obtain ⟨ns, rfl, hns⟩ := object_of_toProperties h
    have hnumber := number_of_partsOfAll (p := p) hns hq fun e he p n q hn hq =>
      number_of_partsOfEntry hn hq (ih e he)
    rw [partsAt_eq]
    exact hnumber.imp_right fun hin => hin.mono (List.subset_cons_self _ _)
  | node m => exact fun p n q _ _ => .inr ⟨_, List.mem_cons_self, ⟨m, rfl⟩, List.prefix_append p q⟩
  | integer | decimal =>
    intro p n q h hq
    obtain rfl := Except.ok.inj h
    have hself := (Content.get?_leaf (.inl rfl) (Node.nodeAt?_eq_some.1 hq)).2
    cases hself
    exact .inl (isCanonical_canonicalText _)
  | text s =>
    intro p n q h hq
    obtain rfl := Except.ok.inj h
    cases (Content.get?_leaf (.inl rfl) (Node.nodeAt?_eq_some.1 hq)).2
  | null | boolean =>
    intro p n q h hq
    obtain rfl := Except.ok.inj h
    have hself := Content.get?_of_no_nodes
      (by simp +contextual [Node.field?, Content.HoldsNodes]) (.inl rfl) (Node.nodeAt?_eq_some.1 hq)
    cases hself.2
  | foreign kind =>
    intro p n q h
    cases h

end

/-- **The conversion of a value, by its parts.**  A value has a node if and only if all of
its parts are admitted.  If not, it is refused over the part that is the first by its
place of those that are not admitted; the refusal itself fails just if that part is a key
that cannot be written.  The node has the nodes of all parts, each at its place, and every
number of it is canonical unless it is in a node of the value. -/
theorem toNode_by_parts (d : Data) :
    ((∃ n, d.toNode = .ok n) ↔ ∀ x ∈ d.parts, x.2.IsAdmitted) ∧
    (∀ cause, d.toNode = .error cause ↔ ∃ x, IsFirstRefused d.parts x cause) ∧
    (∀ x cause, IsFirstRefused d.parts x cause →
      (cause = .unwritableKey ↔ ∃ key, x.2 = .key key ∧ key.isWritable = false)) ∧
    ∀ n, d.toNode = .ok n →
      (∀ x ∈ d.parts, HasNode n x) ∧
      ∀ p text, n.nodeAt? p = some (.number text) → IsCanonical text ∨ IsInNode d.parts p :=
  ⟨exists_toNode_iff, fun _ => toNode_eq_error_iff, fun x cause hx => by
    rw [← Part.refusal?_eq_unwritableKey, hx.2.1, Option.some.injEq], fun n h =>
    ⟨hasNode_partsAt d [] n h rfl, fun p _ hp => number_of_toNode d [] n p h hp⟩⟩

/-- An integer beyond all doubles becomes the text of infinity, and a number in a node is left
as it is.  A key that is no text is refused before the value under it. -/
theorem toNode_by_parts_nested :
    let raw := Node.number "1."
    let d := record [(.text "a", .list [.integer (10 ^ 400), .tuple [.node raw]])]
    let n := Node.object
      [.property (.string "a") (.array [.number "Infinity", .array [raw]])]
    let refused := Data.list
      [record [(.text "a", .null), (.integer 1, .foreign .set)], .foreign .bytes]
    let cause := ConversionError.keyNotText (.integer 1)
    d.toNode = .ok n ∧ (∀ x ∈ d.parts, x.2.IsAdmitted ∧ HasNode n x) ∧
      (∀ p text, n.nodeAt? p = some (.number text) → IsCanonical text ∨ IsInNode d.parts p) ∧
      refused.toNode = .error cause ∧ ∃ x, IsFirstRefused refused.parts x cause := by
  intro raw d n refused cause
  have htext : (Double.ofInt (10 ^ 400)).canonicalText = "Infinity" := by decide +kernel
  have hd : d.toNode = .ok n := by
    show Except.ok (Node.object [.property (.string "a")
      (.array [.number (Double.ofInt (10 ^ 400)).canonicalText, .array [raw]])]) = .ok n
    rw [htext]
  have hrefused : refused.toNode = .error cause := by
    have hone : (Data.integer 1).isWritable = true := by decide +kernel
    show Except.error (ConversionError.ofKey (.integer 1)) = .error cause
    rw [ConversionError.ofKey, if_pos hone]
  obtain ⟨hadmitted, -, -, hnode⟩ := toNode_by_parts d
  obtain ⟨-, hrefusal, -⟩ := toNode_by_parts refused
  obtain ⟨hparts, hnumbers⟩ := hnode n hd
  exact ⟨hd, fun x hx => ⟨hadmitted.1 ⟨n, hd⟩ x hx, hparts x hx⟩, hnumbers, hrefused,
    (hrefusal cause).1 hrefused⟩

/-- A key with too many digits is not refused as a key that is no text. -/
theorem toNode_of_unwritable_key :
    (record [(.integer leastOverlong, .null)]).toNode = .error .unwritableKey ∧
      ∀ key, ConversionError.unwritableKey ≠ .keyNotText key := by
  constructor
  · have hkey : (Data.integer leastOverlong).isWritable = false :=
      isWritableInteger_leastOverlong
    show Except.error (ConversionError.ofKey _) = .error _
    rw [ConversionError.ofKey, hkey]
    rfl
  · intro key h
    cases h

end Data

end StructuralEditor
