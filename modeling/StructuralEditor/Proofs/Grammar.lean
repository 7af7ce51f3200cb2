/-
StructuralEditor/Proofs/Grammar.lean

Rules for what may stand where in a document.

The nodes of a document are not restricted by their type: a number may have any
text, and any node may stand in any slot.  A `Grammar` restricts both.  It says
which texts numbers may have and, if it is strict, that the members of objects
are properties and that properties stand nowhere else.  Two grammars are in use:
`Grammar.canonical` is about the texts of numbers only and `Grammar.wellFormed`
about the places of properties only.  What they have in common is that an edit
is one write into a document, and that a write keeps a grammar whenever the new
node fits wherever the old one did (`Grammar.fits_put?`).

A sound document is one by all of its places: `Grammar.Sound` is defined from
the root down, `Grammar.sound_nodeAt?` and `Grammar.isWellFormed_of_fits` read it
at the end of a path, and `Grammar.sound_of_keptIn` gets it back from there.
-/
import StructuralEditor.Number.Canonical
import StructuralEditor.Proofs.Canonicity
import StructuralEditor.Proofs.Selection

namespace StructuralEditor.Document

open Number

/-! ### Well-formed documents -/

/-- Whether a path is the place of a member of an object. -/
def Path.IsMember (p : Path) : Prop :=
  ∃ owner i, p = owner ++ [.field GroupKind.object.field, .index i]

/-- Whether properties stand in the places of members of objects, and nothing
else does, and they stand nowhere else. -/
def Node.IsWellFormed (tree : Node) : Prop :=
  ∀ p n, tree.nodeAt? p = some n → (n.isProperty = true ↔ p.IsMember)

/-- Only objects have a field of this name. -/
theorem GroupKind.field_eq_object_iff {kind : GroupKind} :
    kind.field = GroupKind.object.field ↔ kind = .object := by
  cases kind <;> simp [GroupKind.field]

@[simp] theorem Path.not_isMember_nil : ¬ Path.IsMember [] := by
  rintro ⟨owner, i, h⟩
  simp at h

@[simp] theorem Path.not_isMember_field (p : Path) (name : String) :
    ¬ Path.IsMember (p ++ [Step.field name]) := by
  rintro ⟨owner, i, h⟩
  simpa using congrArg List.getLast? h

@[simp] theorem Path.isMember_item (owner : Path) (kind : GroupKind) (i : Nat) :
    Path.IsMember (owner ++ [Step.field kind.field] ++ [Step.index i]) ↔ kind = .object := by
  constructor
  · rintro ⟨owner', i', h⟩
    have hlist := congrArg (List.getLast? ∘ List.dropLast) h
    simpa [List.dropLast_append, GroupKind.field_eq_object_iff] using hlist
  · rintro rfl
    exact ⟨owner, i, List.append_assoc ..⟩

/-- Whether what stands below a node is a member does not depend on where the node
stands. -/
theorem Path.isMember_below {n m : Node} {p q : Path} (hm : n.nodeAt? q = some m) (hq : q ≠ []) :
    Path.IsMember (p ++ q) ↔ Path.IsMember q := by
  -- from a node, the first step is a field
  obtain ⟨name, rest, rfl⟩ : ∃ name rest, q = .field name :: rest := by
    obtain ⟨step, rest, rfl⟩ := List.exists_cons_of_ne_nil hq
    have hget := Node.nodeAt?_eq_some.1 hm
    cases step with
    | field name => exact ⟨name, rest, rfl⟩
    | _ => simp [Node.get?, Content.get?_cons, Content.child?] at hget
  constructor
  · rintro ⟨owner, i, heq⟩
    rcases List.append_eq_append_iff.1 heq with ⟨before, -, hrest⟩ | ⟨before, -, hrest⟩
    · exact ⟨before, i, hrest⟩
    · obtain - | ⟨step, before⟩ := before
      · exact ⟨[], i, hrest.symm⟩
      · obtain - | ⟨step', before⟩ := before <;> simp at hrest
  · rintro ⟨owner, i, heq⟩
    exact ⟨p ++ owner, i, by rw [heq, List.append_assoc]⟩

/-! ### Grammars -/

/-- Rules for the nodes of a document. -/
structure Grammar where
  /-- The texts that numbers may have. -/
  number : String → Prop
  /-- Whether properties stand in objects, and in objects nothing else does. -/
  isStrict : Prop
  number_canonicalText : ∀ x : Double, number x.canonicalText

/-- Numbers have canonical texts. -/
def Grammar.canonical : Grammar :=
  ⟨IsCanonical, False, isCanonical_canonicalText⟩

/-- Objects have properties, and nothing else has. -/
def Grammar.wellFormed : Grammar :=
  ⟨fun _ => True, True, fun _ => trivial⟩

namespace Grammar

variable (g : Grammar)

/-- Whether a node may stand in a place, be it the place of a member of an
object or another one. -/
def Seats (isMember : Bool) (n : Node) : Prop :=
  g.isStrict → n.isProperty = isMember

/-- Whether everything in a node keeps the rules. -/
inductive Sound : Node → Prop
  | null : Sound .null
  | boolean (value : Bool) : Sound (.boolean value)
  | leaf {kind : LeafKind} {text : String} (htext : kind = .number → g.number text) :
      Sound (.leaf kind text)
  | pair {kind : PairKind} {first second : Node} (hfirst : g.Seats false first)
      (hsecond : g.Seats false second) (hfirst' : Sound first) (hsecond' : Sound second) :
      Sound (.pair kind first second)
  | group {kind : GroupKind} {items : List Node} (hitems : ∀ n ∈ items, g.Seats (kind == .object) n)
      (hitems' : ∀ n ∈ items, Sound n) : Sound (.group kind items)

/-- Whether a node keeps the rules in a place. -/
def Fits (isMember : Bool) (n : Node) : Prop :=
  g.Seats isMember n ∧ g.Sound n

/-- Whether all nodes of a content keep the rules in a place. -/
def FitsContent (isMember : Bool) : Content → Prop
  | .node n => g.Fits isMember n
  | .items ns => ∀ n ∈ ns, g.Fits isMember n
  | .text _ | .flag _ => True

/-- Whether a node may be replaced by another one, wherever it stands. -/
def Replaces (old new : Node) : Prop :=
  ∀ isMember, g.Fits isMember old → g.Fits isMember new

/-- Whether everything below a node stands where the rules admit it, and all numbers in
it have texts that they admit. -/
def KeptIn (n : Node) : Prop :=
  ∀ p m, n.nodeAt? p = some m →
    (p ≠ [] → g.isStrict → (m.isProperty = true ↔ p.IsMember)) ∧
      ∀ text, m = .number text → g.number text

variable {g} {isMember : Bool}

theorem Sound.number_text {text : String} (h : g.Sound (.number text)) : g.number text := by
  cases h with
  | leaf htext => exact htext rfl

/-- A leaf may stand wherever no property is due. -/
theorem fits_leaf {kind : LeafKind} {text : String} (htext : kind = .number → g.number text) :
    g.Fits false (.leaf kind text) :=
  ⟨fun _ => rfl, .leaf htext⟩

theorem fits_pair_iff {kind : PairKind} {a b : Node} :
    g.Fits isMember (.pair kind a b) ↔
      g.Seats isMember (.pair kind a b) ∧ g.Fits false a ∧ g.Fits false b := by
  constructor
  · rintro ⟨hseat, ⟨⟩⟩
    exact ⟨hseat, ⟨‹_›, ‹_›⟩, ‹_›, ‹_›⟩
  · rintro ⟨hseat, ⟨ha, ha'⟩, hb, hb'⟩
    exact ⟨hseat, .pair ha hb ha' hb'⟩

theorem fits_group_iff {kind : GroupKind} {ns : List Node} :
    g.Fits isMember (.group kind ns) ↔
      (g.isStrict → isMember = false) ∧ ∀ n ∈ ns, g.Fits (kind == .object) n := by
  constructor
  · rintro ⟨hseat, ⟨⟩⟩
    exact ⟨fun hstrict => (hseat hstrict).symm, fun n hn => ⟨by simp_all, by simp_all⟩⟩
  · rintro ⟨hseat, hns⟩
    exact ⟨fun hstrict => (hseat hstrict).symm,
      .group (fun n hn => (hns n hn).1) fun n hn => (hns n hn).2⟩

/-! ### Places -/

/-- What stands in a document that keeps the rules keeps them in its place. -/
theorem fits_child? {c d : Content} {step : Step} (hc : g.FitsContent isMember c)
    (hd : c.child? step = some d) : ∃ isMember', g.FitsContent isMember' d := by
  cases step with
  | field name =>
    obtain ⟨n, rfl, hn⟩ := Content.child?_eq_some_field hd
    obtain ⟨n', hrewrites⟩ := Node.Rewrites.of_field? hn (rfl : d.sort = d.sort)
    cases hrewrites with
    | first kind a b m => exact ⟨false, (fits_pair_iff.1 hc).2.1⟩
    | second kind a b m => exact ⟨false, (fits_pair_iff.1 hc).2.2⟩
    | items kind ns ms => exact ⟨_, (fits_group_iff.1 hc).2⟩
    | _ => exact ⟨false, trivial⟩
  | index i =>
    obtain ⟨ns, n, rfl, hn, rfl⟩ := Content.child?_eq_some_index hd
    exact ⟨isMember, hc n (List.mem_of_getElem? hn)⟩
  | afterLast => simp at hd

theorem fits_get? {c d : Content} {p : Path} (hc : g.FitsContent isMember c)
    (hd : c.get? p = some d) : ∃ isMember', g.FitsContent isMember' d := by
  induction p generalizing c isMember with
  | nil =>
    obtain rfl := Option.some.inj hd
    exact ⟨isMember, hc⟩
  | cons step p ih =>
    obtain ⟨e, he, hd⟩ := Option.bind_eq_some_iff.1 hd
    obtain ⟨isMember', he'⟩ := fits_child? hc he
    exact ih he' hd

variable {tree tree' : Node} {p : Path}

/-- Every node of a document that keeps the rules keeps them. -/
theorem sound_nodeAt? {n : Node} (htree : g.Fits false tree) (hn : tree.nodeAt? p = some n) :
    g.Sound n := by
  obtain ⟨isMember, hfits⟩ := fits_get? (c := .node tree) htree (Node.nodeAt?_eq_some.1 hn)
  exact hfits.2

/-- A document that keeps strict rules is well formed. -/
theorem isWellFormed_of_fits (hstrict : g.isStrict) (htree : g.Fits false tree) :
    tree.IsWellFormed := by
  intro p n hn
  have hget := Node.nodeAt?_eq_some.1 hn
  rcases List.eq_nil_or_concat p with rfl | ⟨q, step, rfl⟩
  · obtain rfl := Content.node.inj (Option.some.inj hget)
    simp [htree.1 hstrict]
  · rw [List.concat_eq_append, Node.get?_append] at hget
    obtain ⟨c, hc, hstep⟩ := Option.bind_eq_some_iff.1 hget
    rw [Content.get?_singleton] at hstep
    rw [List.concat_eq_append]
    cases step with
    | field name =>
      -- the first or the second node of a pair
      obtain ⟨m, rfl, hfield⟩ := Content.child?_eq_some_field hstep
      have hm := sound_nodeAt? htree (Node.nodeAt?_eq_some.2 hc)
      obtain ⟨n', hrewrites⟩ := Node.Rewrites.of_field? hfield (rfl : (Content.node n).sort = _)
      have hseat : n.isProperty = false := by
        cases hrewrites <;> obtain ⟨⟩ := hm
        · exact ‹g.Seats false n› hstrict
        · exact ‹g.Seats false n› hstrict
      simp [hseat]
    | index i =>
      -- an item of a group
      obtain ⟨ns, m, rfl, hi, hnode⟩ := Content.child?_eq_some_index hstep
      obtain rfl := Content.node.inj hnode
      obtain ⟨owner, kind, rfl, howner⟩ := owner_of_items (Node.itemsAt?_eq_some.2 hc)
      obtain ⟨⟩ := sound_nodeAt? htree howner
      have hseat : n.isProperty = (kind == .object) :=
        ‹∀ n ∈ ns, g.Seats (kind == .object) n› n (List.mem_of_getElem? hi) hstrict
      simp only [hseat, Path.isMember_item, beq_iff_eq]
    | afterLast => simp at hstep

theorem KeptIn.child {n m : Node} {p : Path} (h : g.KeptIn n) (hm : n.nodeAt? p = some m) :
    g.KeptIn m := by
  intro q k hk
  have hwhole : n.nodeAt? (p ++ q) = some k := by
    rw [Node.nodeAt?_eq_some, Node.get?_append, Node.nodeAt?_eq_some.1 hm]
    exact Node.nodeAt?_eq_some.1 hk
  obtain ⟨hseat, hnumber⟩ := h (p ++ q) k hwhole
  refine ⟨fun hq hstrict => ?_, hnumber⟩
  rw [← Path.isMember_below hk hq]
  exact hseat (by simp [hq]) hstrict

mutual

/-- A node is sound if all places in it keep the rules. -/
theorem sound_of_keptIn : ∀ {n : Node}, g.KeptIn n → g.Sound n
  | .null, _ => .null
  | .boolean value, _ => .boolean value
  | .leaf kind text, h => by
    refine .leaf fun hkind => (h [] (.leaf kind text) rfl).2 text ?_
    rw [hkind]
  | .pair kind a b, h => by
    have ha : (Node.pair kind a b).nodeAt? [.field kind.firstField] = some a := by
      simp [Node.nodeAt?_eq_some, Node.get?]
    have hb : (Node.pair kind a b).nodeAt? [.field kind.secondField] = some b := by
      simp [Node.nodeAt?_eq_some, Node.get?]
    have hseat : ∀ {m : Node} {name : String},
        (Node.pair kind a b).nodeAt? [.field name] = some m → g.Seats false m := by
      intro m name hm hstrict
      have hplace := (h [.field name] m hm).1 (by simp) hstrict
      exact Bool.eq_false_iff.2 fun hm => Path.not_isMember_field [] name (hplace.1 hm)
    exact .pair (hseat ha) (hseat hb) (sound_of_keptIn (h.child ha)) (sound_of_keptIn (h.child hb))
  | .group kind ns, h => by
    have hitem : ∀ {i : Nat} {n : Node}, ns[i]? = some n →
        (Node.group kind ns).nodeAt? [.field kind.field, .index i] = some n := by
      intro i n hi
      simp [Node.nodeAt?_eq_some, Node.get?, Content.get?_cons, hi]
    refine .group (fun n hn hstrict => ?_) (sound_of_keptIn_all fun i n hi => h.child (hitem hi))
    obtain ⟨i, hi⟩ := List.getElem?_of_mem hn
    have hplace := (h _ n (hitem hi)).1 (by simp) hstrict
    have hmember := Path.isMember_item [] kind i
    rw [Bool.eq_iff_iff, beq_iff_eq]
    exact hplace.trans hmember

theorem sound_of_keptIn_all : ∀ {ns : List Node},
    (∀ (i : Nat) (n : Node), ns[i]? = some n → g.KeptIn n) → ∀ n ∈ ns, g.Sound n
  | [], _ => by simp
  | n :: ns, h => by
    have hrest : ∀ (i : Nat) (m : Node), ns[i]? = some m → g.KeptIn m :=
      fun i m hm => h (i + 1) m (by simpa using hm)
    exact List.forall_mem_cons.2 ⟨sound_of_keptIn (h 0 n rfl), sound_of_keptIn_all hrest⟩

end

/-- A well-formed document keeps the strict rules. -/
theorem fits_of_isWellFormed {tree : Node} (htree : tree.IsWellFormed) :
    wellFormed.Fits false tree := by
  refine ⟨fun _ => ?_, sound_of_keptIn fun p m hm => ⟨fun _ _ => htree p m hm, fun _ _ => trivial⟩⟩
  have hroot := htree [] tree rfl
  simpa using hroot

/-! ### Writes -/

/-- A write at a step keeps the rules if what it writes does wherever the old
content did. -/
theorem fits_withChild? {c c' old new : Content} {step : Step} (hold : c.child? step = some old)
    (hwith : c.withChild? step new = some c') (hnodes : old.HoldsNodes)
    (hnew : ∀ isMember, g.FitsContent isMember old → g.FitsContent isMember new)
    (hc : g.FitsContent isMember c) : g.FitsContent isMember c' := by
  cases step with
  | field name =>
    obtain ⟨n, rfl, hfield⟩ := Content.child?_eq_some_field hold
    obtain ⟨n', hn', rfl⟩ := Option.map_eq_some_iff.1 hwith
    obtain ⟨old', hrewrites⟩ := Node.Rewrites.of_withField? hn'
    obtain rfl := Option.some.inj (hrewrites.field?.symm.trans hfield)
    cases hrewrites with
    | first kind a b m =>
      obtain ⟨hseat, ha, hb⟩ := fits_pair_iff.1 hc
      exact fits_pair_iff.2 ⟨by cases kind <;> exact hseat, hnew false ha, hb⟩
    | second kind a b m =>
      obtain ⟨hseat, ha, hb⟩ := fits_pair_iff.1 hc
      exact fits_pair_iff.2 ⟨by cases kind <;> exact hseat, ha, hnew false hb⟩
    | items kind ns ms =>
      obtain ⟨hseat, hns⟩ := fits_group_iff.1 hc
      exact fits_group_iff.2 ⟨hseat, hnew _ hns⟩
    | _ => simp [Content.HoldsNodes] at hnodes
  | index i =>
    obtain ⟨ns, n, rfl, hn, rfl⟩ := Content.child?_eq_some_index hold
    obtain ⟨ns', m, heq, rfl, rfl⟩ := Content.withChild?_eq_some_index hwith
    obtain rfl := Content.items.inj heq
    intro k hk
    rcases List.mem_or_eq_of_mem_set hk with hk | rfl
    · exact hc k hk
    · exact hnew isMember (hc n (List.mem_of_getElem? hn))
  | afterLast => simp at hold

/-- A node that is written keeps the rules of the whole if it fits wherever the
old node did. -/
theorem fitsContent_put? {c c' : Content} {old new : Node} (hold : c.get? p = some (.node old))
    (hput : c.put? p (.node new) = some c') (hnew : g.Replaces old new)
    (hc : g.FitsContent isMember c) : g.FitsContent isMember c' := by
  induction p generalizing c c' isMember with
  | nil =>
    obtain rfl := Option.some.inj hold
    obtain rfl := Option.some.inj hput
    exact hnew isMember hc
  | cons step p ih =>
    obtain ⟨d, rebuilt, hd, hrebuilt, hwith⟩ := Content.put?_cons_eq_some.1 hput
    rw [Content.get?_cons, hd, Option.bind_some] at hold
    exact fits_withChild? hd hwith (Content.holdsNodes_of_get? hold)
      (fun isMember hd => ih hold hrebuilt hd) hc

/-- **A write keeps the rules of a document** if the new node fits wherever the
old one did. -/
theorem fits_put? {old new : Node} (hold : tree.nodeAt? p = some old)
    (hput : tree.put? p (.node new) = some tree') (hnew : g.Replaces old new)
    (htree : g.Fits false tree) : g.Fits false tree' :=
  fitsContent_put? (c := .node tree) (Node.nodeAt?_eq_some.1 hold) (Node.put?_eq_some.1 hput) hnew
    htree

/-- New items for a group keep the rules if each of them does. -/
theorem fits_put?_items {kind : GroupKind} {ns ms : List Node}
    (hold : tree.nodeAt? p = some (.group kind ns))
    (hput : tree.put? (p ++ [Step.field kind.field]) (.items ms) = some tree')
    (hms : (∀ n ∈ ns, g.Fits (kind == .object) n) → ∀ m ∈ ms, g.Fits (kind == .object) m)
    (htree : g.Fits false tree) : g.Fits false tree' := by
  rw [Node.put?_items hold] at hput
  refine fits_put? hold hput (fun isMember hgroup => ?_) htree
  obtain ⟨hseat, hns⟩ := fits_group_iff.1 hgroup
  exact fits_group_iff.2 ⟨hseat, hms hns⟩

end Grammar

end StructuralEditor.Document
