/-
StructuralEditor/Proofs/Conformity.lean

Edits and the rules of a document.

Almost every edit is one write into the document (`insert_cases`, `delete_cases`,
…), so what it has to do for a grammar is said by `Grammar.fits_put?`: the node that
it writes must fit wherever the old one stood.  A node that comes from outside has
to bring this along, and a conversion brings it along unless it is asked to convert
a property.  A move takes two writes, but needs nothing (`fits_of_shifts`): the rest
of the document keeps the rules, and an item that changes its list is a property and
comes into an object.  `Edit.Conforms` says what each edit needs, and
`Edit.keepsRules_run` that this is enough.
-/
import StructuralEditor.Proofs.Editing
import StructuralEditor.Proofs.Grammar

namespace StructuralEditor.Editing

open Document Number

variable {g : Grammar} {tree rebuilt : Node} {selected p : Path}

/-! ### Outcomes that keep the rules -/

/-- Whether an edit of a snapshot leaves a document behind that keeps the
rules. -/
def KeepsRules (g : Grammar) (s : Snapshot) : Except EditError Outcome → Prop
  | .ok (.applied _ change) => g.Fits false (s.apply change).tree
  | _ => True

/-- An edit in steps keeps the rules if its last step does. -/
theorem keepsRules_bind {α : Type} {s : Snapshot} {x : Except EditError α}
    {f : α → Except EditError Outcome} (h : ∀ a, x = .ok a → KeepsRules g s (f a)) :
    KeepsRules g s (x >>= f) := by
  cases x with
  | error cause => trivial
  | ok a => exact h a rfl

/-! ### The selection -/

theorem keepsRules_moveSelection (direction : Direction) (htree : g.Fits false tree) :
    KeepsRules g ⟨tree, selected⟩ (moveSelection direction tree selected) := by
  rw [moveSelection]
  rcases navigate direction tree selected with cause | target
  · trivial
  · exact htree

theorem keepsRules_select (target : Path) (htree : g.Fits false tree) :
    KeepsRules g ⟨tree, selected⟩ (.ok (select target tree)) := by
  unfold select
  split
  · exact htree
  · trivial

/-! ### Items -/

theorem fits_unnamed {n : Node} (h : g.Fits false n) : g.Fits true (.unnamed n) :=
  Grammar.fits_pair_iff.2 ⟨fun _ => rfl, Grammar.fits_leaf (by simp), h⟩

theorem keepsRules_insert {node : Node} (hnode : g.Fits false node)
    (h : tree.resolves selected = true) (htree : g.Fits false tree) :
    KeepsRules g ⟨tree, selected⟩ (insert node tree selected) := by
  rcases insert_cases node h with heq |
    ⟨owner, kind, ns, i, item, below, rebuilt, -, howner, -, hitem, hput, heq⟩
  · rw [heq]
    trivial
  · rw [heq]
    refine Grammar.fits_put?_items howner hput (fun hns m hm => ?_) htree
    have hfits : g.Fits (kind == .object) item := by
      rcases hitem with ⟨rfl, rfl, -⟩ | ⟨rfl, rfl, -⟩
      · exact hnode
      · exact fits_unnamed hnode
    rcases Node.mem_insertItem.1 hm with rfl | hm
    · exact hfits
    · exact hns m hm

theorem fits_null : g.Fits false .null :=
  ⟨fun _ => rfl, .null⟩

theorem keepsRules_delete (htree : g.Fits false tree) :
    KeepsRules g ⟨tree, selected⟩ (.ok (delete tree selected)) := by
  rcases delete_cases tree selected with heq | heq |
    ⟨owner, kind, ns, i, rebuilt, -, howner, -, hput, heq⟩
  · rw [heq]
    exact fits_null
  · rw [heq]
    trivial
  · rw [heq]
    rw [← Node.put?_items howner] at hput
    exact Grammar.fits_put?_items howner hput
      (fun hns m hm => hns m (List.mem_of_mem_eraseIdx hm)) htree

/-! ### Moving an item -/

/-- A write at a list keeps the rules if the new items fit wherever the old ones
did. -/
theorem fits_put?_list {list : Path} {ns ms : List Node} (hns : tree.itemsAt? list = some ns)
    (hput : tree.put? list (.items ms) = some rebuilt)
    (hms : ∀ isMember, (∀ n ∈ ns, g.Fits isMember n) → ∀ m ∈ ms, g.Fits isMember m)
    (htree : g.Fits false tree) : g.Fits false rebuilt := by
  obtain ⟨owner, kind, rfl, howner⟩ := owner_of_items hns
  exact Grammar.fits_put?_items howner hput (hms _) htree

/-- What is left without the item keeps the rules, … -/
theorem fits_rest {gap : Gap} {rest item : Node} (hfills : gap.Fills rest item tree)
    (htree : g.Fits false tree) : g.Fits false rest := by
  have ⟨hlist, _, _⟩ := hfills
  exact fits_put?_list (hfills.itemsAt? hlist) (hfills.put?_rest hlist)
    (fun isMember hns n hn => hns n (Node.mem_insertItem.2 (.inr hn))) htree

/-- … and so does a property that has been put into an object. -/
theorem fits_of_fills_object {gap : Gap} {rest item : Node} {owner : Path} {ns : List Node}
    (hfills : gap.Fills rest item tree)
    (hlist : gap.list = owner ++ [Step.field GroupKind.object.field])
    (howner : rest.nodeAt? owner = some (.object ns)) (hproperty : item.isProperty = true)
    (hitem : g.Sound item) (hrest : g.Fits false rest) : g.Fits false tree := by
  have hput := hfills.put?_filled (by rw [hlist]; exact Node.itemsAt?_of_group howner)
  rw [hlist] at hput
  refine Grammar.fits_put?_items howner hput (fun hns m hm => ?_) hrest
  rcases Node.mem_insertItem.1 hm with rfl | hm
  · exact ⟨fun _ => hproperty, hitem⟩
  · exact hns m hm

/-- A step of the gap keeps the rules. -/
theorem fits_of_shifts {x : Excerpt} {gap gap' : Gap} {direction : Vertical} {effect : Effect}
    {s s' : Snapshot} (hs : x.Makes gap s) (hshifts : x.Shifts direction gap effect gap')
    (hs' : x.Makes gap' s') (htree : g.Fits false s.tree) : g.Fits false s'.tree := by
  have hrest := fits_rest hs.fills htree
  have hitem := Grammar.sound_nodeAt? htree hs.fills.nodeAt?
  cases hshifts with
  | swapped hlist hk hplain =>
    -- the list has the same items as before
    have hput := hs'.fills.put?_filled hlist
    rw [← hs.fills.put?_eq] at hput
    refine fits_put?_list (hs.fills.itemsAt? hlist) hput (fun isMember hns m hm => ?_) htree
    exact hns m (Node.mem_insertItem.2 (Node.mem_insertItem.1 hm))
  | @entered list ns k key properties hlist hk hproperty =>
    have howner : x.rest.nodeAt? (list ++ [Step.index k, .field PairKind.property.secondField]) =
        some (.object properties) := by
      rw [Node.nodeAt?_eq_some, Node.get?_append, Node.itemsAt?_eq_some.1 hlist]
      simp [Content.get?_cons, hk]
    exact fits_of_fills_object hs'.fills (by simp [Content.nestedItems]) howner hproperty hitem
      hrest
  | exited howner hk hproperty =>
    exact fits_of_fills_object hs'.fills rfl howner hproperty hitem hrest

/-- **Moving an item keeps the rules**, whichever way it goes. -/
theorem keepsRules_move (direction : Vertical) (htree : g.Fits false tree) :
    KeepsRules g ⟨tree, selected⟩ (move direction tree selected) := by
  rcases move_declined_or_shifts direction ⟨tree, selected⟩ with ⟨reason, hmove⟩ |
    ⟨x, gap, effect, gap', s', hs, hshifts, hs', hmove⟩
  · rw [hmove]
    trivial
  · rw [hmove]
    exact fits_of_shifts hs hshifts hs' htree

/-! ### The selected node -/

theorem keepsRules_replace {node : Node} {below : Path}
    (hnode : ∀ old, tree.nodeAt? selected = some old → g.Replaces old node)
    (htree : g.Fits false tree) :
    KeepsRules g ⟨tree, selected⟩ (replace node below tree selected) := by
  rcases replace_cases node below tree selected with
    ⟨-, heq⟩ | ⟨c, -, -, heq⟩ | ⟨old, rebuilt, hold, hput, heq⟩
  · rw [heq]
    trivial
  · rw [heq]
    trivial
  · rw [heq]
    exact Grammar.fits_put? hold hput (hnode old hold) htree

/-- A field of the selected node is written in the node. -/
theorem put?_of_set_field {name : String} {new : Content}
    (h : tree.set (selected ++ [Step.field name]) new = .ok rebuilt) :
    ∃ node node', tree.nodeAt? selected = some node ∧ node.withField? name new = some node' ∧
      tree.put? selected (.node node') = some rebuilt := by
  have hput : tree.put? (selected ++ [Step.field name]) new = some rebuilt := by
    unfold Node.set at h
    split at h
    · next tree' htree' => rw [htree', Except.ok.inj h]
    · cases h
  have hcontent := Node.put?_eq_some.1 hput
  rw [Content.put?_append] at hcontent
  obtain ⟨c, hc, hrest⟩ := Option.bind_eq_some_iff.1 hcontent
  obtain ⟨mid, hmid, hwrite⟩ := Option.bind_eq_some_iff.1 hrest
  obtain ⟨old, new', hold, hnew, hwith⟩ := Content.put?_cons_eq_some.1 hmid
  obtain rfl := Option.some.inj hnew
  obtain ⟨node, rfl, -⟩ := Content.child?_eq_some_field hold
  obtain ⟨node', hnode', rfl⟩ := Option.map_eq_some_iff.1 hwith
  exact ⟨node, node', Node.nodeAt?_eq_some.2 hc, hnode', Node.put?_eq_some.2 hwrite⟩

/-- Whether a node becomes another one when its value is revised. -/
def BecomesBy (revise : Content → Except EditError Content) (node node' : Node) : Prop :=
  ∃ old new, node.field? "value" = some old ∧ revise old = .ok new ∧
    node.withField? "value" new = some node'

theorem keepsRules_updateValue {revise : Content → Except EditError Content}
    (hrevise : ∀ node node', tree.nodeAt? selected = some node → BecomesBy revise node node' →
      g.Replaces node node')
    (htree : g.Fits false tree) :
    KeepsRules g ⟨tree, selected⟩ (updateValue revise tree selected) := by
  unfold updateValue
  simp only
  split
  · trivial
  · next old hold =>
    refine keepsRules_bind fun new hnew => keepsRules_bind fun rebuilt hset => ?_
    obtain ⟨node, node', hnode, hnode', hput⟩ := put?_of_set_field hset
    have hfield : node.field? "value" = some old := by
      rw [Node.get?_append, Node.nodeAt?_eq_some.1 hnode] at hold
      simpa using hold
    exact Grammar.fits_put? hnode hput
      (hrevise node node' hnode ⟨old, new, hfield, hnew, hnode'⟩) htree

/-- A leaf takes every text that its kind admits. -/
theorem replaces_leaf {kind : LeafKind} {old text : String} (htext : kind = .number → g.number text) :
    g.Replaces (.leaf kind old) (.leaf kind text) :=
  fun _ h => ⟨h.1, .leaf htext⟩

theorem keepsRules_setText {text : String}
    (htext : ∀ old, tree.nodeAt? selected = some (.number old) → g.number text)
    (htree : g.Fits false tree) :
    KeepsRules g ⟨tree, selected⟩ (setText text tree selected) := by
  rcases setText_cases text tree selected with ⟨reason, heq⟩ | ⟨kind, old, rebuilt, hleaf, hput, heq⟩
  · rw [heq]
    trivial
  · rw [heq]
    have hreplaces : g.Replaces (.leaf kind old) (.leaf kind text) := by
      apply replaces_leaf
      rintro rfl
      exact htext old hleaf
    exact Grammar.fits_put? hleaf hput hreplaces htree

theorem keepsRules_changeKeyword (keyword : String) (htree : g.Fits false tree) :
    KeepsRules g ⟨tree, selected⟩ (changeKeyword keyword tree selected) := by
  rcases changeKeyword_cases keyword tree selected with heq | ⟨old, ns, rebuilt, hnode, hput, heq⟩
  · rw [heq]
    trivial
  · rw [heq]
    have hreplaces : g.Replaces (.declaration old ns) (.declaration keyword ns) := by
      intro isMember h
      obtain ⟨hseat, hns⟩ := Grammar.fits_group_iff.1 h
      exact Grammar.fits_group_iff.2 ⟨hseat, hns⟩
    exact Grammar.fits_put? hnode hput hreplaces htree

theorem keepsRules_addToNumber (increment : Data) (htree : g.Fits false tree) :
    KeepsRules g ⟨tree, selected⟩ (addToNumber increment tree selected) := by
  unfold addToNumber
  split
  · next text hnumber =>
    refine keepsRules_updateValue (fun node node' hnode hbecomes => ?_) htree
    obtain rfl := Option.some.inj (hnumber.symm.trans hnode)
    obtain ⟨old, new, -, hnew, hnode'⟩ := hbecomes
    rcases hterm : increment.addend with cause | term
    · rw [hterm] at hnew
      cases hnew
    · rw [hterm] at hnew
      obtain rfl := Except.ok.inj hnew
      obtain rfl : .number ((Double.ofLeading text).add term).canonicalText = node' := by
        simpa [Node.withField?, LeafKind.field] using hnode'
      exact replaces_leaf fun _ => g.number_canonicalText _
  · trivial

/-! ### Conversions -/

/-- Whether an edit turns the selected node into another kind. -/
def Edit.isConversion : Edit → Bool
  | .setBoolean _ | .toText | .toNumber | .toArray | .toObject | .toNull => true
  | _ => false

/-- A conversion is a replacement.  What it puts in is no property, and a number
only with its canonical text. -/
theorem Edit.conversion_eq_replace {edit : Edit} {s : Snapshot} {old : Node}
    (hedit : edit.isConversion = true) (hold : s.node? = some old) :
    ∃ new below, new.isProperty = false ∧ (∀ text, new = .number text → IsCanonical text) ∧
      edit.run s = Editing.replace new below s.tree s.selected := by
  have hnode : s.tree.nodeAt? s.selected = some old := hold
  cases edit with
  | setBoolean value => exact ⟨.boolean value, [], rfl, by simp, rfl⟩
  | toText => exact ⟨.string _, [], rfl, by simp, rfl⟩
  | toNumber =>
    refine ⟨.number _, [], rfl, fun text hnumber => ?_, rfl⟩
    obtain ⟨-, rfl⟩ := Node.leaf.inj hnumber
    exact isCanonical_canonicalText _
  | toArray => exact ⟨.array [old], [], rfl, by simp, by simp only [Edit.run, Editing.toArray, hnode]⟩
  | toObject =>
    exact ⟨.object [.unnamed old], _, rfl, by simp,
      by simp only [Edit.run, Editing.toObject, hnode]; rfl⟩
  | toNull => exact ⟨.null, [], rfl, by simp, rfl⟩
  | _ => cases hedit

/-- What is no property can be replaced by anything that may stand outside
objects. -/
theorem replaces_of_seats {old new : Node} (hold : g.Seats false old) (hnew : g.Fits false new) :
    g.Replaces old new := by
  intro isMember h
  refine ⟨fun hstrict => ?_, hnew.2⟩
  rw [hnew.1 hstrict, ← hold hstrict, h.1 hstrict]

/-- So can it be by a node around it. -/
theorem replaces_array {old : Node} (hold : g.Seats false old) : g.Replaces old (.array [old]) := by
  intro isMember h
  have hold' : g.Fits false old := ⟨hold, h.2⟩
  refine replaces_of_seats hold (Grammar.fits_group_iff.2 ⟨fun _ => rfl, fun n hn => ?_⟩) isMember h
  obtain rfl := List.mem_singleton.1 hn
  exact hold'

theorem replaces_object {old : Node} (hold : g.Seats false old) :
    g.Replaces old (.object [.unnamed old]) := by
  intro isMember h
  have hold' : g.Fits true (.unnamed old) := fits_unnamed ⟨hold, h.2⟩
  refine replaces_of_seats hold (Grammar.fits_group_iff.2 ⟨fun _ => rfl, fun n hn => ?_⟩) isMember h
  obtain rfl := List.mem_singleton.1 hn
  exact hold'

/-! ### All edits -/

/-- What an edit needs so as to keep the rules: the nodes that it brings along
fit, and what is converted may stand outside objects. -/
def Edit.Conforms (g : Grammar) (s : Snapshot) : Edit → Prop
  | .insert node => g.Fits false node
  | .replace node _ => ∀ old, s.node? = some old → g.Replaces old node
  | .updateValue revise =>
    ∀ node node', s.node? = some node → BecomesBy revise node node' → g.Replaces node node'
  | .setText text => ∀ old, s.node? = some (.number old) → g.number text
  | .setBoolean _ | .toText | .toNumber | .toArray | .toObject | .toNull =>
    ∀ old, s.node? = some old → g.Seats false old
  | .reset tree => g.Fits false tree
  | _ => True

/-- **An edit that conforms keeps the rules of a document.** -/
theorem Edit.keepsRules_run {edit : Edit} {s : Snapshot} (hs : s.resolves = true)
    (hedit : edit.Conforms g s) (htree : g.Fits false s.tree) : KeepsRules g s (edit.run s) := by
  cases edit with
  | navigate name =>
    exact keepsRules_bind fun direction _ => keepsRules_moveSelection direction htree
  | select target => exact keepsRules_select target htree
  | insert node => exact keepsRules_insert hedit hs htree
  | delete => exact keepsRules_delete htree
  | move name =>
    simp only [Edit.run]
    split
    · exact keepsRules_move _ htree
    · trivial
  | replace node below => exact keepsRules_replace hedit htree
  | updateValue revise => exact keepsRules_updateValue hedit htree
  | setText text => exact keepsRules_setText hedit htree
  | changeKeyword keyword => exact keepsRules_changeKeyword keyword htree
  | setBoolean value =>
    exact keepsRules_replace (fun old hold => replaces_of_seats (hedit old hold)
      ⟨fun _ => rfl, .boolean value⟩) htree
  | addToNumber increment => exact keepsRules_addToNumber increment htree
  | toText =>
    exact keepsRules_replace (fun old hold => replaces_of_seats (hedit old hold)
      (Grammar.fits_leaf (by simp))) htree
  | toNumber =>
    exact keepsRules_replace (fun old hold => replaces_of_seats (hedit old hold)
      (Grammar.fits_leaf fun _ => g.number_canonicalText _)) htree
  | toArray =>
    simp only [Edit.run, Editing.toArray]
    split
    · trivial
    · next node hnode =>
      refine keepsRules_replace (fun old hold => ?_) htree
      obtain rfl := Option.some.inj (hnode.symm.trans hold)
      exact replaces_array (hedit node hnode)
  | toObject =>
    simp only [Edit.run, Editing.toObject]
    split
    · trivial
    · next node hnode =>
      refine keepsRules_replace (fun old hold => ?_) htree
      obtain rfl := Option.some.inj (hnode.symm.trans hold)
      exact replaces_object (hedit node hnode)
  | toNull =>
    exact keepsRules_replace (fun old hold => replaces_of_seats (hedit old hold) fits_null) htree
  | reset tree => exact hedit

end StructuralEditor.Editing
