/-
StructuralEditor/Proofs/Neighbours.lean

Neighbours on the timeline of a session.

What a commit records differs from the *prepared* snapshot, but it is recorded
next to the *current* one.  So two neighbours may be the same, if an edit ends
where the preparation has started from.  Only one thing can bring this about: a
number is selected whose text is not canonical (`Snapshot.ShowsRaw`), and the edit
writes back the text that the preparation has taken away
(`Edit.givesBack_run_iff`).

An edit that deletes an item or inserts one does not, since the write
that separates the prepared snapshot from the current one keeps the length of
every list that it runs through.  An item that moves takes the selection with it,
and a conversion makes no number or one with its canonical text.
-/
import Mathlib.Data.List.Chain
import StructuralEditor.Proofs.Conformity
import StructuralEditor.Proofs.Preparation
import StructuralEditor.Proofs.Steps

namespace StructuralEditor

open Document Editing Number

/-! ### The prepared snapshot and the current one -/

/-- Whether a number is selected whose text is not canonical. -/
structure Document.Snapshot.ShowsRaw (s : Snapshot) (text : String) : Prop where
  node : s.node? = some (.number text)
  not_isCanonical : ¬ IsCanonical text

/-- Any other snapshot is prepared already. -/
theorem Document.Snapshot.prepared_eq_self {s : Snapshot} (hs : s.resolves = true)
    (hraw : ∀ text, ¬ s.ShowsRaw text) : s.prepared = s := by
  rcases hn : s.node? with - | n
  · exact prepared_of_node?_eq_none hs hn
  · apply prepared_of_canonicalized hn
    by_contra hcanonicalized
    cases n with
    | leaf kind text =>
      cases kind with
      | number => exact hraw text ⟨hn, fun htext => hcanonicalized (congrArg Node.number htext)⟩
      | _ => exact hcanonicalized rfl
    | _ => exact hcanonicalized rfl

namespace Document.Snapshot.ShowsRaw

variable {s : Snapshot} {text : String}

theorem resolves (h : s.ShowsRaw text) : s.resolves = true :=
  Node.resolves_of_nodeAt? h.node

theorem selected_prepared (h : s.ShowsRaw text) : s.prepared.selected = s.selected :=
  (resolves_prepared h.resolves).2

theorem resolves_prepared_tree (h : s.ShowsRaw text) :
    s.prepared.tree.resolves s.selected = true := by
  rw [← h.selected_prepared]
  exact (resolves_prepared h.resolves).1

theorem nodeAt?_prepared (h : s.ShowsRaw text) :
    s.prepared.tree.nodeAt? s.selected = some (.number (normalize text)) := by
  rw [← h.selected_prepared]
  exact (node?_prepared h.resolves).trans (by rw [h.node]; rfl)

theorem tree_prepared_ne (h : s.ShowsRaw text) : s.prepared.tree ≠ s.tree := by
  intro heq
  have hnode := h.nodeAt?_prepared
  rw [heq, show s.tree.nodeAt? s.selected = some (.number text) from h.node] at hnode
  obtain ⟨-, htext⟩ := Node.leaf.inj (Option.some.inj hnode)
  exact h.not_isCanonical htext.symm

/-- A change of the prepared snapshot ends at the current one only if it writes
the whole document and keeps the selection. -/
theorem apply_prepared_eq_iff (h : s.ShowsRaw text) {change : Change} :
    s.prepared.apply change = s ↔
      change.tree? = some s.tree ∧ change.selected?.getD s.selected = s.selected := by
  constructor
  · intro heq
    have htree : change.tree?.getD s.prepared.tree = s.tree := congrArg Snapshot.tree heq
    have hselected : change.selected?.getD s.prepared.selected = s.selected :=
      congrArg Snapshot.selected heq
    rw [h.selected_prepared] at hselected
    refine ⟨?_, hselected⟩
    cases htree? : change.tree? with
    | none => exact absurd (by rwa [htree?] at htree) h.tree_prepared_ne
    | some tree => rw [← htree, htree?, Option.getD_some]
  · rintro ⟨htree, hselected⟩
    simp only [apply, htree, Option.getD_some, h.selected_prepared, hselected]

/-- The one node that can be written back is the number with its text. -/
theorem put?_prepared_iff (h : s.ShowsRaw text) {node : Node} :
    s.prepared.tree.put? s.selected (.node node) = some s.tree ↔ node = .number text := by
  constructor
  · intro hput
    have hnode := Node.nodeAt?_eq_some.2 (Node.get?_put? hput)
    exact Option.some.inj (hnode.symm.trans h.node)
  · rintro rfl
    exact put?_prepared h.node

/-- A list that the selection runs through has as many items before the
preparation as after it. -/
theorem length_eq_of_put? (h : s.ShowsRaw text) {list below : Path} {i : Nat} {ns ms : List Node}
    (hselected : s.selected = list ++ Step.index i :: below)
    (hns : s.prepared.tree.itemsAt? list = some ns)
    (hput : s.prepared.tree.put? list (.items ms) = some s.tree) : ms.length = ns.length := by
  have hback := put?_prepared h.node
  rw [hselected] at hback
  exact Node.length_items_put? hns hback (Node.itemsAt?_eq_some.2 (Node.get?_put? hput))

end Document.Snapshot.ShowsRaw

/-! ### Edits that end where they have started from -/

namespace Editing

variable {s : Snapshot} {text : String}

/-- Whether an edit of the prepared snapshot ends at the snapshot itself. -/
def GivesBack (s : Snapshot) (result : Except EditError Outcome) : Prop :=
  ∃ effect change, result = .ok (.applied effect change) ∧ s.prepared.apply change = s

theorem givesBack_applied_iff (h : s.ShowsRaw text) {effect : Effect} {change : Change} :
    GivesBack s (.ok (.applied effect change)) ↔
      change.tree? = some s.tree ∧ change.selected?.getD s.selected = s.selected := by
  rw [← h.apply_prepared_eq_iff]
  constructor
  · rintro ⟨_, _, heq, happly⟩
    obtain ⟨-, rfl⟩ := Outcome.applied.inj (Except.ok.inj heq)
    exact happly
  · exact fun happly => ⟨effect, change, rfl, happly⟩

theorem not_givesBack_declined {reason : Reason} : ¬ GivesBack s (.ok (.declined reason)) := by
  rintro ⟨_, _, heq, -⟩
  cases heq

theorem not_givesBack_error {cause : EditError} : ¬ GivesBack s (.error cause) := by
  rintro ⟨_, _, heq, -⟩
  cases heq

/-- What moves the selection does not write the document. -/
theorem not_givesBack_moveSelection (h : s.ShowsRaw text) (direction : Direction) :
    ¬ GivesBack s (moveSelection direction s.prepared.tree s.selected) := by
  obtain ⟨target, hnavigate, -⟩ := navigate_eq_ok direction h.resolves_prepared_tree
  rw [moveSelection, hnavigate]
  intro hback
  have htree := ((givesBack_applied_iff h).1 hback).1
  cases htree

theorem not_givesBack_select (h : s.ShowsRaw text) (target : Path) :
    ¬ GivesBack s (.ok (select target s.prepared.tree)) := by
  unfold select
  split
  · intro hback
    have htree := ((givesBack_applied_iff h).1 hback).1
    cases htree
  · exact not_givesBack_declined

/-! #### Lists -/

theorem not_givesBack_insert (h : s.ShowsRaw text) (node : Node) :
    ¬ GivesBack s (insert node s.prepared.tree s.selected) := by
  rcases insert_cases node h.resolves_prepared_tree with heq |
    ⟨owner, kind, ns, i, item, below, rebuilt, -, howner, -, -, hput, heq⟩
  · rw [heq]
    exact not_givesBack_declined
  · rw [heq, givesBack_applied_iff h]
    rintro ⟨htree, hselected⟩
    obtain rfl := Option.some.inj htree
    have hlength := h.length_eq_of_put? hselected.symm (Node.itemsAt?_of_group howner) hput
    simp at hlength

theorem not_givesBack_delete (h : s.ShowsRaw text) :
    ¬ GivesBack s (.ok (delete s.prepared.tree s.selected)) := by
  rcases delete_cases s.prepared.tree s.selected with heq | heq |
    ⟨owner, kind, ns, i, rebuilt, hitem, howner, hi, hput, heq⟩
  · rw [heq, givesBack_applied_iff h]
    rintro ⟨htree, hselected⟩
    -- the null at the root is no number
    have hnode := h.node
    rw [Snapshot.node?, ← Option.some.inj htree, ← hselected] at hnode
    cases hnode
  · rw [heq]
    exact not_givesBack_declined
  · rw [heq, givesBack_applied_iff h]
    rintro ⟨htree, -⟩
    obtain rfl := Option.some.inj htree
    obtain ⟨⟨before, step, after⟩, hsplit, hbefore⟩ := Option.map_eq_some_iff.1 hitem
    obtain ⟨hselected, -, -⟩ := Path.splitAtLast_eq_some hsplit
    obtain ⟨rfl, hstep⟩ := List.append_inj' hbefore rfl
    obtain rfl := List.singleton_inj.1 hstep
    have hitems := Node.itemsAt?_of_group howner
    rw [← Node.put?_items howner] at hput
    have hlength := h.length_eq_of_put? hselected hitems hput
    rw [List.length_eraseIdx_of_lt hi] at hlength
    omega

theorem not_givesBack_move (h : s.ShowsRaw text) (direction : Vertical) :
    ¬ GivesBack s (move direction s.prepared.tree s.selected) := by
  rcases move_declined_or_shifts direction ⟨s.prepared.tree, s.selected⟩ with ⟨reason, hmove⟩ |
    ⟨x, g, effect, g', s', hs, hshifts, hs', hmove⟩
  · rw [hmove]
    exact not_givesBack_declined
  · rw [hmove, givesBack_applied_iff h]
    rintro ⟨-, hsame⟩
    -- the item has moved, and the selection with it
    have hpaths : g'.path ++ x.below = g.path ++ x.below :=
      hs'.selected.symm.trans (hsame.trans hs.selected)
    exact hshifts.path_ne (List.append_cancel_right hpaths)

/-! #### The selected number -/

theorem givesBack_replace_iff (h : s.ShowsRaw text) {node : Node} {below : Path} :
    GivesBack s (replace node below s.prepared.tree s.selected) ↔
      node = .number text ∧ below = [] := by
  obtain ⟨rebuilt, hput, heq⟩ := replace_eq_ok h.nodeAt?_prepared node below
  rw [heq, givesBack_applied_iff h, ← h.put?_prepared_iff, hput]
  simp

theorem givesBack_setText_iff (h : s.ShowsRaw text) {typed : String} :
    GivesBack s (setText typed s.prepared.tree s.selected) ↔ typed = text := by
  obtain ⟨rebuilt, hput, heq⟩ := setText_eq_ok h.nodeAt?_prepared typed
  have hnumber : Node.number typed = .number text ↔ typed = text := by simp
  rw [heq, givesBack_applied_iff h, ← hnumber, ← h.put?_prepared_iff, hput]
  simp

theorem givesBack_updateValue_iff (h : s.ShowsRaw text)
    {revise : Content → Except EditError Content} :
    GivesBack s (updateValue revise s.prepared.tree s.selected) ↔
      revise (.text (normalize text)) = .ok (.text text) := by
  have hold : s.prepared.tree.get? (s.selected ++ [Step.field "value"]) =
      some (.text (normalize text)) := by
    rw [Node.get?_append, Node.nodeAt?_eq_some.1 h.nodeAt?_prepared]
    simp [Node.field?, LeafKind.field]
  simp only [updateValue, hold]
  rcases revise (.text (normalize text)) with cause | new
  · exact iff_of_false not_givesBack_error (by simp)
  · simp only [bind, Except.bind]
    constructor
    · intro hback
      split at hback
      · exact absurd hback not_givesBack_error
      · next rebuilt hset =>
        obtain ⟨htree, -⟩ := (givesBack_applied_iff h).1 hback
        obtain rfl := Option.some.inj htree
        obtain ⟨node, node', hnode, hnode', hput⟩ := put?_of_set_field hset
        obtain rfl := Option.some.inj (h.nodeAt?_prepared.symm.trans hnode)
        rw [h.put?_prepared_iff] at hput
        -- the number that is written back has the revised text
        have hfield := Node.field?_withField? hnode'
        rw [hput] at hfield
        simpa [Node.field?, LeafKind.field, eq_comm] using hfield
    · intro heq
      obtain rfl := Except.ok.inj heq
      obtain ⟨_, node', rebuilt, hnode, hnode', hput, hok⟩ :=
        set_field_eq_ok hold (rfl : (Content.text _).sort = (Content.text text).sort)
      obtain rfl := Option.some.inj (h.nodeAt?_prepared.symm.trans hnode)
      obtain rfl : .number text = node' := by simpa [Node.withField?, LeafKind.field] using hnode'
      rw [hok, givesBack_applied_iff h, ← hput, h.put?_prepared_iff]
      exact ⟨rfl, rfl⟩

theorem not_givesBack_addToNumber (h : s.ShowsRaw text) (increment : Data) :
    ¬ GivesBack s (addToNumber increment s.prepared.tree s.selected) := by
  simp only [addToNumber, h.nodeAt?_prepared]
  rw [givesBack_updateValue_iff h]
  intro heq
  -- the sum is written in canonical form
  rcases hterm : increment.addend with cause | term
  · rw [hterm] at heq
    cases heq
  · rw [hterm] at heq
    have hcanonical := isCanonical_canonicalText ((Double.ofLeading (normalize text)).add term)
    rw [Content.text.inj (Except.ok.inj heq)] at hcanonical
    exact h.not_isCanonical hcanonical

theorem not_givesBack_changeKeyword (h : s.ShowsRaw text) (keyword : String) :
    ¬ GivesBack s (changeKeyword keyword s.prepared.tree s.selected) := by
  have hnone : s.prepared.tree.get? (s.selected ++ [Step.field keywordField]) = none := by
    rw [Node.get?_append, Node.nodeAt?_eq_some.1 h.nodeAt?_prepared]
    simp [Node.field?, LeafKind.field, keywordField]
  simp only [changeKeyword, hnone]
  exact not_givesBack_declined

theorem not_givesBack_conversion (h : s.ShowsRaw text) {edit : Edit}
    (hedit : edit.isConversion = true) :
    ¬ GivesBack s (edit.run ⟨s.prepared.tree, s.selected⟩) := by
  have hold : (Snapshot.mk s.prepared.tree s.selected).node? = some (.number (normalize text)) :=
    h.nodeAt?_prepared
  obtain ⟨new, below, -, hcanonical, heq⟩ := Edit.conversion_eq_replace hedit hold
  rw [heq, givesBack_replace_iff h]
  exact fun hback => h.not_isCanonical (hcanonical text hback.1)

/-! #### All edits -/

/-- Whether an edit of a canonical number writes a given text in its place. -/
def Edit.Retypes (text : String) (selected : Path) : Edit → Prop
  | .setText typed => typed = text
  | .replace node below => node = .number text ∧ below = []
  | .updateValue revise => revise (.text (normalize text)) = .ok (.text text)
  | .reset tree => tree = .number text ∧ selected = []
  | _ => False

/-- **An edit ends where it has started from only if it writes back the text of the
selected number.** -/
theorem Edit.givesBack_run_iff (h : s.ShowsRaw text) (edit : Edit) :
    GivesBack s (edit.run s.prepared) ↔ edit.Retypes text s.selected := by
  have hprepared : s.prepared = ⟨s.prepared.tree, s.selected⟩ := by rw [← h.selected_prepared]
  rw [hprepared]
  cases edit with
  | navigate name =>
    refine iff_of_false ?_ id
    simp only [Edit.run]
    rcases Direction.ofName name with cause | direction
    · exact not_givesBack_error
    · exact not_givesBack_moveSelection h direction
  | select target => exact iff_of_false (not_givesBack_select h target) id
  | insert node => exact iff_of_false (not_givesBack_insert h node) id
  | delete => exact iff_of_false (not_givesBack_delete h) id
  | move name =>
    refine iff_of_false ?_ id
    simp only [Edit.run]
    split
    · exact not_givesBack_move h _
    · exact not_givesBack_declined
  | replace node below => exact givesBack_replace_iff h
  | updateValue revise => exact givesBack_updateValue_iff h
  | setText typed => exact givesBack_setText_iff h
  | changeKeyword keyword => exact iff_of_false (not_givesBack_changeKeyword h keyword) id
  | addToNumber increment => exact iff_of_false (not_givesBack_addToNumber h increment) id
  | setBoolean | toText | toNumber | toArray | toObject | toNull =>
    exact iff_of_false (not_givesBack_conversion h rfl) id
  | reset tree =>
    rw [Edit.run, givesBack_applied_iff h]
    simp only [Option.some.injEq, Option.getD_some, Edit.Retypes]
    -- with the root selected, the number is the whole document
    constructor
    · rintro ⟨rfl, hroot⟩
      have hnode := h.node
      rw [Snapshot.node?, ← hroot, Node.nodeAt?_nil] at hnode
      exact ⟨Option.some.inj hnode, hroot.symm⟩
    · rintro ⟨rfl, hroot⟩
      have hnode := h.node
      rw [Snapshot.node?, hroot, Node.nodeAt?_nil] at hnode
      exact ⟨(Option.some.inj hnode).symm, hroot.symm⟩

/-- Whether an edit writes back the text of a selected number that is not
canonical. -/
def Edit.WritesBack (edit : Edit) (s : Snapshot) : Prop :=
  ∃ text, s.ShowsRaw text ∧ edit.Retypes text s.selected

/-- What an edit makes of a snapshot, if it makes anything, is new unless it
writes such a text back. -/
theorem Edit.apply_ne {edit : Edit} {effect : Effect} {change : Change}
    (hs : s.resolves = true) (hedit : ¬ edit.WritesBack s)
    (hrun : edit.run s.prepared = .ok (.applied effect change))
    (hchanged : s.prepared.apply change ≠ s.prepared) : s.prepared.apply change ≠ s := by
  intro heq
  by_cases hraw : ∃ text, s.ShowsRaw text
  · obtain ⟨text, hraw⟩ := hraw
    exact hedit ⟨text, hraw, (edit.givesBack_run_iff hraw).1 ⟨effect, change, hrun, heq⟩⟩
  · -- otherwise the preparation has done nothing
    have hprepared := Snapshot.prepared_eq_self hs (not_exists.1 hraw)
    rw [hprepared] at heq hchanged
    exact hchanged heq

end Editing

/-! ### Neighbours on the timeline -/

namespace History

variable {h g : History}

/-- Entries are neighbours on the timeline. -/
theorem isChain_entries {R : Snapshot → Snapshot → Prop} (h : g.timeline.IsChain R) :
    g.entries.IsChain R :=
  List.IsChain.right_of_append h

theorem isChain_timeline_push {x : Snapshot} (hchain : h.timeline.IsChain (· ≠ ·))
    (hx : x ≠ h.current) : (h.push x).timeline.IsChain (· ≠ ·) := by
  show ([] ++ (h.push x).entries).IsChain (· ≠ ·)
  rw [List.nil_append, entries_push]
  apply List.IsChain.take
  exact List.isChain_cons_cons.2 ⟨hx, isChain_entries hchain⟩

end History

namespace Session

variable {s : Session}

/-- Whether a command writes back the text of a selected number that is not
canonical. -/
def Command.WritesBack (s : Session) (command : Command) : Prop :=
  ∃ edit, s.edit? command = some edit ∧ edit.WritesBack s.current

/-- Whether no two neighbours on the timeline of a session are the same. -/
structure Varies (s : Session) : Prop where
  valid : s.IsValid
  bounded : s.history.IsBounded
  timeline : s.history.timeline.IsChain (· ≠ ·)

/-- A command that writes nothing back keeps neighbours apart. -/
theorem Varies.after {command : Command} (hs : s.Varies) (hcommand : command.IsAdmissible s)
    (hnew : ¬ command.WritesBack s) : (s.after command).Varies := by
  suffices (s.after command).history.IsBounded ∧
      (s.after command).history.timeline.IsChain (· ≠ ·) from
    ⟨isValid_after hs.valid hcommand, this.1, this.2⟩
  obtain ⟨hmoves, -⟩ := s.moves_after command
  generalize (s.after command).history = h at hmoves
  cases hmoves with
  | stay => exact ⟨hs.bounded, hs.timeline⟩
  | back _ hundo =>
    rw [History.timeline_undo? hundo]
    exact ⟨History.isBounded_undo? hs.bounded hundo, hs.timeline⟩
  | forth _ hredo =>
    rw [History.timeline_redo? hs.bounded hredo]
    exact ⟨History.isBounded_redo? hs.bounded hredo, hs.timeline⟩
  | record hedit hrun hchanged =>
    have hne := Edit.apply_ne (History.IsValid.current hs.valid)
      (fun hback => hnew ⟨_, hedit, hback⟩) hrun hchanged
    exact ⟨History.isBounded_push _ _, History.isChain_timeline_push hs.timeline hne⟩

end Session

end StructuralEditor
