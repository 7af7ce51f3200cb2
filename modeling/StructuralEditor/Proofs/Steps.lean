/-
StructuralEditor/Proofs/Steps.lean

What a command does to the history of a session.

Keys, actions, the clipboard and plain edits are many ways to say few things.
This module looks at each of them once.  A command comes down to at most one
edit (`Session.edit?`), and the history afterwards is the one before, the one a
step back or forth, or the one with the snapshot that the edit asks for
(`Session.Moves`).  Nothing else is needed to show what a run of commands keeps:
a property of snapshots is kept if the snapshots that edits ask for have it
(`Session.mem_timeline_after`).
-/
import StructuralEditor.Proofs.Validity

namespace StructuralEditor

open Document Editing Number

namespace Session

variable {s : Session}

/-! ### The edit of a command -/

/-- The edit that the action of a given name comes down to, if it is one. -/
def actionEdit? (name param : Data) : Option Edit :=
  match name with
  | .text text => (Action.ofName? text).bind (·.edit? param)
  | _ => none

/-- The edit that a command comes down to, if it is one. -/
def edit? (s : Session) : Command → Option Edit
  | .press press =>
    match s.reaction press with
    | .move direction => some (.navigate direction.name)
    | .startNumber digit => some (.replace (.number digit) [])
    | .act name param => actionEdit? name param
    | .pass => none
  | .dispatch name param => actionEdit? name param
  | .edit edit => some edit
  | .reset => some (.reset s.initial)
  | .cut =>
    match s.copied with
    | .ok (some _) => some .delete
    | _ => none
  | .paste content =>
    if s.focus.isText then none
    else
      match Clipboard.nodeOf .standard content with
      | .ok node => some (.insert node)
      | .error _ => none
  | .undo | .redo | .copy | .toggleKeymap => none

/-- Whether no snapshot is due: there is no edit, or it changes nothing. -/
def IsQuiet (s : Session) (edit? : Option Edit) : Prop :=
  ∀ edit effect change, edit? = some edit →
    edit.run s.current.prepared = .ok (.applied effect change) →
      s.current.prepared.apply change = s.current.prepared

/-- What the history of a session becomes by a command that comes down to an edit,
or to none. -/
inductive Moves (s : Session) (edit? : Option Edit) : History → Prop
  | stay (hquiet : s.IsQuiet edit?) : Moves s edit? s.history
  | back {h : History} (hedit : edit? = none) (hundo : s.history.undo? = some h) : Moves s edit? h
  | forth {h : History} (hedit : edit? = none) (hredo : s.history.redo? = some h) :
      Moves s edit? h
  | record {edit : Edit} {effect : Effect} {change : Change} (hedit : edit? = some edit)
      (hrun : edit.run s.current.prepared = .ok (.applied effect change))
      (hchanged : s.current.prepared.apply change ≠ s.current.prepared) :
      Moves s edit? (s.history.push (s.current.prepared.apply change))

/-- Whether a reply moves through the history as it should, and leaves the
document of the start alone. -/
def RepliesBy (s : Session) (edit? : Option Edit) : Except CommandError Reply → Prop
  | .ok reply => s.Moves edit? reply.session.history ∧ reply.session.initial = s.initial
  | .error _ => s.IsQuiet edit?

variable {edit? : Option Edit}

theorem isQuiet_none : s.IsQuiet none := by
  intro edit effect change hedit
  cases hedit

theorem repliesBy_unmoved (answer : Answer) (report : Option Report) :
    s.RepliesBy none (.ok (s.unmoved answer report)) :=
  ⟨.stay isQuiet_none, rfl⟩

theorem repliesBy_map {reply : Except CommandError Reply} (h : s.RepliesBy edit? reply)
    {f : Reply → Reply} (hf : ∀ r, (f r).session = r.session) :
    s.RepliesBy edit? (reply.map f) := by
  cases reply with
  | error cause => exact h
  | ok r =>
    show s.Moves edit? (f r).session.history ∧ (f r).session.initial = s.initial
    rw [hf r]
    exact h

/-- What an edit asks for, if anything, and what is recorded of it. -/
theorem commit_of_change? {edit : Edit} {change : Change}
    (h : (edit.run s.current.prepared).map Outcome.change? = .ok (some change)) :
    s.commit edit = .ok ⟨{ s with history := (s.history.record change).history },
      (s.history.record change).answer.map .flag,
      (s.history.record change).announcement.text?, none⟩ := by
  rw [current] at h
  rw [commit, History.commit]
  simp only [h]
  rfl

/-- Without a change nothing is done. -/
theorem commit_of_none {edit : Edit} {outcome : Outcome}
    (h : edit.run s.current.prepared = .ok outcome) (hnone : outcome.change? = none) :
    s.commit edit = .ok (s.unmoved (.flag false) none) := by
  rw [current] at h
  rw [commit, History.commit]
  simp only [h, Except.map, hnone]
  rfl

theorem commit_of_error {edit : Edit} {cause : EditError}
    (h : edit.run s.current.prepared = .error cause) :
    s.commit edit = .error (.edit cause) := by
  rw [current] at h
  rw [commit, History.commit]
  simp only [h]
  rfl

theorem commit_of_applied {edit : Edit} {effect : Effect} {change : Change}
    (h : edit.run s.current.prepared = .ok (.applied effect change)) :
    s.commit edit = .ok ⟨{ s with history := (s.history.record change).history },
      (s.history.record change).answer.map .flag,
      (s.history.record change).announcement.text?, none⟩ :=
  commit_of_change? (by rw [h]; rfl)

theorem commit_of_declined {edit : Edit} {reason : Reason}
    (h : edit.run s.current.prepared = .ok (.declined reason)) :
    s.commit edit = .ok (s.unmoved (.flag false) none) :=
  commit_of_none h rfl

/-- An edit that does not apply is quiet. -/
theorem isQuiet_of_not_applied {edit : Edit}
    (h : ∀ effect change, edit.run s.current.prepared ≠ .ok (.applied effect change)) :
    s.IsQuiet (some edit) := by
  intro asked effect change hedit hrun
  obtain rfl := Option.some.inj hedit
  exact absurd hrun (h effect change)

theorem repliesBy_commit (edit : Edit) : s.RepliesBy (some edit) (s.commit edit) := by
  rcases hrun : edit.run s.current.prepared with
    cause | ⟨effect, change⟩ | ⟨effect, node, place, target⟩ | reason
  · rw [commit_of_error hrun]
    exact isQuiet_of_not_applied (by simp [hrun])
  · rw [commit_of_applied hrun]
    simp only [History.record]
    split
    · next hsame =>
      refine ⟨.stay fun asked effect' change' hedit hrun' => ?_, rfl⟩
      obtain rfl := Option.some.inj hedit
      obtain ⟨-, rfl⟩ := Outcome.applied.inj (Except.ok.inj (hrun.symm.trans hrun'))
      exact hsame
    · next hchanged => exact ⟨.record rfl hrun hchanged, rfl⟩
  · rw [commit_of_none hrun rfl]
    exact ⟨.stay (isQuiet_of_not_applied (by simp [hrun])), rfl⟩
  · rw [commit_of_declined hrun]
    exact ⟨.stay (isQuiet_of_not_applied (by simp [hrun])), rfl⟩

theorem repliesBy_undo : s.RepliesBy none (.ok (s.travel s.history.undo?)) := by
  rcases hundo : s.history.undo? with - | h
  · exact repliesBy_unmoved _ _
  · exact ⟨.back rfl hundo, rfl⟩

theorem repliesBy_redo : s.RepliesBy none (.ok (s.travel s.history.redo?)) := by
  rcases hredo : s.history.redo? with - | h
  · exact repliesBy_unmoved _ _
  · exact ⟨.forth rfl hredo, rfl⟩

theorem repliesBy_perform (action : Action) (param : Data) :
    s.RepliesBy (action.edit? param) (s.perform action param) := by
  rcases s.perform_cases action param with ⟨edit, hedit, heq⟩ | ⟨hedit, heq | heq | heq | heq⟩ <;>
    rw [hedit, heq]
  · exact repliesBy_commit edit
  · exact repliesBy_undo
  · exact repliesBy_redo
  · exact repliesBy_unmoved _ _
  · exact isQuiet_none

theorem repliesBy_dispatch (name param : Data) :
    s.RepliesBy (actionEdit? name param) (s.dispatch name param) := by
  cases name with
  | text text =>
    simp only [dispatch, actionEdit?, Data.isLookupKey, if_true]
    cases Action.ofName? text with
    | none => exact repliesBy_unmoved _ _
    | some action => exact repliesBy_perform action param
  | _ =>
    -- no other name is that of an action
    unfold dispatch
    split
    · exact repliesBy_unmoved _ _
    · exact isQuiet_none

/-- **Every command moves through the history, or records the snapshot that its
edit asks for.** -/
theorem repliesBy_run (command : Command) : s.RepliesBy (s.edit? command) (s.run command) := by
  cases command with
  | press press =>
    simp only [Session.edit?, run, handle]
    cases s.reaction press with
    | move direction => exact repliesBy_map (repliesBy_commit _) fun _ => rfl
    | startNumber digit => exact repliesBy_map (repliesBy_commit _) fun _ => rfl
    | act name param => exact repliesBy_map (repliesBy_dispatch name param) fun _ => rfl
    | pass => exact repliesBy_unmoved _ _
  | dispatch name param => exact repliesBy_dispatch name param
  | edit edit => exact repliesBy_commit edit
  | undo => exact repliesBy_undo
  | redo => exact repliesBy_redo
  | reset => exact repliesBy_commit _
  | copy =>
    simp only [Session.edit?, run, copy]
    cases s.copied with
    | error cause => exact isQuiet_none
    | ok text? => exact repliesBy_unmoved _ _
  | cut =>
    simp only [Session.edit?, run, cut]
    rcases s.copied with cause | - | text
    · exact isQuiet_none
    · exact repliesBy_unmoved _ _
    · exact repliesBy_map (repliesBy_commit .delete) fun _ => rfl
  | paste content =>
    simp only [Session.edit?, run, paste]
    cases s.focus.isText with
    | true => exact repliesBy_unmoved _ _
    | false =>
      cases Clipboard.nodeOf .standard content with
      | error cause => exact repliesBy_unmoved _ _
      | ok node => exact repliesBy_commit _
  | toggleKeymap => exact ⟨.stay isQuiet_none, rfl⟩

/-- What a command does to a session. -/
theorem moves_after (command : Command) :
    s.Moves (s.edit? command) (s.after command).history ∧
      (s.after command).initial = s.initial := by
  have hrun := s.repliesBy_run command
  unfold after
  rcases hreply : s.run command with cause | reply
  · rw [hreply] at hrun
    exact ⟨.stay hrun, rfl⟩
  · rw [hreply] at hrun
    exact hrun

/-- An edit that changes something is recorded. -/
theorem history_after {command : Command} {edit : Edit} {effect : Effect} {change : Change}
    (hedit : s.edit? command = some edit)
    (hrun : edit.run s.current.prepared = .ok (.applied effect change))
    (hchanged : s.current.prepared.apply change ≠ s.current.prepared) :
    (s.after command).history = s.history.push (s.current.prepared.apply change) := by
  obtain ⟨hmoves, -⟩ := s.moves_after command
  generalize (s.after command).history = h at hmoves
  cases hmoves with
  | stay hquiet => exact absurd (hquiet edit effect change hedit hrun) hchanged
  | back hnone => rw [hnone] at hedit; cases hedit
  | forth hnone => rw [hnone] at hedit; cases hedit
  | record hedit' hrun' =>
    obtain rfl := Option.some.inj (hedit.symm.trans hedit')
    obtain ⟨-, rfl⟩ := Outcome.applied.inj (Except.ok.inj (hrun.symm.trans hrun'))
    rfl

/-- **A snapshot after a command has been there before, or its edit has asked for
it.** -/
theorem mem_timeline_after {command : Command} {x : Snapshot}
    (hx : x ∈ (s.after command).history.timeline) :
    x ∈ s.history.timeline ∨
      ∃ edit effect change, s.edit? command = some edit ∧
        edit.run s.current.prepared = .ok (.applied effect change) ∧
          x = s.current.prepared.apply change := by
  obtain ⟨hmoves, -⟩ := s.moves_after command
  generalize (s.after command).history = h at hmoves hx
  cases hmoves with
  | stay => exact .inl hx
  | back _ hundo => exact .inl (History.timeline_undo? hundo ▸ hx)
  | forth _ hredo => exact .inl (History.mem_timeline_redo? hredo hx)
  | record hedit hrun hchanged =>
    rcases History.mem_timeline_push hx with rfl | hx
    · exact .inr ⟨_, _, _, hedit, hrun, rfl⟩
    · exact .inl hx

/-! ### Runs -/

/-- Whether the commands of a run have a property, each where it stands. -/
def Along (P : Session → Command → Prop) (s : Session) : List Command → Prop
  | [] => True
  | command :: commands => P s command ∧ (s.after command).Along P commands

/-- What a single command keeps is kept by a run. -/
theorem Along.afterAll {P : Session → Command → Prop} {I : Session → Prop}
    (hstep : ∀ t command, I t → P t command → I (t.after command)) {commands : List Command}
    (hs : I s) (hcommands : s.Along P commands) : I (s.afterAll commands) := by
  induction commands generalizing s with
  | nil => exact hs
  | cons command commands ih =>
    obtain ⟨hcommand, hrest⟩ := hcommands
    exact ih (hstep s command hs hcommand) hrest

/-- A property of the commands alone does not depend on where they stand. -/
theorem along_of_forall {P : Command → Prop} {commands : List Command}
    (h : ∀ command ∈ commands, P command) : s.Along (fun _ => P) commands := by
  induction commands generalizing s with
  | nil => trivial
  | cons command commands ih =>
    obtain ⟨hcommand, hrest⟩ := List.forall_mem_cons.1 h
    exact ⟨hcommand, ih hrest⟩

end Session

end StructuralEditor
