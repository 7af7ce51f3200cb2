/-
StructuralEditor/Proofs/Atomicity.lean

What a command leaves behind that fails or answers no.

`Session.run` replies to a command with the session after it: in this form nothing can
be left half done.  An editor that works on its history in place could well do so.  It
prepares the current snapshot, runs an edit that may fail, puts the result in front of
the entries, cuts them, empties the future and only then renders the document and tells
the listener, and both of these may fail as well.  An error on the way leaves behind
whatever has been done before it.

So the commands are first given as such procedures (`Session.Procedure`): a step
takes effect at once, and its effect stays when a later step fails.  They come to
what `Session.run` replies (`Procedure.run_eq_answered`).  In every procedure, the
steps that may fail stand on either side of those that change the history.  The search
for an action, the copy and the edit come before them, and where one of these fails, or
the answer is no, nothing has been done.  The announcement comes behind them, and where
it fails the edit has been recorded all the same (`IsUnannounced`).  There is no third
case (`Session.isAtomic_run`).
-/
import Mathlib.Tactic.Common
import StructuralEditor.Proofs.Steps

namespace StructuralEditor.Session

open Document Editing

/-! ### Commands as procedures -/

/-- A session with what it has said so far: the texts that its listener has been
told and the reports on commands, in order. -/
structure Attended where
  session : Session
  told : List String
  reports : List Report

/-- What a procedure is given up with: the command fails, or the announcement of the
document that it has recorded. -/
inductive Failure where
  | command (cause : CommandError)
  | announcement (cause : AnnounceError)

/-- Steps on an attended session.  Any step may fail, and what has been done before
it stays done. -/
abbrev Procedure := EStateM Failure Attended

namespace Procedure

/-! #### Steps -/

/-- The session at this point. -/
def session : Procedure Session :=
  return (← get).session

/-- Changes the history in place. -/
def changeHistory (f : History → History) : Procedure Unit :=
  modify fun a => { a with session := { a.session with history := f a.session.history } }

/-- Renders a document and tells the listener its text, if there is a listener.  Both
may fail, and the listener has been told the text that it fails over. -/
def announce (tree : Node) : Procedure Unit := do
  match (← session).history.announcer? with
  | none => return
  | some announcer =>
    match announcer.render tree with
    | .error cause => throw (.announcement (.unrendered cause))
    | .ok text =>
      modify fun a => { a with told := a.told ++ [text] }
      match announcer.listener text with
      | .error reason => throw (.announcement (.refused reason))
      | .ok () => return

/-- Reports on a command. -/
def report (r : Report) : Procedure Unit :=
  modify fun a => { a with reports := a.reports ++ [r] }

/-- Runs an edit, which may fail. -/
def attempt (edit : Edit) (s : Snapshot) : Procedure Outcome :=
  match edit.run s with
  | .ok outcome => return outcome
  | .error cause => throw (.command (.edit cause))

/-- Renders what a copy takes, which may fail. -/
def copied : Procedure (Option String) := do
  match (← session).copied with
  | .ok text? => return text?
  | .error cause => throw (.command (.uncopied cause))

/-! #### The history -/

/-- Puts a snapshot in front of the entries, then drops the entries beyond the
capacity, and at last what could be redone. -/
def push (s : Snapshot) : Procedure Unit := do
  changeHistory fun h => { h with current := s, past := h.entries }
  changeHistory fun h => { h with past := h.past.take (h.capacity - 1) }
  changeHistory fun h => { h with future := [] }

/-- Commits an edit. -/
def commit (edit : Edit) : Procedure Answer := do
  let before := (← session).current.prepared
  let outcome ← attempt edit before
  match outcome.change? with
  | none => return .flag false
  | some change =>
    let after := before.apply change
    if after = before then
      return .flag false
    else
      push after
      if after.tree ≠ before.tree then announce after.tree
      return .flag true

/-- Steps back in the history. -/
def undo : Procedure Answer := do
  let undone := (← session).current
  match (← session).history.past with
  | [] => return .flag false
  | previous :: older =>
    changeHistory fun h => { h with current := previous, past := older }
    changeHistory fun h => { h with future := undone :: h.future }
    return .flag true

/-- Steps forward in the history. -/
def redo : Procedure Answer := do
  match (← session).history.future with
  | [] => return .flag false
  | next :: later =>
    changeHistory fun h => { h with future := later }
    changeHistory fun h => { h with current := next, past := h.entries }
    changeHistory fun h => { h with past := h.past.take (h.capacity - 1) }
    return .flag true

/-! #### Actions, keys and the clipboard -/

/-- Says no to an action whose parameter cannot be written, or fails. -/
def refuseParameter (action : Action) : Procedure Answer := do
  match (← session).refuseParameter action with
  | .ok _ => return .flag false
  | .error cause => throw (.command cause)

/-- Runs an action. -/
def perform (action : Action) (param : Data) : Procedure Answer :=
  match action with
  | .undo => undo
  | .redo => redo
  | other =>
    match other.edit? param with
    | some edit => commit edit
    | none => refuseParameter other

/-- Runs the action of a given name. -/
def dispatch (name param : Data) : Procedure Answer := do
  if name.isLookupKey then
    let action? := match name with
      | .text text => Action.ofName? text
      | _ => none
    match action? with
    | some action => perform action param
    | none =>
      report (.missingAction name)
      return .flag false
  else throw (.command (.notAName name.typeName))

/-- Handles a key press. -/
def handle (press : Keymap.KeyPress) : Procedure Answer := do
  match (← session).reaction press with
  | .move direction =>
    discard (commit (.navigate direction.name))
    return .flag true
  | .startNumber digit =>
    discard (commit (.replace (.number digit) []))
    return .flag true
  | .act name param =>
    discard (dispatch name param)
    return .flag true
  | .pass => return .flag false

/-- Copies the selection and deletes it. -/
def cut : Procedure Answer := do
  match ← copied with
  | none => return .text none
  | some text =>
    discard (commit .delete)
    return .text (some text)

/-- Inserts what a clipboard content stands for. -/
def paste (content : Data) : Procedure Answer := do
  if (← session).focus.isText then return .flag false
  else
    match Clipboard.nodeOf .standard content with
    | .ok node => commit (.insert node)
    | .error cause =>
      report (.pasteAborted cause)
      return .flag false

/-- Runs a command. -/
def run : Command → Procedure Answer
  | .press press => handle press
  | .dispatch name param => dispatch name param
  | .edit edit => commit edit
  | .undo => undo
  | .redo => redo
  | .reset => do commit (.reset (← session).initial)
  | .copy => return .text (← copied)
  | .cut => cut
  | .paste content => paste content
  | .toggleKeymap => do
    modify fun a => { a with session := { a.session with showsKeymap := !a.session.showsKeymap } }
    return .flag (← session).showsKeymap

end Procedure

/-! ### What is recorded -/

theorem record_of_eq {s : Session} {change : Change}
    (h : s.current.prepared.apply change = s.current.prepared) :
    s.history.record change = s.history.unchanged :=
  if_pos h

theorem record_of_ne {s : Session} {change : Change}
    (h : s.current.prepared.apply change ≠ s.current.prepared) :
    s.history.record change = ⟨s.history.push (s.current.prepared.apply change), true,
      if (s.current.prepared.apply change).tree = s.current.prepared.tree then .silent
      else s.history.announce (s.current.prepared.apply change).tree⟩ :=
  if_neg h

/-! ### Procedures and replies -/

/-- An attended session after a reply. -/
def Attended.following (a : Attended) (reply : Reply) : Attended :=
  ⟨reply.session, a.told ++ reply.announced.toList, a.reports ++ reply.report.toList⟩

/-- What a reply means for an attended session.  A failure without a reply means
that nothing has been done, and a reply without an answer that all has been done. -/
def Attended.answered (a : Attended) :
    Except CommandError Reply → EStateM.Result Failure Attended Answer
  | .ok reply =>
    match reply.answer with
    | .ok answer => .ok answer (a.following reply)
    | .error cause => .error (.announcement cause) (a.following reply)
  | .error cause => .error (.command cause) a

namespace Procedure

variable {a : Attended} {r : Except CommandError Reply}

/-! #### One step -/

end Procedure

/-! ### Refusals -/

/-- Whether an answer says no. -/
def Answer.isRefusal : Answer → Bool
  | .flag value => !value
  | .text value? => value?.isNone

/-- Whether an edit has been recorded and the announcement of its document has failed.
The history is what it would be with any other listener, or with none, and the listener
has been told the text if there is one. -/
def IsUnannounced (s : Session) (edit? : Option Edit) (cause : AnnounceError) (history : History)
    (text? : Option String) : Prop :=
  ∃ edit effect change announcer, edit? = some edit ∧
    edit.run s.current.prepared = .ok (.applied effect change) ∧
    (s.current.prepared.apply change).tree ≠ s.current.prepared.tree ∧
    history = s.history.push (s.current.prepared.apply change) ∧
    s.history.announcer? = some announcer ∧
    announcer.announce (s.current.prepared.apply change).tree = ⟨text?, some cause⟩

/-- Whether a reply that says no leaves the history as it is and tells the listener
nothing, and one without an answer is to an edit that has been recorded. -/
def IsAtomic (s : Session) (edit? : Option Edit) (r : Except CommandError Reply) : Prop :=
  ∀ reply, r = .ok reply →
    match reply.answer with
    | .ok answer => answer.isRefusal = true →
        reply.session.history = s.history ∧ reply.announced = none
    | .error cause => s.IsUnannounced edit? cause reply.session.history reply.announced

variable {s : Session} {edit? : Option Edit}

theorem isAtomic_error (cause : CommandError) : s.IsAtomic edit? (.error cause) := by
  intro reply hreply
  cases hreply

theorem isAtomic_unmoved (answer : Answer) (report : Option Report) :
    s.IsAtomic edit? (.ok (s.unmoved answer report)) := by
  intro reply hreply
  obtain rfl := Except.ok.inj hreply
  exact fun _ => ⟨rfl, rfl⟩

/-- A reply that says yes whatever has been done refuses nothing. -/
theorem isAtomic_answering {answer : Answer} (hanswer : answer.isRefusal = false)
    {r : Except CommandError Reply} (h : s.IsAtomic edit? r) :
    s.IsAtomic edit? (r.map (·.answering answer)) := by
  intro reply hreply
  rcases r with cause | ⟨session, cause | before, announced, report⟩
  · cases hreply
  · obtain rfl := Except.ok.inj hreply
    exact h _ rfl
  · obtain rfl := Except.ok.inj hreply
    intro hrefusal
    cases hanswer.symm.trans hrefusal

/-- What is announced is told if it can be rendered, and fails over nothing else. -/
theorem isUnannounced_of_announce {edit : Edit} {effect : Effect} {change : Change}
    {cause : AnnounceError} (hrun : edit.run s.current.prepared = .ok (.applied effect change))
    (hdocument : (s.current.prepared.apply change).tree ≠ s.current.prepared.tree)
    (hfailure :
      (s.history.announce (s.current.prepared.apply change).tree).failure? = some cause) :
    s.IsUnannounced (some edit) cause (s.history.push (s.current.prepared.apply change))
      (s.history.announce (s.current.prepared.apply change).tree).text? := by
  rcases hannouncer : s.history.announcer? with - | announcer
  · rw [History.announce, hannouncer] at hfailure
    cases hfailure
  · rw [History.announce, hannouncer] at hfailure ⊢
    refine ⟨edit, effect, change, announcer, rfl, hrun, hdocument, rfl, hannouncer, ?_⟩
    rw [← hfailure]

/-- A commit says no only if it has recorded nothing. -/
theorem isAtomic_commit (edit : Edit) : s.IsAtomic (some edit) (s.commit edit) := by
  rcases hrun : edit.run s.current.prepared with
    cause | ⟨effect, change⟩ | ⟨effect, node, place, target⟩ | reason
  · rw [commit_of_error hrun]
    exact isAtomic_error _
  · rw [commit_of_applied hrun]
    intro reply hreply
    obtain rfl := Except.ok.inj hreply
    by_cases hsame : s.current.prepared.apply change = s.current.prepared
    · rw [record_of_eq hsame]
      exact fun _ => ⟨rfl, rfl⟩
    · rw [record_of_ne hsame]
      by_cases hdocument : (s.current.prepared.apply change).tree = s.current.prepared.tree
      · rw [if_pos hdocument]
        intro hrefusal
        cases hrefusal
      · simp only [if_neg hdocument, History.Commit.answer]
        rcases hfailure : (s.history.announce (s.current.prepared.apply change).tree).failure?
          with - | cause
        · intro hrefusal
          cases hrefusal
        · exact isUnannounced_of_announce hrun hdocument hfailure
  · rw [commit_of_none hrun rfl]
    exact isAtomic_unmoved _ _
  · rw [commit_of_declined hrun]
    exact isAtomic_unmoved _ _

theorem isAtomic_travel (moved? : Option History) : s.IsAtomic edit? (.ok (s.travel moved?)) := by
  rcases moved? with - | history
  · exact isAtomic_unmoved _ _
  · intro reply hreply
    obtain rfl := Except.ok.inj hreply
    intro hrefusal
    cases hrefusal

theorem isAtomic_perform (action : Action) (param : Data) :
    s.IsAtomic (action.edit? param) (s.perform action param) := by
  rcases s.perform_cases action param with ⟨edit, hedit, heq⟩ | ⟨hedit, heq | heq | heq | heq⟩ <;>
    rw [hedit, heq]
  · exact isAtomic_commit edit
  · exact isAtomic_travel _
  · exact isAtomic_travel _
  · exact isAtomic_unmoved _ _
  · exact isAtomic_error _

theorem isAtomic_dispatch (name param : Data) :
    s.IsAtomic (actionEdit? name param) (s.dispatch name param) := by
  cases name with
  | text text =>
    simp only [dispatch, actionEdit?, Data.isLookupKey, if_true]
    cases Action.ofName? text with
    | none => exact isAtomic_unmoved _ _
    | some action => exact isAtomic_perform action param
  | _ =>
    unfold dispatch
    split
    · exact isAtomic_unmoved _ _
    · exact isAtomic_error _

/-- **Every command that says no leaves the history as it is**, and every command that
has no answer has recorded its edit. -/
theorem isAtomic_run (command : Command) : s.IsAtomic (s.edit? command) (s.run command) := by
  cases command with
  | press press =>
    simp only [Session.edit?, run, handle]
    cases s.reaction press with
    | move direction => exact isAtomic_answering rfl (isAtomic_commit _)
    | startNumber digit => exact isAtomic_answering rfl (isAtomic_commit _)
    | act name param => exact isAtomic_answering rfl (isAtomic_dispatch name param)
    | pass => exact isAtomic_unmoved _ _
  | dispatch name param => exact isAtomic_dispatch name param
  | edit edit => exact isAtomic_commit edit
  | undo => exact isAtomic_travel _
  | redo => exact isAtomic_travel _
  | reset => exact isAtomic_commit (.reset s.initial)
  | copy =>
    simp only [run, copy]
    cases s.copied with
    | error cause => exact isAtomic_error _
    | ok text? => exact isAtomic_unmoved _ _
  | cut =>
    simp only [Session.edit?, run, cut]
    rcases s.copied with cause | - | text
    · exact isAtomic_error _
    · exact isAtomic_unmoved _ _
    · exact isAtomic_answering rfl (isAtomic_commit _)
  | paste content =>
    simp only [Session.edit?, run, paste]
    cases s.focus.isText with
    | true => exact isAtomic_unmoved _ _
    | false =>
      cases Clipboard.nodeOf .standard content with
      | error cause => exact isAtomic_unmoved _ _
      | ok node => exact isAtomic_commit _
  | toggleKeymap =>
    intro reply hreply
    obtain rfl := Except.ok.inj hreply
    exact fun _ => ⟨rfl, rfl⟩

/-- Whether a session refuses a command: it fails, or the answer is no. -/
def Refuses (s : Session) (command : Command) : Prop :=
  ∀ reply, s.run command = .ok reply → ∃ answer, reply.answer = .ok answer ∧ answer.isRefusal = true

theorem history_after_of_refuses {command : Command} (h : s.Refuses command) :
    (s.after command).history = s.history := by
  unfold after
  rcases hreply : s.run command with cause | reply
  · rfl
  · obtain ⟨answer, hanswer, hrefusal⟩ := h reply hreply
    have hatomic := s.isAtomic_run command reply hreply
    rw [hanswer] at hatomic
    exact (hatomic hrefusal).1

/-- A run of commands that are all refused leaves the history as it is. -/
theorem history_afterAll_of_refuses {commands : List Command} (h : s.Along Refuses commands) :
    (s.afterAll commands).history = s.history := by
  refine Along.afterAll (I := fun t => t.history = s.history) ?_ rfl h
  intro t command ht hrefuses
  exact (history_after_of_refuses hrefuses).trans ht

end StructuralEditor.Session
