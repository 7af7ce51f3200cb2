/-
StructuralEditor/Session/Command.lean

What a session can be told to do, and what it replies.  Every command either
fails, and then nothing has changed, or has a reply: the session afterwards,
an answer, the text that the listener has been told if the document has
changed, and a report if something was wrong with the command.

A document is recorded before it is announced.  Where the announcement fails
the reply has no answer, but the session is the one with the document
recorded.
-/
import StructuralEditor.Session.Action
import StructuralEditor.Session.Basic

namespace StructuralEditor

open Document Editing Keymap

namespace Session

/-- A command to a session. -/
inductive Command where
  | press (press : KeyPress)
  | dispatch (name param : Data)
  | edit (edit : Edit)
  | undo
  | redo
  | reset
  | copy
  | cut
  | paste (content : Data)
  | toggleKeymap

/-- What a command answers. -/
inductive Answer where
  | flag (value : Bool)
  | text (value? : Option String)
  deriving DecidableEq

/-- What is reported about a command. -/
inductive Report where
  | missingAction (name : Data)
  | pasteAborted (cause : Clipboard.Refusal)

/-- The wording of a report, if what it is about can be written. -/
def Report.message? : Report → Option String
  | .missingAction name => name.asText?.map ("Missing action " ++ ·)
  | .pasteAborted cause => some ("Paste aborted: " ++ cause.message)

/-- Why a command fails. -/
inductive CommandError where
  | edit (cause : EditError)
  /-- What is to be copied cannot be rendered. -/
  | uncopied (cause : RenderError)
  /-- The name of an action is nothing that can be looked up. -/
  | notAName (typeName : String)
  /-- The parameter of an action cannot be written. -/
  | unwritable
  deriving DecidableEq

/-- The wording of a command error. -/
def CommandError.message : CommandError → String
  | .edit cause => cause.message
  | .uncopied .tooDeep => "Document is nested too deeply"
  | .uncopied (.failed reason) => reason
  | .notAName typeName => "Not a name: " ++ typeName
  | .unwritable => "Parameter has an integer with too many digits"

/-- The reply to a command. -/
structure Reply where
  session : Session
  /-- The answer, or what the announcement of the document has failed with. -/
  answer : Except AnnounceError Answer
  /-- The text that the listener has been told. -/
  announced : Option String
  report : Option Report

/-- The reply of a session that stays as it is. -/
def unmoved (s : Session) (answer : Answer) (report : Option Report) : Reply :=
  ⟨s, .ok answer, none, report⟩

/-- The reply with another answer, if it has one. -/
def Reply.answering (reply : Reply) (answer : Answer) : Reply :=
  { reply with answer := reply.answer.map fun _ => answer }

/-! ### Edits and the history -/

/-- Commits an edit; the answer tells whether a new snapshot is recorded. -/
def commit (s : Session) (edit : Edit) : Except CommandError Reply :=
  match s.history.commit fun snapshot => (edit.run snapshot).map Outcome.change? with
  | .ok c =>
    .ok ⟨{ s with history := c.history }, c.answer.map .flag, c.announcement.text?, none⟩
  | .error cause => .error (.edit cause)

/-- Moves through the history, if there is somewhere to move. -/
def travel (s : Session) (moved? : Option History) : Reply :=
  match moved? with
  | some history => ⟨{ s with history := history }, .ok (.flag true), none, none⟩
  | none => s.unmoved (.flag false) none

/-! ### Actions by name -/

/-- The reply to an action whose parameter cannot be written.  Where there is no
keyword to be changed, it is not asked for. -/
def refuseParameter (s : Session) (action : Action) : Except CommandError Reply :=
  let keyword := s.current.prepared.selected ++ [.field keywordField]
  if action = .changeKeyword ∧ (s.current.prepared.tree.get? keyword).isNone then
    .ok (s.unmoved (.flag false) none)
  else .error .unwritable

/-- Runs an action. -/
def perform (s : Session) (action : Action) (param : Data) : Except CommandError Reply :=
  match action with
  | .undo => .ok (s.travel s.history.undo?)
  | .redo => .ok (s.travel s.history.redo?)
  | other =>
    match other.edit? param with
    | some edit => s.commit edit
    | none => s.refuseParameter other

/-- Runs the action of a given name; a name that is none is reported. -/
def dispatch (s : Session) (name param : Data) : Except CommandError Reply :=
  if name.isLookupKey then
    let action? := match name with
      | .text text => Action.ofName? text
      | _ => none
    match action? with
    | some action => s.perform action param
    | none => .ok (s.unmoved (.flag false) (some (.missingAction name)))
  else .error (.notAName name.typeName)

/-! ### Keys -/

/-- The direction of an arrow key. -/
def arrow? (key : String) : Option Direction :=
  if key = "ArrowUp" then some .up
  else if key = "ArrowDown" then some .down
  else if key = "ArrowLeft" then some .left
  else if key = "ArrowRight" then some .right
  else none

/-- Whether a place of the caret is one of the text. -/
def isCaretPlace (place length : Int) : Bool :=
  0 ≤ place && place ≤ length

/-- Whether an arrow key finds room for the caret in the text and so does not
move the selection. -/
def staysInText (press : KeyPress) (direction : Direction) : Bool :=
  match press.caret?, press.textLength?, direction with
  | some caret, some length, .left => isCaretPlace (caret - 1) length
  | some caret, some length, .right => isCaretPlace (caret + 1) length
  | _, _, _ => false

/-- The direction in which a key press moves the selection, if it does. -/
def movement? (s : Session) (press : KeyPress) : Option Direction :=
  if press.holds .altKey then none
  else (arrow? press.key).filter fun direction =>
    !(s.focus.isText && staysInText press direction)

/-- Whether a key is a digit. -/
def isDigitKey (key : String) : Bool :=
  match key.toList with
  | [c] => c.isDigit
  | _ => false

/-- What a key press asks for. -/
inductive Reaction where
  | move (direction : Direction)
  /-- A digit over a null becomes a number. -/
  | startNumber (digit : String)
  | act (name param : Data)
  /-- The key is left to the text that has the focus. -/
  | pass

/-- What a key press asks for.  The plain arrow keys come first, then digits
over a null, and then the keymap. -/
def reaction (s : Session) (press : KeyPress) : Reaction :=
  match s.movement? press with
  | some direction => .move direction
  | none =>
    if s.focus.node? = some .null ∧ isDigitKey press.key then .startNumber press.key
    else
      match actionFor press s.focus s.rules with
      | some (name :: params) => if name.isTrue then .act name (params.head?.getD .null) else .pass
      | _ => .pass

/-- Handles a key press; the answer tells whether the key has been used. -/
def handle (s : Session) (press : KeyPress) : Except CommandError Reply :=
  let used (reply : Except CommandError Reply) : Except CommandError Reply :=
    reply.map (·.answering (.flag true))
  match s.reaction press with
  | .move direction => used (s.commit (.navigate direction.name))
  | .startNumber digit => used (s.commit (.replace (.number digit) []))
  | .act name param => used (s.dispatch name param)
  | .pass => .ok (s.unmoved (.flag false) none)

/-! ### Clipboard -/

/-- The text that a copy puts on the clipboard: the source of the selected
node.  The place after a last item stands for the owner of the list, and the
text of a leaf is left to whatever edits it. -/
def copied (s : Session) : Except RenderError (Option String) :=
  if s.focus.isText then .ok none
  else
    match s.current.tree.nodeAt? s.current.selected.withoutEnd with
    | some node => (render node).map some
    | none => .ok none

/-- Copies the selection. -/
def copy (s : Session) : Except CommandError Reply :=
  match s.copied with
  | .ok text? => .ok (s.unmoved (.text text?) none)
  | .error cause => .error (.uncopied cause)

/-- Copies the selection and deletes it. -/
def cut (s : Session) : Except CommandError Reply :=
  match s.copied with
  | .ok (some text) => (s.commit .delete).map (·.answering (.text (some text)))
  | .ok none => .ok (s.unmoved (.text none) none)
  | .error cause => .error (.uncopied cause)

/-- Inserts what a clipboard content stands for; a content that stands for
nothing is reported. -/
def paste (s : Session) (content : Data) : Except CommandError Reply :=
  if s.focus.isText then .ok (s.unmoved (.flag false) none)
  else
    match Clipboard.nodeOf .standard content with
    | .ok node => s.commit (.insert node)
    | .error cause => .ok (s.unmoved (.flag false) (some (.pasteAborted cause)))

/-! ### Commands -/

/-- The reply to a command. -/
def run (s : Session) : Command → Except CommandError Reply
  | .press press => s.handle press
  | .dispatch name param => s.dispatch name param
  | .edit edit => s.commit edit
  | .undo => .ok (s.travel s.history.undo?)
  | .redo => .ok (s.travel s.history.redo?)
  | .reset => s.commit (.reset s.initial)
  | .copy => s.copy
  | .cut => s.cut
  | .paste content => s.paste content
  | .toggleKeymap =>
    .ok ({ s with showsKeymap := !s.showsKeymap }.unmoved (.flag !s.showsKeymap) none)

end Session

end StructuralEditor
