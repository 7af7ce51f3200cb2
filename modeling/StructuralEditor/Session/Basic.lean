/-
StructuralEditor/Session/Basic.lean

An editing session: one document with its history, and the keymap in force.  A
session starts from a value and from the settings; what the caller gives
itself takes precedence over the settings.
-/
import StructuralEditor.Clipboard
import StructuralEditor.History
import StructuralEditor.Keymap.Compile
import StructuralEditor.Settings.Packaged

namespace StructuralEditor

open Document Keymap Settings

/-- An editing session. -/
structure Session where
  /-- The document at the start. -/
  initial : Node
  history : History
  rules : List (Rule Guard)
  /-- Whether the panel of key bindings is shown. -/
  showsKeymap : Bool

namespace Session

/-! ### The selection -/

/-- The current snapshot. -/
def current (s : Session) : Snapshot :=
  s.history.current

/-- What a key press meets. -/
def focus (s : Session) : Focus :=
  ⟨s.current.node?, s.current.selected⟩

/-- Whether the selection stands in an array. -/
def inArray (s : Session) : Bool :=
  Condition.inArray.holds s.focus

/-- The selection in a document that has just been loaded: the first statement
of a program, or the root. -/
def initialSelection : Node → Path
  | .program [] => [.field GroupKind.program.field, .afterLast]
  | .program (_ :: _) => [.field GroupKind.program.field, .index 0]
  | _ => []

/-! ### Starting -/

/-- How the value that a session starts from is read. -/
inductive Reading where
  /-- As a program. -/
  | document
  /-- As a node of its own. -/
  | value
  deriving DecidableEq

/-- The tree that a value is read as.  Null is read as an empty record. -/
def Reading.tree (reading : Reading) (source : Data) : Except ConversionError Node :=
  let given := match source with
    | .null => Data.record []
    | other => other
  match reading with
  | .document => given.toDocument
  | .value => given.toNode

/-- Why a session cannot be started. -/
inductive StartError where
  | history (cause : History.StartError)
  | keymap (cause : CompileError)
  | document (cause : ConversionError)

/-- The wording of a start error, if what it is about can be written. -/
def StartError.message? : StartError → Option String
  | .history cause => some cause.message
  | .keymap cause => cause.message?
  | .document cause => some cause.message

/-- The number of snapshots that the settings ask for. -/
def settledCapacity (editor : Entries) : Except StartError Data :=
  match Data.lookup? "max_history" editor with
  | none => .ok (.integer History.defaultCapacity)
  | some value =>
    match value.toInteger with
    | .ok size => .ok (.integer size)
    | .error cause => .error (.history (.badCapacity cause))

/-- What renders the documents of a session. -/
def render : Renderer :=
  Node.render (some renderingLimit)

/-- Starts a session.  The settings decide on the capacity of the history and
on the rules unless these are given. -/
def start (settings : AllEntries) (reading : Reading) (source : Data)
    (capacity? : Option Data) (rules? : Option (List (Rule Guard))) (listener? : Option Listener) :
    Except StartError Session := do
  let editor := settings .editor
  let capacity ← match capacity? with
    | some given => .ok given
    | none => settledCapacity editor
  let rules ← match rules? with
    | some given => .ok given
    | none => (compile (Data.record (settings .keymap))).mapError .keymap
  let tree ← (reading.tree source).mapError .document
  let first : Snapshot := ⟨tree, initialSelection tree⟩
  let history ← (History.start first listener? (some render) capacity).mapError .history
  .ok ⟨tree, history, rules, (Data.lookup? "show_keymap" editor).all Data.isTrue⟩

end Session

end StructuralEditor
