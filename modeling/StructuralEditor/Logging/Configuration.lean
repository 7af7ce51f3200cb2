/-
StructuralEditor/Logging/Configuration.lean

The loggers that the logging section of the settings describes.  The section
has a version, which must be 1, names for formats under `formatters`, and under
`handlers`, `loggers` and `root` what to set up.  Handlers are set up in the
order of their names, then the loggers, and the root at last.

Setting up ends at the first thing that does not fit.  What has been done by
then is not taken back: the log file stays open, and the loggers stay as they are.

The sections meant are those that set up handlers of the two classes known here.
-/
import StructuralEditor.Data.Value
import StructuralEditor.Logging.Logger

namespace StructuralEditor.Logging

/-- What a section comes to: whether the log file has been opened, the loggers
as far as they have been set up, and whether everything has been. -/
structure Configured where
  opensFile : Bool
  loggers : Loggers
  isComplete : Bool

/-- A section that is broken before anything has been done. -/
def Configured.broken : Configured := ⟨false, .initial, false⟩

/-! ### Levels and handlers -/

/-- The level that a value gives. -/
def levelOf? : Data → Option Level
  | .text name => Level.ofName? name
  | other => other.asInteger?.map Level.mk

/-- The level under `level`, or else `unset`. -/
def levelField? (settings : Data) (unset : Level) : Option Level :=
  match settings.field "level" with
  | .null => some unset
  | value => levelOf? value

/-- The sink of the handlers of a class. -/
def sinkOf? (className : String) : Option Sink :=
  [Sink.stream, Sink.file].find? fun sink => "logging." ++ sink.className = className

/-- The name of the handler that writes the log file. -/
def fileHandlerName : String := "file"

/-- Whether a value names one of the formats, or none. -/
def isFormat (formats : List String) : Data → Bool
  | .text name => name = "" || formats.contains name
  | other => !other.isTrue

/-- Whether a handler has a file if and only if its sink needs one.  The one
that writes the log file is always given that. -/
def hasFile (name : String) (settings : Data) : Sink → Bool
  | .stream => name ≠ fileHandlerName && (settings.field? "filename").isNone
  | .file =>
    name = fileHandlerName || match settings.field? "filename" with
      | some (.text _) => true
      | _ => false

/-- The handler that a record describes. -/
def handlerOf? (formats : List String) (name : String) (settings : Data) : Option Handler := do
  let className ← match settings.field "class" with
    | .text className => some className
    | _ => none
  let sink ← sinkOf? className
  let level ← levelField? settings .notSet
  if hasFile name settings sink && isFormat formats (settings.field "formatter") then
    some ⟨sink, level⟩
  else none

/-- Handlers by name. -/
abbrev Handlers := List (String × Handler)

/-- The handlers described one after the other, up to the first that is
broken; and whether none is. -/
def handlersOf (formats : List String) : List (String × Data) → Handlers × Bool
  | [] => ([], true)
  | (name, settings) :: rest =>
    match handlerOf? formats name settings with
    | none => ([], false)
    | some handler =>
      let (handlers, complete) := handlersOf formats rest
      ((name, handler) :: handlers, complete)

/-- Entries whose keys are all texts. -/
def namedEntries? (entries : List (Data × Data)) : Option (List (String × Data)) :=
  entries.mapM fun
    | (.text name, value) => some (name, value)
    | _ => none

/-! ### Loggers -/

/-- Attaches the handlers of the given names one after the other, and each of
them once, up to a name that no handler has; and whether there is no such name. -/
def attach (handlers : Handlers) : List Data → Handlers → Handlers × Bool
  | [], attached => (attached, true)
  | .text name :: rest, attached =>
    match handlers.lookup name with
    | none => (attached, false)
    | some handler =>
      if (attached.lookup name).isSome then attach handlers rest attached
      else attach handlers rest (attached ++ [(name, handler)])
  | _ :: _, attached => (attached, false)

/-- The handlers that a value lists by name, as far as they can be attached.
A value that counts as false lists none. -/
def attachListed (handlers : Handlers) : Data → Handlers × Bool
  | .list names | .tuple names => attach handlers names []
  | other => ([], !other.isTrue)

/-- A logger set up as a record describes, and whether all of it could be done.
Its level stays if none is given, and its handlers are replaced. -/
def setUpLogger (handlers : Handlers) (settings : Data) (logger : Logger) : Logger × Bool :=
  match settings with
  | .record _ =>
    match levelField? settings logger.level with
    | none => (logger, false)
    | some level =>
      let (attached, complete) := attachListed handlers (settings.field "handlers")
      ({ logger with level := level, handlers := attached.map Prod.snd }, complete)
  | _ => (logger, false)

/-- The name that a key is for a logger.  One that counts as false is a name of
the root. -/
def loggerName? : Data → Option String
  | .text name => some name
  | other => if other.isTrue then none else some ""

/-- A named logger set up as a record describes, which may also say at last
whether the logger passes on what it handles. -/
def setUpNamed (handlers : Handlers) (ls : Loggers) (name : String) (settings : Data) :
    Loggers × Bool :=
  let (logger, complete) := setUpLogger handlers settings (ls.get name)
  let propagates := match complete, settings.field "propagate" with
    | false, _ | true, .null => logger.propagates
    | true, value => value.isTrue
  (ls.put name { logger with propagates := propagates }, complete)

/-- The loggers set up as records describe, one after the other. -/
def setUpAll (handlers : Handlers) : List (Data × Data) → Loggers → Loggers × Bool
  | [], ls => (ls, true)
  | (key, settings) :: rest, ls =>
    match loggerName? key with
    | none => (ls, false)
    | some name =>
      match setUpNamed handlers ls name settings with
      | (ls, true) => setUpAll handlers rest ls
      | (ls, false) => (ls, false)

/-- The root logger set up as a value describes, if it describes anything. -/
def setUpRoot (handlers : Handlers) (settings : Data) (ls : Loggers) : Loggers × Bool :=
  if settings.isTrue then
    let (root, complete) := setUpLogger handlers settings ls.root
    ({ ls with root := root }, complete)
  else (ls, true)

/-- The loggers that a section describes, given its handlers. -/
def setUpLoggers (handlers : Handlers) (settings : Data) : Loggers × Bool :=
  match settings.field? "loggers" with
  | none => setUpRoot handlers (settings.field "root") .initial
  | some (.record entries) =>
    match setUpAll handlers entries .initial with
    | (ls, true) => setUpRoot handlers (settings.field "root") ls
    | (ls, false) => (ls, false)
  | some _ => (.initial, false)

/-! ### The section -/

/-- The handlers of a section in the order of their names; `none` if they are
no records by name. -/
def handlerEntries? (settings : Data) : Option (List (String × Data)) :=
  match settings.field? "handlers" with
  | none => some []
  | some (.record entries) =>
    match Data.lookup? fileHandlerName entries with
    | none | some (.record _) =>
      (namedEntries? entries).map (·.mergeSort fun a b => decide (a.1 ≤ b.1))
    | some _ => none
  | some _ => none

/-- The names of the formats of a section; `none` if they are no records by
name. -/
def formats? (settings : Data) : Option (List String) :=
  match settings.field? "formatters" with
  | none => some []
  | some (.record entries) => (namedEntries? entries).map fun named => named.map Prod.fst
  | some _ => none

/-- What a section comes to. -/
def configure (settings : Data) : Configured :=
  match handlerEntries? settings, formats? settings with
  | some entries, some formats =>
    if Data.sameKey (settings.field "version") (.integer 1) then
      let (handlers, complete) := handlersOf formats entries
      let outcome := if complete then setUpLoggers handlers settings else (.initial, false)
      { opensFile := handlers.any fun (name, _) => name = fileHandlerName
        loggers := outcome.1
        isComplete := outcome.2 }
    else .broken
  | _, _ => .broken

end StructuralEditor.Logging
