/-
StructuralEditor/Logging/Setup.lean

Setting up the loggers at startup: as the settings say; if they say nothing or
are broken, with a plain console instead.  Then the environment may turn on
debugging, for everything that concerns edits or for loggers by name.
-/
import StructuralEditor.Logging.Configuration
import StructuralEditor.Settings.Packaged
import StructuralEditor.Text.Blank

namespace StructuralEditor.Logging

open Settings

/-- What the environment asks for. -/
structure Requests where
  /-- Whether to debug edits. -/
  edits : String
  /-- Names of loggers to debug, separated by commas. -/
  modules : String

/-- What setting up comes to. -/
structure Setup where
  loggers : Loggers
  /-- Whether the log file has been opened. -/
  opensFile : Bool
  /-- Whether the settings have been found broken. -/
  brokenSettings : Bool

/-! ### The plain console -/

/-- A handler that writes ordinary events to the console. -/
def console : Handler := ⟨.stream, .info⟩

/-- Whether the name of a logger says that it is below another one. -/
def isBelow (name above : String) : Bool :=
  (above ++ ".").toList.isPrefixOf name.toList

/-- Loggers with a plain console for the root and for edits.  Loggers below those
of edits lose what they have been set up with; any other one keeps it. -/
def withConsole (ls : Loggers) : Loggers where
  root := { ls.root with level := .info, handlers := [console] }
  named :=
    (editLoggers.map fun name => (name, ⟨.info, false, [console]⟩)) ++
      ls.named.filter fun (name, _) => !editLoggers.any (isBelow name)

/-- Loggers of which the root writes somewhere.  What is logged when no root
handler is there gets a console for everything. -/
def withRootHandler (ls : Loggers) : Loggers :=
  if ls.root.handlers.isEmpty then
    { ls with root := { ls.root with handlers := [⟨.stream, .notSet⟩] } }
  else ls

/-! ### Debugging -/

/-- A logger that writes details. -/
def debugging (logger : Logger) : Logger :=
  { logger with
    level := .debug
    handlers :=
      if logger.handlers.any fun h => h.level.severity ≤ Level.debug.severity then logger.handlers
      else logger.handlers ++ [⟨.stream, .debug⟩] }

/-- The loggers with one of them writing details. -/
def debug (ls : Loggers) (name : String) : Loggers :=
  ls.put name (debugging (ls.get name))

/-- Whether a text means yes. -/
def isYes (s : String) : Bool :=
  ["1", "true", "yes", "on"].contains (Text.trim s).toLower

/-- The parts of a text between commas, without the blanks around them and
without the empty ones. -/
def listed (s : String) : List String :=
  ((s.splitOn ",").map Text.trim).filter (· ≠ "")

/-- Names of the loggers to debug. -/
def Requests.targets (requests : Requests) : List String :=
  (if isYes requests.edits then editLoggers else []) ++ listed requests.modules

/-! ### Startup -/

/-- Sets up the loggers by the settings alone. -/
def setUpBySettings (settings : Data) : Setup :=
  if (settings.field "version").isTrue then
    let configured := configure settings
    { loggers :=
        if configured.isComplete then withRootHandler configured.loggers
        else withConsole configured.loggers
      opensFile := configured.opensFile
      brokenSettings := !configured.isComplete }
  else ⟨withConsole .initial, false, false⟩

/-- Sets up the loggers. -/
def setUp (settings : Data) (requests : Requests) : Setup :=
  let start := setUpBySettings settings
  { start with loggers := requests.targets.foldl debug start.loggers }

end StructuralEditor.Logging
