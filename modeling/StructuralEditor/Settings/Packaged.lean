/-
StructuralEditor/Settings/Packaged.lean

The settings that an editor comes with.  The order of their entries is the
order in which they are shown and stays when a user overrides some of them.
-/
import StructuralEditor.Data.Value
import StructuralEditor.Settings.Section

namespace StructuralEditor.Settings

/-- The entries of a section. -/
abbrev Entries := List (Data × Data)

/-- The entries of every section. -/
abbrev AllEntries := Section → Entries

/-- A record whose keys are texts. -/
def record (entries : List (String × Data)) : Data :=
  .record (entries.map fun (name, value) => (.text name, value))

/-- A list of texts. -/
def names (texts : List String) : Data :=
  .list (texts.map .text)

/-- A rule that gives `value` for one of `keys`. -/
def binding (keys : List String) (value : Data) : Data :=
  record [("keys", names keys), ("type", value)]

/-- Editor settings: how many snapshots are kept for undo, and whether the
panel of key bindings is shown at first. -/
def packagedEditor : Entries :=
  [(.text "max_history", .integer 100), (.text "show_keymap", .boolean true)]

/-- The rules of the packaged keymap. -/
def packagedRules : List Data :=
  [record [("name", .text "History"), ("modifiers", names ["ctrl"]),
    ("mappings", .list [binding ["z"] (.text "UNDO"), binding ["y"] (.text "REDO")])],
   record [("type", .text "ADD_TO_NUMBER"), ("modifiers", names ["alt", "shift"]),
    ("test", .text "is_number"),
    ("mappings", .list [binding ["ArrowUp"] (.integer 1), binding ["ArrowDown"] (.integer (-1))])],
   record [("type", .text "MOVE"), ("modifiers", names ["alt"]),
    ("test", .text "is_collection_item"),
    ("mappings", .list [binding ["ArrowUp"] (.text "UP"), binding ["ArrowDown"] (.text "DOWN")])],
   binding ["Enter"] (.text "INSERT"),
   binding ["Delete"] (.text "DELETE"),
   record [("keys", names ["Backspace"]), ("test", .text "not_editable"), ("type", .text "DELETE")],
   record [("type", .text "CHANGE_DECLARATION_KIND"), ("test", .text "is_declaration"),
    ("mappings", .list [binding ["c"] (.text "const"), binding ["l"] (.text "let"),
      binding ["v"] (.text "var")])],
   record [("type", .text "SET_BOOLEAN"), ("modifiers", .text "ctrl_if_editable"),
    ("mappings", .list [binding ["t"] (.boolean true), binding ["f"] (.boolean false)])],
   record [("name", .text "Convert"), ("modifiers", .text "ctrl_if_editable"),
    ("mappings", .list
      [record [("keys", names ["\"", "s"]), ("test", names ["not_editable"]),
        ("type", .text "TO_STRING")],
       record [("keys", names ["\"", "s"]), ("test", .text "is_number"),
        ("type", .text "TO_STRING")],
       binding ["#"] (.text "TO_NUMBER"),
       binding ["["] (.text "TO_ARRAY"),
       binding ["\x7b"] (.text "TO_OBJECT"),
       binding ["n"] (.text "TO_NULL")])]]

/-- Key bindings. -/
def packagedKeymap : Entries :=
  [(.text "mappings", .list packagedRules)]

/-- Where edits and their history are logged. -/
def editLoggers : List String :=
  ["astedit.core.services.structure_editing_service", "astedit.core.services.history_service"]

/-- Logging: warnings to the console and everything to a file. -/
def packagedLogging : Entries :=
  [(.text "version", .integer 1),
   (.text "disable_existing_loggers", .boolean false),
   (.text "formatters", record [("simple", record
     [("format", .text "%(asctime)s - %(name)s - %(levelname)s - %(message)s")])]),
   (.text "handlers", record
     [("console", record
       [("class", .text "logging.StreamHandler"), ("formatter", .text "simple"),
        ("level", .text "WARNING")]),
      ("file", record
       [("class", .text "logging.FileHandler"), ("formatter", .text "simple"),
        ("level", .text "DEBUG"), ("filename", .text "astedit.log"),
        ("encoding", .text "utf-8")])]),
   (.text "loggers", record (editLoggers.map fun name => (name, record [("level", .text "INFO")]))),
   (.text "root", record [("level", .text "INFO"), ("handlers", names ["console", "file"])])]

/-- The packaged entries of a section. -/
def packaged : AllEntries
  | .editor => packagedEditor
  | .keymap => packagedKeymap
  | .logging => packagedLogging

end StructuralEditor.Settings
