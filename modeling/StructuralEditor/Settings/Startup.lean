/-
StructuralEditor/Settings/Startup.lean

Loading the settings.  A user's directory may hold a file for each section;
sections without one get their packaged text written there, where that can be
done.  A section is its packaged record overridden key by key by the record in
the user's file.  A file that says nothing overrides nothing, and one that
cannot be read, or holds something else than a record, is reported and leaves
the packaged section.  When the directory cannot be created, nothing is read
from it either.

Not every failure is recovered from.  A reader that fails in another way than
readers announce breaks loading off, and so does a directory that does not even
tell which files it has.

How a file is read is left open (`FileFormat`): the files may be texts and the
reader any that is at home with the packaged texts.  An editor that is told
what its files hold starts with `load`.
-/
import StructuralEditor.Settings.Packaged

namespace StructuralEditor.Settings

/-! ### Reading a file -/

/-- What comes of reading a file. -/
inductive FileReading where
  /-- The file holds a value. -/
  | holds (value : Data)
  /-- The file cannot be opened, is not text, or is text that does not parse. -/
  | unreadable
  /-- The reader fails in another way. -/
  | breaks (failure : String)

/-- A way of reading files, together with the files that sections come with: each
holds the packaged record of its section. -/
structure FileFormat (File : Type) where
  /-- What comes of reading a file. -/
  read : File → FileReading
  /-- The file that a section comes with. -/
  packagedFile : Section → File
  read_packagedFile (sect : Section) :
    read (packagedFile sect) = .holds (.record (packaged sect))

/-! ### The user's directory -/

/-- The place of a section's file in a directory.  Where there is no file, one can
be created if the place is free. -/
inductive Place (File : Type) where
  | taken (file : File)
  | free
  | locked

namespace Place

variable {File : Type}

/-- The file at a place. -/
def file? : Place File → Option File
  | .taken file => some file
  | .free | .locked => none

/-- The place after a file has been created there, if one can be. -/
def filled (packagedFile : File) : Place File → Place File
  | .free => .taken packagedFile
  | place => place

end Place

/-- The directory of a user's files.  When it is blocked, it cannot be made, and
there are no files.  When it is closed, asking it for a file fails; it may not
even have been made. -/
inductive Directory (File : Type) where
  | blocked
  | closed (isMade : Bool) (failure : String)
  | accessible (places : Sections (Place File))

namespace Directory

variable {File : Type}

/-- A directory without files. -/
def empty : Directory File :=
  .accessible ⟨.free, .free, .free⟩

/-- The place of a section's file. -/
def place : Directory File → Section → Place File
  | .blocked, _ | .closed _ _, _ => .locked
  | .accessible places, sect => places.get sect

/-- The file of a section. -/
def file? (directory : Directory File) (sect : Section) : Option File :=
  (directory.place sect).file?

/-- The directory with a file at every place that was free. -/
def completed (directory : Directory File) (packagedFile : Section → File) : Directory File :=
  match directory with
  | .accessible places => .accessible <| .ofFunction fun sect =>
    (places.get sect).filled (packagedFile sect)
  | other => other

/-- Names of the files in a directory that has been made and can be asked. -/
def fileNames? : Directory File → Option (List String)
  | .blocked | .closed _ _ => none
  | .accessible places =>
    some ((Section.all.filter fun sect => (places.get sect).file?.isSome).map Section.fileName)

end Directory

/-! ### Loading -/

/-- Why loading breaks off. -/
inductive LoadError where
  | closed (failure : String)
  | broken (sect : Section) (failure : String)
  deriving DecidableEq

/-- How a section has been loaded. -/
inductive Status where
  | packagedOnly
  | overridden
  deriving DecidableEq

/-- A status as the log shows it. -/
def Status.text : Status → String
  | .packagedOnly => "loaded"
  | .overridden => "loaded+overrides"

/-- The overrides that a value stands for; whatever counts as false stands for
none. -/
def overrides? (value : Data) : Option Entries :=
  match value with
  | .record entries => some entries
  | other => if other.isTrue then none else some []

/-- A section and how it has been loaded. -/
structure LoadedSection where
  entries : Entries
  status : Status

/-- A section as it comes. -/
def LoadedSection.ofPackaged (sect : Section) : LoadedSection :=
  ⟨packaged sect, .packagedOnly⟩

/-- A section with the overrides of a value, unless the value stands for none. -/
def LoadedSection.ofValue (sect : Section) (value : Data) : LoadedSection :=
  match overrides? value with
  | some overrides => ⟨Data.mergeEntries (packaged sect) overrides, .overridden⟩
  | none => .ofPackaged sect

namespace FileFormat

variable {File : Type} (format : FileFormat File)

/-- Whether a user's file is refused. -/
def isRefused (file : File) : Bool :=
  match format.read file with
  | .holds value => (overrides? value).isNone
  | .unreadable => true
  | .breaks _ => false

/-- Whether reading a user's file breaks loading off. -/
def isBreaking (file : File) : Bool :=
  match format.read file with
  | .breaks _ => true
  | _ => false

/-- A section with the overrides of a user's file. -/
def loadSection (sect : Section) (file? : Option File) : Except LoadError LoadedSection :=
  match file?.map format.read with
  | none | some .unreadable => .ok (.ofPackaged sect)
  | some (.holds value) => .ok (.ofValue sect value)
  | some (.breaks failure) => .error (.broken sect failure)

/-- All sections with the overrides of a user's files.  What fails is the first of
them that does. -/
def loadSections (directory : Directory File) : Except LoadError (Sections LoadedSection) :=
  match directory with
  | .closed _ failure => .error (.closed failure)
  | directory => Sections.traverse fun sect => format.loadSection sect (directory.file? sect)

end FileFormat

/-! ### The log -/

/-- What is logged about loading. -/
inductive Notice where
  | directoryBlocked
  | fileCreated (sect : Section)
  | fileNotCreated (sect : Section)
  | fileRefused (sect : Section)
  | summary (statuses : Sections Status)

/-- The level of a notice. -/
def Notice.level : Notice → String
  | .directoryBlocked | .fileRefused _ => "ERROR"
  | .fileNotCreated _ => "WARNING"
  | .fileCreated _ | .summary _ => "INFO"

/-- The wording of a notice, with `%s` for names, paths and causes. -/
def Notice.text : Notice → String
  | .directoryBlocked => "Could not create user config directory %s: %s"
  | .fileCreated _ => "Created user config: %s"
  | .fileNotCreated _ => "Could not copy default config %s: %s"
  | .fileRefused _ => "Could not parse user config %s: %s"
  | .summary statuses =>
    "Config startup: " ++ " | ".intercalate
      (Section.all.map fun sect => sect.name ++ ": " ++ (statuses.get sect).text)

/-! ### Startup -/

/-- What loading comes to: the sections, unless it has broken off; the directory as
it is left; and the log. -/
structure Loaded (File : Type) where
  sections : Except LoadError (Sections LoadedSection)
  directory : Directory File
  log : List Notice

/-- The entries of the loaded sections. -/
def Loaded.entries {File : Type} (loaded : Loaded File) : Except LoadError AllEntries :=
  loaded.sections.map fun sections sect => (sections.get sect).entries

namespace FileFormat

variable {File : Type} (format : FileFormat File)

/-- The notice about a place without a file. -/
def creationNotice? (sect : Section) : Place File → Option Notice
  | .taken _ => none
  | .free => some (.fileCreated sect)
  | .locked => some (.fileNotCreated sect)

/-- Notices about the files that a directory lacks. -/
def creationLog : Directory File → List Notice
  | .blocked | .closed false _ => [.directoryBlocked]
  | .closed true _ => []
  | .accessible places => Section.all.filterMap fun sect => creationNotice? sect (places.get sect)

/-- Notices about the files that are refused before loading breaks off. -/
def refusalLog (directory : Directory File) : List Notice :=
  let reached := Section.all.takeWhile fun sect => !(directory.file? sect).any format.isBreaking
  (reached.filter fun sect => (directory.file? sect).any format.isRefused).map .fileRefused

/-- The last notice, if loading has not broken off. -/
def summaryLog : Except LoadError (Sections LoadedSection) → List Notice
  | .ok sections => [.summary (.ofFunction fun sect => (sections.get sect).status)]
  | .error _ => []

/-- Loads the settings. -/
def load (directory : Directory File) : Loaded File :=
  let completed := directory.completed format.packagedFile
  let sections := format.loadSections completed
  { sections := sections
    directory := completed
    log := creationLog directory ++ format.refusalLog completed ++ summaryLog sections }

end FileFormat

/-! ### Files known by what they hold -/

/-- The format of files that are known by what comes of reading them. -/
def FileReading.format : FileFormat FileReading where
  read := id
  packagedFile sect := .holds (.record (packaged sect))
  read_packagedFile _ := rfl

/-- A user's directory. -/
abbrev UserDirectory := Directory FileReading

/-- What loading comes to. -/
abbrev Startup := Loaded FileReading

/-- Loads the settings from files known by what comes of reading them. -/
def load (directory : UserDirectory) : Startup :=
  FileReading.format.load directory

end StructuralEditor.Settings
