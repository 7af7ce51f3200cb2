/-
StructuralEditor/Proofs/Loading.lean

What loading the settings comes to, and that loading them again comes to the same.

The first loading writes the packaged files that are missing before it reads any.
So an absent file is read as an override of the packaged section by itself, which
changes nothing (`Data.overridden_self`); a file that holds no record leaves the
packaged section as well, and only a record overrides it.  After that the places of
the directory are filled, and filling them once more leaves them (`filled_filled`):
the second loading meets the files that the first one read.

Loading breaks off at the first file whose reading fails in a way that is not
foreseen, and it does not begin when the directory is closed (`faults`).  The files
that were missing have been written all the same.

The reader of the files is any at all.  What is asked of it besides reading the
packaged files is that the records it finds in the user's files have each key once.
-/
import StructuralEditor.Proofs.Records
import StructuralEditor.Proofs.Results
import StructuralEditor.Settings.Startup

namespace StructuralEditor.Settings

open Data

/-! ### Sections -/

@[simp]
theorem Sections.get_ofFunction {α : Type} (value : Section → α) (sect : Section) :
    (Sections.ofFunction value).get sect = value sect := by
  cases sect <;> rfl

/-- Sections are taken together when each is to be had. -/
theorem Sections.get_of_traverse {ε α : Type} {value : Section → Except ε α}
    {sections : Sections α} (h : Sections.traverse value = .ok sections) (sect : Section) :
    value sect = .ok (sections.get sect) := by
  obtain ⟨editor, heditor, h⟩ := bind_eq_ok.1 h
  obtain ⟨keymap, hkeymap, h⟩ := bind_eq_ok.1 h
  obtain ⟨logging, hlogging, h⟩ := bind_eq_ok.1 h
  cases h
  cases sect
  · exact heditor
  · exact hkeymap
  · exact hlogging

/-- Sections taken together report the faults of all, in the order of the sections. -/
theorem Sections.reports_traverse {ε α : Type} {value : Section → Except ε α}
    {fault? : Section → Option ε} (h : ∀ sect, Reports (fault? sect).toList (value sect)) :
    Reports (Section.all.filterMap fault?) (Sections.traverse value) := by
  have hfaults : Section.all.filterMap fault? =
      (fault? .editor).toList ++ ((fault? .keymap).toList ++ (fault? .logging).toList) := by
    simp only [Section.all, filterMap_cons_eq_append, List.filterMap_nil, List.append_nil]
  rw [hfaults]
  exact (h .editor).bind fun _ => (h .keymap).bind fun _ => (h .logging).bind_ok fun _ => ⟨_, rfl⟩

/-- The packaged sections have texts for keys, all different. -/
theorem haveNames_packaged (sect : Section) : HaveNames (packaged sect) := by
  cases sect with
  | editor =>
    have hnodup : ["max_history", "show_keymap"].Nodup := by decide
    exact .of_names rfl hnodup
  | keymap =>
    have hnodup : ["mappings"].Nodup := by decide
    exact .of_names rfl hnodup
  | logging =>
    have hnodup : ["version", "disable_existing_loggers", "formatters", "handlers", "loggers",
        "root"].Nodup := by decide
    exact .of_names rfl hnodup

/-! ### Completing a directory -/

/-- A place that has been filled is left as it is. -/
theorem Place.filled_filled {File : Type} (file : File) (place : Place File) :
    (place.filled file).filled file = place.filled file := by
  cases place <;> rfl

namespace Directory

variable {File : Type} (packagedFile : Section → File)

@[simp]
theorem place_completed (directory : Directory File) (sect : Section) :
    (directory.completed packagedFile).place sect =
      (directory.place sect).filled (packagedFile sect) := by
  cases directory with
  | accessible places => simp [completed, place]
  | blocked => rfl
  | closed isMade failure => rfl

/-- A file that is there is kept. -/
theorem file?_completed_of_some {directory : Directory File} {sect : Section} {file : File}
    (h : directory.file? sect = some file) :
    (directory.completed packagedFile).file? sect = some file := by
  rw [file?] at h ⊢
  rw [place_completed]
  rcases e : directory.place sect with kept | - | - <;> rw [e] at h
  · exact h
  · cases h
  · cases h

/-- A file is created where there is a place for it. -/
theorem file?_completed_of_free {directory : Directory File} {sect : Section}
    (h : directory.place sect = .free) :
    (directory.completed packagedFile).file? sect = some (packagedFile sect) := by
  rw [file?, place_completed, h]
  rfl

/-- No file is created where there is no place for it. -/
theorem file?_completed_of_locked {directory : Directory File} {sect : Section}
    (h : directory.place sect = .locked) :
    (directory.completed packagedFile).file? sect = none := by
  rw [file?, place_completed, h]
  rfl

/-- A completed directory is left as it is. -/
theorem completed_completed (directory : Directory File) :
    (directory.completed packagedFile).completed packagedFile =
      directory.completed packagedFile := by
  cases directory with
  | accessible places => simp [completed, Place.filled_filled]
  | blocked => rfl
  | closed isMade failure => rfl

end Directory

/-! ### Loading a section -/

namespace FileFormat

variable {File : Type} (format : FileFormat File)

/-- The record that a file holds, if it holds one. -/
def record? (file : File) : Option Entries :=
  match format.read file with
  | .holds (.record entries) => some entries
  | _ => none

/-- Why loading breaks off at the file of a section, if it does. -/
def fault? (sect : Section) (file : File) : Option LoadError :=
  match format.read file with
  | .breaks failure => some (.broken sect failure)
  | _ => none

theorem record?_packagedFile (sect : Section) :
    format.record? (format.packagedFile sect) = some (packaged sect) := by
  rw [record?, format.read_packagedFile]

theorem fault?_packagedFile (sect : Section) :
    format.fault? sect (format.packagedFile sect) = none := by
  rw [fault?, format.read_packagedFile]

theorem reports_loadSection (sect : Section) (file? : Option File) :
    Reports (file?.bind (format.fault? sect)).toList (format.loadSection sect file?) := by
  rcases file? with - | file
  · exact Reports.ok _
  · simp only [Option.bind_some, fault?, loadSection, Option.map_some]
    rcases format.read file with value | - | failure
    · exact Reports.ok _
    · exact Reports.ok _
    · exact Reports.error _ _

/-- What counts as false overrides as an empty record would. -/
theorem entries_ofValue_of_not_record {value : Data} (sect : Section)
    (h : ∀ entries, value ≠ .record entries) :
    (LoadedSection.ofValue sect value).entries = packaged sect := by
  cases value with
  | record entries => exact absurd rfl (h entries)
  | _ =>
    simp only [LoadedSection.ofValue, overrides?]
    split
    · next heq =>
      rw [Option.ite_none_left_eq_some] at heq
      obtain rfl := Option.some.inj heq.2
      rfl
    · rfl

/-- A record overrides its section, and what is no record leaves it. -/
theorem entries_of_loadSection {sect : Section} {file : File} {loaded : LoadedSection}
    (h : format.loadSection sect (some file) = .ok loaded) :
    loaded.entries =
      match format.record? file with
      | some entries => mergeEntries (packaged sect) entries
      | none => packaged sect := by
  rw [record?]
  rw [loadSection, Option.map_some] at h
  rcases e : format.read file with value | - | failure <;> rw [e] at h
  · obtain rfl := Except.ok.inj h
    cases value with
    | record entries => rfl
    | _ => exact entries_ofValue_of_not_record sect nofun
  · obtain rfl := Except.ok.inj h
    rfl
  · cases h

/-! ### Loading a directory -/

/-- A section as a user's directory has it. -/
def sectionOf (directory : Directory File) (sect : Section) : Entries :=
  match (directory.file? sect).bind format.record? with
  | some entries => overridden (packaged sect) entries
  | none => packaged sect

/-- Why a directory cannot be loaded: it is closed, or some of its files break loading
off. -/
def faults (directory : Directory File) : List LoadError :=
  match directory with
  | .closed _ failure => [.closed failure]
  | directory => Section.all.filterMap fun sect => (directory.file? sect).bind (format.fault? sect)

/-- Whether the records in a user's files have each key once. -/
def HasDistinctKeys (directory : Directory File) : Prop :=
  ∀ sect file entries, directory.file? sect = some file → format.record? file = some entries →
    entries.Pairwise HaveDistinctKeys

/-- The files that are created are none of the faults. -/
theorem faults_completed (directory : Directory File) :
    format.faults (directory.completed format.packagedFile) = format.faults directory := by
  have hfault (sect : Section) :
      ((directory.completed format.packagedFile).file? sect).bind (format.fault? sect) =
        (directory.file? sect).bind (format.fault? sect) := by
    rw [Directory.file?, Directory.file?, Directory.place_completed]
    rcases directory.place sect with file | - | -
    · rfl
    · exact format.fault?_packagedFile sect
    · rfl
  cases directory with
  | closed isMade failure => rfl
  | blocked => rfl
  | accessible places => exact congrArg Section.all.filterMap (funext hfault)

theorem reports_loadSections (directory : Directory File) :
    Reports (format.faults directory) (format.loadSections directory) := by
  have hsections := Sections.reports_traverse fun sect =>
    format.reports_loadSection sect (directory.file? sect)
  cases directory with
  | closed isMade failure => exact Reports.error _ _
  | blocked => exact hsections
  | accessible places => exact hsections

theorem reports_load (directory : Directory File) :
    Reports (format.faults directory) (format.load directory).entries := by
  rw [← faults_completed]
  exact (format.reports_loadSections _).map _

theorem get_of_loadSections {directory : Directory File} {sections : Sections LoadedSection}
    (h : format.loadSections directory = .ok sections) (sect : Section) :
    format.loadSection sect (directory.file? sect) = .ok (sections.get sect) := by
  have hsections (h : Sections.traverse (fun sect => format.loadSection sect
      (directory.file? sect)) = .ok sections) := Sections.get_of_traverse h sect
  cases directory with
  | closed isMade failure => cases h
  | blocked => exact hsections h
  | accessible places => exact hsections h

/-- What the sections come to is decided by the directory before it is completed: a
created file overrides its section by itself. -/
theorem entries_of_load {directory : Directory File} {settings : AllEntries}
    (hkeys : format.HasDistinctKeys directory)
    (h : (format.load directory).entries = .ok settings) (sect : Section) :
    settings sect = format.sectionOf directory sect := by
  obtain ⟨sections, hsections, rfl⟩ := map_eq_ok.1 h
  have hsection := format.get_of_loadSections hsections sect
  show (sections.get sect).entries = _
  rw [sectionOf]
  rcases e : directory.place sect with file | - | -
  · have hfile : directory.file? sect = some file := congrArg Place.file? e
    rw [Directory.file?_completed_of_some _ hfile] at hsection
    rw [format.entries_of_loadSection hsection, hfile, Option.bind_some]
    rcases hrecord : format.record? file with - | entries
    · rfl
    · have hdistinct := hkeys sect file entries hfile hrecord
      exact mergeEntries_eq_overridden (haveNames_packaged sect) hdistinct
  · have hfile : directory.file? sect = none := congrArg Place.file? e
    rw [Directory.file?_completed_of_free _ e] at hsection
    rw [format.entries_of_loadSection hsection, record?_packagedFile, hfile]
    have hnames := haveNames_packaged sect
    exact (mergeEntries_eq_overridden hnames hnames.distinct).trans (overridden_self hnames)
  · have hfile : directory.file? sect = none := congrArg Place.file? e
    rw [Directory.file?_completed_of_locked _ e] at hsection
    rw [← Except.ok.inj hsection, hfile]
    rfl

/-- What loading a user's directory comes to. -/
structure IsLoaded (directory : Directory File) (loaded : Loaded File) : Prop where
  /-- Loading breaks off at the first fault of the directory. -/
  broken : ∀ e, loaded.entries = .error e ↔ (format.faults directory).head? = some e
  /-- If there is none, each section is as the directory has it. -/
  entries : format.faults directory = [] → loaded.entries = .ok (format.sectionOf directory)
  /-- Files that are there are kept. -/
  kept : ∀ sect file, directory.file? sect = some file →
    loaded.directory.file? sect = some file
  /-- Files that are missing are created where there is a place for them, -/
  created : ∀ sect, directory.place sect = .free →
    loaded.directory.file? sect = some (format.packagedFile sect)
  /-- and nowhere else. -/
  locked : ∀ sect, directory.place sect = .locked → loaded.directory.file? sect = none
  /-- A directory that could not be made or asked stays so. -/
  inaccessible : (∀ places, directory ≠ .accessible places) → loaded.directory = directory

/-- **Loading comes to what it should, and to the same the second time,** unless the
directory is closed or one of its files breaks loading off. -/
theorem isLoaded_load (directory : Directory File) (h : format.HasDistinctKeys directory) :
    let loaded := format.load directory
    let again := format.load loaded.directory
    format.IsLoaded directory loaded ∧ again.directory = loaded.directory ∧
      again.entries = loaded.entries := by
  intro loaded again
  have hdirectory : again.directory = loaded.directory :=
    directory.completed_completed format.packagedFile
  refine ⟨⟨(format.reports_load directory).iff.2, ?_, ?_, ?_, ?_, ?_⟩, hdirectory, ?_⟩
  · intro hfaults
    obtain ⟨settings, hsettings⟩ := (format.reports_load directory).iff.1.2 hfaults
    rw [hsettings]
    exact congrArg _ (funext (format.entries_of_load h hsettings))
  · intro sect file hfile
    exact Directory.file?_completed_of_some format.packagedFile hfile
  · intro sect hfree
    exact Directory.file?_completed_of_free format.packagedFile hfree
  · intro sect hlocked
    exact Directory.file?_completed_of_locked format.packagedFile hlocked
  · intro hplaces
    cases directory with
    | accessible places => exact absurd rfl (hplaces places)
    | blocked => rfl
    | closed isMade failure => rfl
  · have hsections : again.sections = loaded.sections :=
      congrArg format.loadSections hdirectory
    rw [Loaded.entries, Loaded.entries, hsections]

end FileFormat

/-- A file: a packaged one, or one with a text of the user's own. -/
inductive TextFile where
  | packaged (sect : Section)
  | own (content : String)

/-- What comes of reading a few texts. -/
def readText (content : String) : FileReading :=
  if content = "zoom: 2\nmax_history: 5\n" then
    .holds (.record [(.text "zoom", .integer 2), (.text "max_history", .integer 5)])
  else if content = "- 1\n- 2\n" then .holds (.list [.integer 1, .integer 2])
  else if content = "max_history: !!bool maybe" then .breaks "KeyError"
  else .unreadable

/-- The format of files that are packaged or have one of these texts. -/
def TextFile.format : FileFormat TextFile where
  read
    | .packaged sect => .holds (.record (Settings.packaged sect))
    | .own content => readText content
  packagedFile := .packaged
  read_packagedFile _ := rfl

/-- A directory with overrides of the editor's settings, no key bindings, and a list
in place of the settings of logging. -/
def mixedDirectory : Directory TextFile :=
  .accessible ⟨.taken (.own "zoom: 2\nmax_history: 5\n"), .free, .taken (.own "- 1\n- 2\n")⟩

/-- Of the three sections only that of the editor is overridden: its history keeps its
place, and the setting that is new comes last. -/
theorem isLoaded_load_mixed :
    let loaded := TextFile.format.load mixedDirectory
    TextFile.format.HasDistinctKeys mixedDirectory ∧
      (∃ settings, loaded.entries = .ok settings ∧
        settings .editor = [(.text "max_history", .integer 5),
          (.text "show_keymap", .boolean true), (.text "zoom", .integer 2)] ∧
        settings .keymap = packagedKeymap ∧ settings .logging = packagedLogging) ∧
      loaded.directory.file? .keymap = some (.packaged .keymap) ∧
      loaded.directory.file? .logging = some (.own "- 1\n- 2\n") ∧
      (TextFile.format.load loaded.directory).directory = loaded.directory := by
  intro loaded
  have hkeys : TextFile.format.HasDistinctKeys mixedDirectory := by
    rintro (- | - | -) file entries hfile hentries
    · cases hfile
      cases hentries
      have hnodup : ["zoom", "max_history"].Nodup := by decide
      exact (HaveNames.of_names rfl hnodup).distinct
    · cases hfile
    · cases hfile
      cases hentries
  obtain ⟨hloaded, hagain, -⟩ := TextFile.format.isLoaded_load mixedDirectory hkeys
  refine ⟨hkeys, ⟨_, hloaded.entries rfl, ?_, rfl, rfl⟩, hloaded.created .keymap rfl,
    hloaded.kept .logging _ rfl, hagain⟩
  simp [FileFormat.sectionOf, mixedDirectory, Directory.file?, Directory.place, Sections.get,
    Place.file?, FileFormat.record?, TextFile.format, readText, overridden, revalued, added,
    value?, packaged, packagedEditor]

/-- A file with a text whose value cannot be made is not skipped, a directory that
cannot be asked for its files is no empty one, and one that cannot be written to stays
without them. -/
theorem load_of_faults :
    (TextFile.format.load (.accessible
        ⟨.taken (.own "max_history: !!bool maybe"), .free, .free⟩)).entries =
      .error (.broken .editor "KeyError") ∧
    (TextFile.format.load (.closed false "PermissionError")).entries =
      .error (.closed "PermissionError") ∧
    (TextFile.format.load (.accessible ⟨.locked, .locked, .locked⟩)).directory.file? .editor =
      none :=
  ⟨rfl, rfl, rfl⟩

end StructuralEditor.Settings
