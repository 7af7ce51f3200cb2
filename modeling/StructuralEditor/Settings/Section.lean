/-
StructuralEditor/Settings/Section.lean

The settings of an editor come in three sections.  They are loaded in a fixed
order, and each can be overridden by a user's file of its own.
-/

namespace StructuralEditor.Settings

/-- A section of the settings. -/
inductive Section where
  | editor
  | keymap
  | logging
  deriving DecidableEq

namespace Section

/-- All sections, in the order in which they are loaded. -/
def all : List Section := [editor, keymap, logging]

/-- The name of a section. -/
def name : Section → String
  | .editor => "editor"
  | .keymap => "keymap"
  | .logging => "logging"

/-- The name of the file that overrides a section. -/
def fileName (sect : Section) : String :=
  sect.name ++ ".yml"

end Section

/-- A value for each section. -/
structure Sections (α : Type) where
  editor : α
  keymap : α
  logging : α

/-- The value for a section. -/
def Sections.get {α : Type} (values : Sections α) : Section → α
  | .editor => values.editor
  | .keymap => values.keymap
  | .logging => values.logging

/-- The values of a function on sections. -/
def Sections.ofFunction {α : Type} (value : Section → α) : Sections α :=
  ⟨value .editor, value .keymap, value .logging⟩

/-- The values of a function on sections that may fail.  The sections are taken in
their order, and the first failure is the one that counts. -/
def Sections.traverse {ε α : Type} (value : Section → Except ε α) : Except ε (Sections α) := do
  let editor ← value .editor
  let keymap ← value .keymap
  let logging ← value .logging
  return ⟨editor, keymap, logging⟩

end StructuralEditor.Settings
