/-
StructuralEditor/Document/Error.lean

Why an operation on a document fails.  A failure is a mistake of the caller,
such as a path that leads nowhere; an edit that has nothing to act on is no
failure but declines, with a reason (see `Editing.Outcome`).
-/
import StructuralEditor.Document.Path
import StructuralEditor.Number.Error

namespace StructuralEditor.Document

/-- Why an operation on a document fails. -/
inductive EditError where
  /-- The path leads nowhere. -/
  | unresolved (path : Path)
  /-- The path does not lead to a list. -/
  | notACollection (path : Path)
  /-- The slot is for another kind of content. -/
  | unfit (path : Path)
  /-- A sideways move found a field where a position of a list is due. -/
  | fieldAsPosition (name : String)
  /-- There is no direction of this name. -/
  | unknownDirection (name : String)
  /-- A content that is not text cannot be extended. -/
  | notText
  /-- A value does not serve as a number. -/
  | number (cause : Number.NumberError)
  deriving DecidableEq

/-- The wording of an error. -/
def EditError.message : EditError → String
  | .unresolved path => "Path does not resolve: " ++ path.text
  | .notACollection path => "Not a collection: " ++ path.text
  | .unfit path => "Content does not fit: " ++ path.text
  | .fieldAsPosition name => "Not a position: " ++ name
  | .unknownDirection name => "Unsupported direction '" ++ name ++ "'"
  | .notText => "Content is not text"
  | .number cause => cause.message

end StructuralEditor.Document
