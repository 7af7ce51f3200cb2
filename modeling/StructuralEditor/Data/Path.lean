/-
StructuralEditor/Data/Path.lean

The steps of a path given as values.  A text names a field, except that `end` is
the place after the last item; an integer that is not negative is an index.
Nothing else is a step.
-/
import StructuralEditor.Data.Literal
import StructuralEditor.Document.Path

namespace StructuralEditor

open Document

/-- Why a value is no step of a path. -/
inductive StepError where
  | negativeIndex (position : Int)
  | notAStep (value : Data)

/-- The wording of a step error, if what it is about can be written. -/
def StepError.message? : StepError → Option String
  | .negativeIndex position =>
    (Data.integer position).literal?.map ("Collection index must be non-negative, got " ++ ·)
  | .notAStep value => value.literal?.map ("Invalid path step: " ++ ·)

namespace Data

/-- The step that a value stands for. -/
def toStep : Data → Except StepError Step
  | .text s => .ok (if s = Step.afterLast.text then .afterLast else .field s)
  | .integer i => if 0 ≤ i then .ok (.index i.toNat) else .error (.negativeIndex i)
  | other => .error (.notAStep other)

end Data

end StructuralEditor
