/-
StructuralEditor/Number/Canonical.lean

Canonical number text: the text that a number has in a document while nobody
is typing it.  Normalizing a text reads its leading numeral and writes it
again; a text is canonical if that changes nothing.
-/
import StructuralEditor.Number.Notation

namespace StructuralEditor.Number

/-- The canonical text of the number that a text begins with. -/
def normalize (text : String) : String :=
  (Double.ofLeading text).canonicalText

/-- Whether a text is the canonical text of a number. -/
def IsCanonical (text : String) : Prop :=
  normalize text = text

instance (text : String) : Decidable (IsCanonical text) := by
  unfold IsCanonical
  infer_instance

end StructuralEditor.Number
