/-
StructuralEditor/Document/Path.lean

Paths address places in a document.  A step names a field of a node, picks an
item of a list by its index, or stands for the place after the last item,
where nothing is but something can be inserted.

An index is meant as a position that a collection in memory can have.  Such a number
is far below those with too many digits to be shown (`Number.leastOverlong`), so a path
always has a text.  The type has no bound of its own: a larger index is past the end of
every collection, and is treated as such.

The moves and edits of a document care about the innermost list a path runs
through.  `splitAtLast` finds it: it cuts a path at its last step with a given
property, and says that no later step has it.
-/
namespace StructuralEditor.Document

/-- One step of a path. -/
inductive Step where
  | field (name : String)
  | index (position : Nat)
  | afterLast
  deriving DecidableEq

/-- A place in a document, read from the root. -/
abbrev Path := List Step

namespace Step

/-- Whether a step is one of the named fields. -/
def isFieldIn (names : List String) : Step → Bool
  | .field name => names.contains name
  | _ => false

/-- Whether a step is an index. -/
def isIndex : Step → Bool
  | .index _ => true
  | _ => false

/-- A step as messages show it. -/
def text : Step → String
  | .field name => name
  | .index position => toString position
  | .afterLast => "end"

end Step

namespace Path

/-- A path in round brackets, as messages show it.  A single step is followed
by a comma. -/
def text : Path → String
  | [] => "()"
  | [step] => "(" ++ step.text ++ ",)"
  | steps => "(" ++ ", ".intercalate (steps.map Step.text) ++ ")"

/-- A path with its steps separated by slashes; a path without any text is
the root. -/
def summary (p : Path) : String :=
  let joined := "/".intercalate (p.map Step.text)
  if joined = "" then "<root>" else joined

/-- Whether a path stands for the place after the last item of a list. -/
def isAfterLast (p : Path) : Bool :=
  p.getLast? == some .afterLast

/-- The path of the node that owns the list in which `p` is a place after the
last item; any other path is its own. -/
def withoutEnd (p : Path) : Path :=
  if p.isAfterLast then p.dropLast.dropLast else p

/-! ### The last step of a kind -/

/-- Cuts a path at its last step with property `q`: what comes before, the
step, and what comes after. -/
def splitAtLast (q : Step → Bool) : Path → Option (Path × Step × Path)
  | [] => none
  | step :: rest =>
    match splitAtLast q rest with
    | some (before, found, after) => some (step :: before, found, after)
    | none => if q step then some ([], step, rest) else none

/-- Position of the last step with property `q`. -/
def lastPosition? (q : Step → Bool) (p : Path) : Option Nat :=
  (splitAtLast q p).map (·.1.length)

/-- A path that is not cut has no step with the property. -/
theorem splitAtLast_eq_none {q : Step → Bool} {p : Path} :
    splitAtLast q p = none ↔ ∀ step ∈ p, q step = false := by
  induction p with
  | nil => simp [splitAtLast]
  | cons s r ih =>
    rw [List.forall_mem_cons, ← ih, splitAtLast]
    rcases splitAtLast q r with - | ⟨before, found, after⟩
    · cases q s <;> simp
    · simp

/-- The parts of a cut make up the path, the step has the property, and no
later step has it. -/
theorem splitAtLast_eq_some {q : Step → Bool} {p before after : Path} {found : Step}
    (h : splitAtLast q p = some (before, found, after)) :
    p = before ++ found :: after ∧ q found = true ∧ ∀ step ∈ after, q step = false := by
  induction p generalizing before with
  | nil => simp [splitAtLast] at h
  | cons s r ih =>
    simp only [splitAtLast] at h
    split at h
    · next b f a hr =>
      obtain ⟨rfl, rfl, rfl⟩ : s :: b = before ∧ f = found ∧ a = after := by simpa using h
      obtain ⟨rfl, hq, hafter⟩ := ih hr
      exact ⟨rfl, hq, hafter⟩
    · next hr =>
      split at h
      · next hs =>
        obtain ⟨rfl, rfl, rfl⟩ : [] = before ∧ s = found ∧ r = after := by simpa using h
        exact ⟨rfl, hs, splitAtLast_eq_none.1 hr⟩
      · exact absurd h (by simp)

/-- A path is cut at a step with the property if no later step has it. -/
theorem splitAtLast_append {q : Step → Bool} {found : Step} {after : Path}
    (hfound : q found = true) (hafter : ∀ step ∈ after, q step = false) (before : Path) :
    splitAtLast q (before ++ found :: after) = some (before, found, after) := by
  induction before with
  | nil => simp [splitAtLast, splitAtLast_eq_none.2 hafter, hfound]
  | cons s before ih => simp [splitAtLast, ih]

end Path

end StructuralEditor.Document
