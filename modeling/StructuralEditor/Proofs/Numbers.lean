/-
StructuralEditor/Proofs/Numbers.lean

Only the number that is being typed has a text that is not canonical.

Prepared documents have canonical numbers (`Session.keepsTo_start`,
`Session.KeepsTo.after`, for the grammar `Grammar.canonical`), and the
preparation changes the selected number only.  So a number that is not canonical
before it is the selected one.  Undo and redo bring such a number back together
with the selection that it was typed under, which is why this holds of every
snapshot and not just of the current one.
-/
import StructuralEditor.Proofs.Rules

namespace StructuralEditor

open Document Editing Number

/-! ### Canonical numbers -/

/-- Whether all numbers of a node have canonical texts. -/
def Document.Node.HasCanonicalNumbers (n : Node) : Prop :=
  ∀ p text, n.nodeAt? p = some (.number text) → IsCanonical text

namespace Document.Node

/-- A node has canonical numbers if and only if it fits anywhere in a document
that has. -/
theorem fits_canonical_iff {n : Node} {isMember : Bool} :
    Grammar.canonical.Fits isMember n ↔ n.HasCanonicalNumbers := by
  constructor
  · rintro ⟨-, hsound⟩ p text hnumber
    have hfits : Grammar.canonical.Fits false n := ⟨fun hstrict => hstrict.elim, hsound⟩
    exact (Grammar.sound_nodeAt? hfits hnumber).number_text
  · intro h
    refine ⟨fun hstrict => hstrict.elim, Grammar.sound_of_keptIn fun p m hm => ?_⟩
    exact ⟨fun _ hstrict => hstrict.elim, fun text htext => h p text (htext ▸ hm)⟩

end Document.Node

/-! ### Sessions -/

namespace Session

variable {s : Session}

/-- Whether a command brings no other numbers along than canonical ones.  Typing
is not restricted; a revision of a value by the caller is left out. -/
def Command.BringsCanonicalNumbers : Command → Prop
  | .edit (.insert node) => node.HasCanonicalNumbers
  | .edit (.replace node below) => node.HasCanonicalNumbers ∧ node.resolves below = true
  | .edit (.updateValue _) => False
  | .edit (.reset tree) => tree.HasCanonicalNumbers
  | _ => True

theorem Command.BringsCanonicalNumbers.isAdmissible {command : Command}
    (h : command.BringsCanonicalNumbers) : command.IsAdmissible s := by
  cases command with
  | edit edit =>
    cases edit with
    | replace node below => exact h.2
    | updateValue revise => exact h.elim
    | _ => trivial
  | _ => trivial

theorem Command.BringsCanonicalNumbers.conforms {command : Command}
    (h : command.BringsCanonicalNumbers) (hinitial : Grammar.canonical.Fits false s.initial) :
    command.Conforms Grammar.canonical s := by
  -- conversions have nothing to prove, since any node may stand anywhere
  have hseats : ∀ old, Grammar.canonical.Seats false old := fun old hstrict => hstrict.elim
  refine conforms_of_edits hinitial ?_ fun _ _ _ old _ => hseats old
  rintro asked rfl
  cases asked with
  | setText text => exact .inl ⟨text, rfl⟩
  | insert node => exact .inr (Node.fits_canonical_iff.2 h)
  | replace node below => exact .inr fun old _ _ _ => Node.fits_canonical_iff.2 h.1
  | updateValue revise => exact h.elim
  | reset tree => exact .inr (Node.fits_canonical_iff.2 h)
  | navigate | select | delete | move | changeKeyword | addToNumber => exact .inr trivial
  | _ => exact .inr fun old _ => hseats old

/-- **Only the selected number may have a text that is not canonical.**  In every
snapshot that undo and redo can bring back, after any run from a plain value
whose commands bring no other numbers along than canonical ones, a number whose
text is not canonical is the selected node. -/
theorem eq_selected_of_not_isCanonical {settings : Settings.AllEntries} {reading : Reading}
    {source : Data} {capacity? : Option Data} {rules? : Option (List (Keymap.Rule Keymap.Guard))}
    {listener? : Option Listener} (hsource : source.IsPlain)
    (hstart : start settings reading source capacity? rules? listener? = .ok s)
    {commands : List Command} (hcommands : ∀ command ∈ commands, command.BringsCanonicalNumbers)
    {x : Snapshot} (hx : x ∈ (s.afterAll commands).history.timeline) {p : Path} {text : String}
    (hnumber : x.tree.nodeAt? p = some (.number text)) (htext : ¬ IsCanonical text) :
    p = x.selected := by
  have hkeeps : (s.afterAll commands).KeepsTo Grammar.canonical :=
    Along.afterAll (fun t command ht hcommand => ht.after hcommand.isAdmissible
      (hcommand.conforms ht.initial)) (keepsTo_start hsource hstart) (along_of_forall hcommands)
  -- were it not selected, the preparation would have left it as it is
  by_contra hp
  have hprepared := Snapshot.nodeAt?_prepared_of_ne (hkeeps.valid x hx) hnumber hp
  exact htext (Grammar.sound_nodeAt? (hkeeps.timeline x hx) hprepared).number_text

/-- A number of a record while it is typed: the path at which it is found is the
selected one. -/
theorem eq_selected_of_typed_number :
    let source := Data.record [(.text "a", .integer 1)]
    let commands : List Command :=
      [.press ⟨"ArrowDown", [], none, none⟩, .press ⟨"ArrowDown", [], none, none⟩,
        .edit (.setText "1.")]
    let place : Path := [.field "body", .index 0, .field "properties", .index 0, .field "value"]
    ∃ s, start Settings.packaged .document source none none none = .ok s ∧
      (s.afterAll commands).current.tree.nodeAt? place = some (.number "1.") ∧
      ¬ IsCanonical "1." ∧ place = (s.afterAll commands).current.selected := by
  intro source commands place
  have hrun : (start Settings.packaged .document source none none none).toOption.map
      (fun s => (s.afterAll commands).current.tree.nodeAt? place) = some (some (.number "1.")) := by
    decide +kernel
  obtain ⟨s, hstart, hnumber⟩ := eq_ok_of_toOption_map hrun
  have hsource : source.IsPlain := .record (by simpa using .integer 1)
  have hcommands : ∀ command ∈ commands, command.BringsCanonicalNumbers := by
    simp [commands, Command.BringsCanonicalNumbers]
  have htext : ¬ IsCanonical "1." := by decide +kernel
  have hcurrent : (s.afterAll commands).current ∈ (s.afterAll commands).history.timeline := by
    simp [History.timeline, History.entries, current]
  exact ⟨s, hstart, hnumber, htext, eq_selected_of_not_isCanonical hsource hstart hcommands
    hcurrent hnumber htext⟩

end Session

end StructuralEditor
