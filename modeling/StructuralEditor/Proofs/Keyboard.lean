/-
StructuralEditor/Proofs/Keyboard.lean

Keys that are left to a text.

While a text has the focus, a key press without control types a character, and a
keymap must not take it for a command.  Whether it does depends on all of its
rules together: on the modifiers that a rule requires, on its keys and on what its
test says of texts, and on the values and labels of the groups, which decide how
the search goes on after a group without result.

The answer is a check of the rules alone (`Rule.isMute`).  A guard is shut to a
text if it requires control, or has no other keys than given ones, or refuses
texts; a rule is mute if its guard is shut, or if it is a named group of mute
rules.  Mute rules give no action (`actionFor_eq_none`).  The packaged rules are
mute up to four keys (`areMute_packaged`), and a change of the keymap has to pass
that check again and nothing else.
-/
import StructuralEditor.Proofs.Validity

namespace StructuralEditor

open Document Keymap Settings

namespace Keymap

/-! ### Guards and texts -/

/-- Whether a condition is false of every text. -/
def Condition.refusesTexts : Condition → Bool
  | .notEditable | .isNull | .isBoolean | .isArray | .isObject | .isProperty
  | .isDeclaration => true
  | _ => false

/-- Whether a test is failed by every text. -/
def Test.refusesTexts : Test → Bool
  | .one condition => condition.refusesTexts
  | .every conditions => conditions.any Condition.refusesTexts

/-- Whether the control key is required at every text. -/
def Requirement.asksControl : Requirement → Bool
  | .modifiers required => required.contains .ctrlKey
  | .ctrlIfEditable => true

/-- Whether a guard is shut to a text, for every key but the given ones and
without control. -/
def Guard.isShut (keys : List String) (guard : Guard) : Bool :=
  guard.requirement?.any Requirement.asksControl ||
    guard.keys?.any (fun own => own.all keys.contains) ||
    guard.test?.any Test.refusesTexts

/-- A key press on a text, without control and with none of the given keys. -/
structure IsTyping (keys : List String) (press : KeyPress) (focus : Focus) : Prop where
  text : focus.isText = true
  control : press.holds .ctrlKey = false
  key : press.key ∉ keys

section

variable {keys : List String} {press : KeyPress} {focus : Focus}

theorem Focus.exists_leaf (h : focus.isText = true) :
    ∃ kind text, focus.node? = some (.leaf kind text) := by
  unfold isText at h
  rcases hn : focus.node? with - | n
  · rw [hn] at h
    cases h
  · rw [hn] at h
    cases n with
    | leaf kind text => exact ⟨kind, text, rfl⟩
    | _ => cases h

theorem Condition.holds_of_refusesTexts {condition : Condition}
    (h : condition.refusesTexts = true) (htext : focus.isText = true) :
    condition.holds focus = false := by
  obtain ⟨kind, text, hleaf⟩ := Focus.exists_leaf htext
  cases condition with
  | notEditable => simp [holds, htext]
  | isNull => simp [holds, hleaf]
  | isBoolean => simp [holds, hleaf]
  | isArray => simp [holds, hleaf]
  | isObject => simp [holds, hleaf]
  | isProperty => simp [holds, hleaf, Node.isProperty]
  | isDeclaration => simp [holds, hleaf]
  | _ => cases h

theorem Test.passes_of_refusesTexts {test : Test} (h : test.refusesTexts = true)
    (htext : focus.isText = true) : test.passes focus = false := by
  cases test with
  | one condition => exact Condition.holds_of_refusesTexts h htext
  | every conditions =>
    obtain ⟨condition, hcondition, hrefuses⟩ := List.any_eq_true.1 h
    apply List.all_eq_false.2
    exact ⟨condition, hcondition, by simp [Condition.holds_of_refusesTexts hrefuses htext]⟩

theorem Requirement.asked_of_asksControl {requirement : Requirement}
    (h : requirement.asksControl = true) (htyping : IsTyping keys press focus) :
    (requirement.required focus).all press.holds = false := by
  have hmem : Modifier.ctrlKey ∈ requirement.required focus := by
    cases requirement with
    | modifiers required => exact List.contains_iff_mem.1 h
    | ctrlIfEditable => simp [required, htyping.text]
  apply List.all_eq_false.2
  exact ⟨.ctrlKey, hmem, by simp [htyping.control]⟩

/-- A shut guard is not open to typing. -/
theorem Guard.isOpen_of_isShut {guard : Guard} (h : guard.isShut keys = true)
    (htyping : IsTyping keys press focus) : guard.isOpen press focus = false := by
  simp only [isShut, Bool.or_eq_true, Option.any_eq_true] at h
  rcases h with (⟨requirement, hrequirement, hcontrol⟩ | ⟨own, hown, hkeys⟩) |
    ⟨test, htest, hrefuses⟩
  · simp [isOpen, hrequirement, Requirement.asked_of_asksControl hcontrol htyping]
  · -- all keys of the rule are given ones, and the key pressed is none
    have hother : press.key ∉ own := by
      intro hmem
      exact htyping.key (List.contains_iff_mem.1 (List.all_eq_true.1 hkeys _ hmem))
    simp [isOpen, hown, hother]
  · simp [isOpen, htest, Test.passes_of_refusesTexts hrefuses htyping.text]

end

/-! ### Mute rules -/

mutual

/-- Whether a rule gives nothing to typing, whatever the text is. -/
def Rule.isMute (keys : List String) : Rule Guard → Bool
  | .leaf guard _ _ => guard.isShut keys
  | .group guard value label rules =>
    guard.isShut keys || ((Rule.group guard value label []).isNamed && areMute keys rules)

/-- Whether all of the rules give nothing to typing. -/
def areMute (keys : List String) : List (Rule Guard) → Bool
  | [] => true
  | rule :: rest => rule.isMute keys && areMute keys rest

end

section

variable {keys : List String} {press : KeyPress} {focus : Focus}

mutual

/-- An open mute rule is a named group whose search gives nothing, … -/
theorem Rule.action?_of_isMute (htyping : IsTyping keys press focus) :
    ∀ rule : Rule Guard, rule.isMute keys = true → rule.guard.isOpen press focus = true →
      rule.action? (fun guard => guard.isOpen press focus) = none ∧ rule.isNamed = true
  | .leaf guard value label, hmute, hopen => by
    have hclosed : guard.isOpen press focus = false := Guard.isOpen_of_isShut hmute htyping
    exact absurd hopen (by simp [Rule.guard, hclosed])
  | .group guard value label rules, hmute, hopen => by
    rcases Bool.or_eq_true_iff.1 hmute with hshut | hrules
    · have hclosed : guard.isOpen press focus = false := Guard.isOpen_of_isShut hshut htyping
      exact absurd hopen (by simp [Rule.guard, hclosed])
    · obtain ⟨hnamed, hrules⟩ := Bool.and_eq_true_iff.1 hrules
      refine ⟨?_, hnamed⟩
      show (actionFor press focus rules).map (withValue value) = none
      rw [actionFor_eq_none htyping rules hrules]
      rfl

/-- … so a search among mute rules goes through all of them and gives nothing. -/
theorem actionFor_eq_none (htyping : IsTyping keys press focus) :
    ∀ rules : List (Rule Guard), areMute keys rules = true → actionFor press focus rules = none
  | [], _ => rfl
  | rule :: rest, hmute => by
    obtain ⟨hrule, hrest⟩ := Bool.and_eq_true_iff.1 hmute
    have hnone := actionFor_eq_none htyping rest hrest
    rw [actionFor, findAction]
    split
    · next hopen =>
      obtain ⟨haction, hnamed⟩ := Rule.action?_of_isMute htyping rule hrule hopen
      rw [haction, if_pos hnamed]
      exact hnone
    · exact hnone

end

end

/-! ### The packaged keymap -/

/-- The keys that the packaged keymap binds for texts without control. -/
def commandKeys : List String :=
  ["Enter", "Delete", "ArrowUp", "ArrowDown"]

theorem areMute_packaged {rules : List (Rule Guard)}
    (h : compile (.record (packaged .keymap)) = .ok rules) : areMute commandKeys rules = true := by
  have hchecked : (compile (.record (packaged .keymap))).toOption.map (areMute commandKeys) =
      some true := by
    decide +kernel
  obtain ⟨rules', hrules', hmute⟩ := eq_ok_of_toOption_map hchecked
  obtain rfl := Except.ok.inj (hrules'.symm.trans h)
  exact hmute

end Keymap

/-! ### Sessions -/

namespace Session

variable {s : Session} {press : KeyPress}

/-- Whether a key press is for the text that has the focus: a key that is neither a
command nor an arrow, or an arrow to the side with room for the caret. -/
def IsForText (press : KeyPress) : Prop :=
  press.key ∉ ["Enter", "Delete", "ArrowUp", "ArrowDown", "ArrowLeft", "ArrowRight"] ∨
    ∃ caret length : Int, press.caret? = some caret ∧ press.textLength? = some length ∧
      ((press.key = "ArrowLeft" ∧ 0 ≤ caret - 1 ∧ caret - 1 ≤ length) ∨
        (press.key = "ArrowRight" ∧ 0 ≤ caret + 1 ∧ caret + 1 ≤ length))

theorem IsForText.key_notMem (h : IsForText press) : press.key ∉ commandKeys := by
  rcases h with hkey | ⟨caret, length, -, -, ⟨hkey, -⟩ | ⟨hkey, -⟩⟩
  · intro hmem
    exact hkey (List.mem_append_left ["ArrowLeft", "ArrowRight"] hmem)
  · rw [hkey]
    decide
  · rw [hkey]
    decide

theorem isCaretPlace_iff {place length : Int} :
    isCaretPlace place length = true ↔ 0 ≤ place ∧ place ≤ length := by
  rw [isCaretPlace, Bool.and_eq_true, decide_eq_true_iff, decide_eq_true_iff]

/-- Such a key press does not move the selection. -/
theorem movement?_eq_none (htext : s.focus.isText = true) (hpress : IsForText press) :
    s.movement? press = none := by
  unfold movement?
  split
  · rfl
  · rcases hpress with hkey | ⟨caret, length, hcaret, hlength, hroom⟩
    · have harrow : arrow? press.key = none := by
        simp only [List.mem_cons, List.not_mem_nil, or_false, not_or] at hkey
        obtain ⟨-, -, hup, hdown, hleft, hright⟩ := hkey
        simp [arrow?, hup, hdown, hleft, hright]
      rw [harrow]
      rfl
    · rcases hroom with ⟨hkey, hplace⟩ | ⟨hkey, hplace⟩
      · have hstays : staysInText press .left = true := by
          simp only [staysInText, hcaret, hlength]
          exact isCaretPlace_iff.2 hplace
        rw [hkey]
        simp [arrow?, htext, hstays]
      · have hstays : staysInText press .right = true := by
          simp only [staysInText, hcaret, hlength]
          exact isCaretPlace_iff.2 hplace
        rw [hkey]
        simp [arrow?, htext, hstays]

/-- **Typing into a text is no command.**  With the packaged keymap, while a text has
the focus, a key press without control that is for the text is answered as not
used, and the session stays as it is: its history and its future, nothing is
announced and nothing reported. -/
theorem run_press_of_text (hrules : compile (.record (packaged .keymap)) = .ok s.rules)
    (htext : s.focus.isText = true) (hcontrol : press.holds .ctrlKey = false)
    (hpress : IsForText press) :
    s.run (.press press) = .ok (s.unmoved (.flag false) none) := by
  have htyping : IsTyping commandKeys press s.focus := ⟨htext, hcontrol, hpress.key_notMem⟩
  have hreaction : s.reaction press = .pass := by
    obtain ⟨kind, text, hleaf⟩ := Focus.exists_leaf htext
    rw [reaction, movement?_eq_none htext hpress]
    simp [hleaf, actionFor_eq_none htyping s.rules (areMute_packaged hrules)]
  show s.handle press = _
  rw [handle, hreaction]

/-- Where no rules are given, a session takes those of the settings. -/
theorem compile_of_start {settings : AllEntries} {reading : Reading} {source : Data}
    {capacity? : Option Data} {listener? : Option Listener}
    (hstart : start settings reading source capacity? none listener? = .ok s) :
    compile (.record (settings .keymap)) = .ok s.rules := by
  cases capacity? <;> simp only [start, bind_eq_ok, mapError_eq_ok] at hstart <;>
    obtain ⟨capacity, -, rules, hrules, tree, -, history, -, heq⟩ := hstart <;>
    obtain rfl := Except.ok.inj heq <;>
    exact hrules

/-- Keys over a number in a session with the packaged keymap: with alt and shift a letter
that is a command elsewhere, and an arrow to the right with a place left for the
caret. -/
theorem run_press_over_number :
    let letter : KeyPress := ⟨"n", [.altKey, .shiftKey], some 0, some 1⟩
    let arrow : KeyPress := ⟨"ArrowRight", [], some 0, some 1⟩
    ∃ s, start Settings.packaged .value (.integer 1) none none none = .ok s ∧
      s.focus.isText = true ∧
      s.run (.press letter) = .ok (s.unmoved (.flag false) none) ∧
      s.run (.press arrow) = .ok (s.unmoved (.flag false) none) := by
  intro letter arrow
  have hstarts : (start Settings.packaged .value (.integer 1) none none none).toOption.map
      (fun s => s.focus.isText) = some true := by
    decide +kernel
  obtain ⟨s, hstart, htext⟩ := eq_ok_of_toOption_map hstarts
  have hrules := compile_of_start hstart
  have hletter : IsForText letter := .inl (by decide)
  have harrow : IsForText arrow := .inr ⟨0, 1, rfl, rfl, .inr ⟨rfl, by decide, by decide⟩⟩
  exact ⟨s, hstart, htext, run_press_of_text hrules htext (by decide) hletter,
    run_press_of_text hrules htext (by decide) harrow⟩

end Session

end StructuralEditor
