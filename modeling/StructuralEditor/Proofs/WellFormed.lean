/-
StructuralEditor/Proofs/WellFormed.lean

Well-formed documents, and the one way to lose them.

Objects hold properties, and nothing else does.  All that keys, actions and the
clipboard can do keeps it so, however properties are moved from object to object
(`Session.KeepsTo.after`, for the grammar `Grammar.wellFormed`), with one
exception: a conversion does not look at what it converts.  A property that is
converted leaves something else in its object, or goes into an array, and the
document is not well formed any more, whichever conversion it is and whatever
the document was (`Session.not_isWellFormed_after`).
-/
import StructuralEditor.Proofs.Rules

namespace StructuralEditor

open Document Editing Number

variable {g : Grammar}

/-- Rules that are not about the texts of numbers are kept before the preparation
if they are kept after it. -/
theorem Document.Snapshot.fits_of_prepared {s : Snapshot} (hs : s.resolves = true)
    (hnumber : ∀ text, g.number text) (h : g.Fits false s.prepared.tree) : g.Fits false s.tree := by
  rcases hn : s.node? with - | n
  · rwa [prepared_of_node?_eq_none hs hn] at h
  · have hold : s.prepared.tree.nodeAt? s.selected = some n.canonicalized := by
      rw [← (resolves_prepared hs).2]
      exact (node?_prepared hs).trans (by rw [hn]; rfl)
    have hreplaces : g.Replaces n.canonicalized n := by
      intro isMember hfits
      cases n with
      | leaf kind text => exact ⟨by cases kind <;> exact hfits.1, .leaf fun _ => hnumber text⟩
      | _ => exact hfits
    exact Grammar.fits_put? hold (put?_prepared hn) hreplaces h

theorem Document.Node.isProperty_canonicalized (n : Node) :
    n.canonicalized.isProperty = n.isProperty := by
  cases n with
  | leaf kind text => cases kind <;> rfl
  | _ => rfl

namespace Session

variable {s : Session}

/-! ### Commands -/

/-- Whether a command is a key, an action, one of the clipboard or the history,
or an edit that brings nothing along. -/
def Command.IsInteractive : Command → Prop
  | .edit (.insert _) | .edit (.replace _ _) | .edit (.updateValue _) | .edit (.reset _) => False
  | _ => True

/-- Whether a command converts a selected property. -/
def Command.convertsProperty (s : Session) (command : Command) : Bool :=
  (s.edit? command).any Edit.isConversion && s.current.node?.any Node.isProperty

theorem Command.IsInteractive.isAdmissible {command : Command} (h : command.IsInteractive) :
    command.IsAdmissible s := by
  cases command with
  | edit edit =>
    cases edit with
    | replace | updateValue => exact h.elim
    | _ => trivial
  | _ => trivial

theorem Command.IsInteractive.conforms {command : Command} (h : command.IsInteractive)
    (hs : s.KeepsTo g) (hconverts : command.convertsProperty s = false) :
    command.Conforms g s := by
  -- what is converted is no property, so it may stand outside objects
  have hconversion : ∀ edit, s.edit? command = some edit → edit.isConversion = true →
      ∀ old, s.current.prepared.node? = some old → g.Seats false old := by
    intro edit hedit hconversion old hold _
    rw [Snapshot.node?_prepared hs.valid.current] at hold
    obtain ⟨n, hn, rfl⟩ := Option.map_eq_some_iff.1 hold
    rw [Node.isProperty_canonicalized]
    simpa [Command.convertsProperty, hedit, hconversion, hn] using hconverts
  refine conforms_of_edits hs.initial ?_ hconversion
  rintro asked rfl
  cases asked with
  | setText text => exact .inl ⟨text, rfl⟩
  | insert | replace | updateValue | reset => exact h.elim
  | navigate | select | delete | move | changeKeyword | addToNumber => exact .inr trivial
  | _ => exact .inr (hconversion _ rfl rfl)

/-! ### Converted properties -/

/-- A conversion of a selected property is recorded, and leaves a document that
is not well formed. -/
theorem not_isWellFormed_after {command : Command} (htree : s.current.tree.IsWellFormed)
    (hconverts : command.convertsProperty s = true) :
    ¬ (s.after command).current.tree.IsWellFormed := by
  simp only [Command.convertsProperty, Bool.and_eq_true, Option.any_eq_true] at hconverts
  obtain ⟨⟨edit, hedit, hconversion⟩, old, hold, hproperty⟩ := hconverts
  -- a property is no number, so the preparation does nothing
  have hprepared : s.current.prepared = s.current := by
    apply Snapshot.prepared_of_not_number hold
    rintro text rfl
    cases hproperty
  obtain ⟨new, below, hnew, -, hreplace⟩ := Edit.conversion_eq_replace hconversion hold
  obtain ⟨rebuilt, hput, hok⟩ := replace_eq_ok hold new below
  have hrun := hreplace.trans hok
  have hplace : rebuilt.nodeAt? s.current.selected = some new :=
    Node.nodeAt?_eq_some.2 (Node.get?_put? hput)
  have hchanged : s.current.apply ⟨some rebuilt, some (s.current.selected ++ below)⟩ ≠
      s.current := by
    intro heq
    have htree : rebuilt = s.current.tree := congrArg Snapshot.tree heq
    rw [htree, show s.current.tree.nodeAt? s.current.selected = some old from hold] at hplace
    obtain rfl := Option.some.inj hplace
    rw [hproperty] at hnew
    cases hnew
  have hhistory := history_after hedit (by rw [hprepared]; exact hrun) (by rwa [hprepared])
  rw [hprepared] at hhistory
  have hcurrent : (s.after command).current.tree = rebuilt := by
    rw [current, hhistory]
    rfl
  rw [hcurrent]
  intro hwellFormed
  -- the place is still that of a member
  have hmember := (htree _ _ hold).1 hproperty
  rw [(hwellFormed _ _ hplace).2 hmember] at hnew
  cases hnew

/-! ### Runs -/

/-- **Documents stay well formed unless a property is converted.**  After any run
of keys, actions, clipboard commands and edits that bring nothing along, from a
plain value and without a conversion of a selected property, every snapshot that
undo and redo can bring back is well formed; and a conversion of a property that
is then selected breaks the document. -/
theorem isWellFormed_of_run {settings : Settings.AllEntries} {reading : Reading} {source : Data}
    {capacity? : Option Data} {rules? : Option (List (Keymap.Rule Keymap.Guard))}
    {listener? : Option Listener}
    (hsource : source.IsPlain)
    (hstart : start settings reading source capacity? rules? listener? = .ok s)
    {commands : List Command}
    (hcommands : s.Along
      (fun t command => command.IsInteractive ∧ command.convertsProperty t = false) commands) :
    (∀ x ∈ (s.afterAll commands).history.timeline, x.tree.IsWellFormed) ∧
      ∀ command : Command, command.convertsProperty (s.afterAll commands) = true →
        ¬ ((s.afterAll commands).after command).current.tree.IsWellFormed := by
  have hkeeps : (s.afterAll commands).KeepsTo Grammar.wellFormed :=
    Along.afterAll (fun t command ht hcommand => ht.after hcommand.1.isAdmissible
      (hcommand.1.conforms ht hcommand.2)) (keepsTo_start hsource hstart) hcommands
  have hall : ∀ x ∈ (s.afterAll commands).history.timeline, x.tree.IsWellFormed := by
    intro x hx
    apply Grammar.isWellFormed_of_fits (g := Grammar.wellFormed) trivial
    exact Snapshot.fits_of_prepared (hkeeps.valid x hx) (fun _ => trivial) (hkeeps.timeline x hx)
  refine ⟨hall, fun command hconverts => not_isWellFormed_after (hall _ ?_) hconverts⟩
  simp [History.timeline, History.entries, current]

/-- A property is selected and its value converted: every snapshot is well
formed. -/
theorem isWellFormed_of_packaged_run :
    let source := Data.record [(.text "a", .null)]
    let commands : List Command :=
      [.press ⟨"ArrowDown", [], none, none⟩, .press ⟨"ArrowDown", [], none, none⟩,
        .press ⟨"t", [], none, none⟩]
    ∃ s, start Settings.packaged .document source none none none = .ok s ∧
      s.Along (fun t command => command.IsInteractive ∧ command.convertsProperty t = false)
        commands ∧
      (∀ x ∈ (s.afterAll commands).history.timeline, x.tree.IsWellFormed) ∧
        ∀ command : Command, command.convertsProperty (s.afterAll commands) = true →
          ¬ ((s.afterAll commands).after command).current.tree.IsWellFormed := by
  intro source commands
  have hrun : (start Settings.packaged .document source none none none).toOption.map
      (fun s => (commands.inits.zip commands).map fun (before, command) =>
        command.convertsProperty (s.afterAll before)) = some [false, false, false] := by
    decide +kernel
  obtain ⟨s, hstart, hconverts⟩ := eq_ok_of_toOption_map hrun
  obtain ⟨hfirst, hsecond, hthird⟩ : _ ∧ _ ∧ _ := by simpa [commands] using hconverts
  have hcommands : s.Along
      (fun t command => command.IsInteractive ∧ command.convertsProperty t = false) commands :=
    ⟨⟨trivial, hfirst⟩, ⟨trivial, hsecond⟩, ⟨trivial, hthird⟩, trivial⟩
  have hsource : source.IsPlain := .record (by simpa using .null)
  exact ⟨s, hstart, hcommands, isWellFormed_of_run hsource hstart hcommands⟩

/-- The property itself is converted by a key: its object holds a null. -/
theorem not_isWellFormed_of_packaged_run :
    let source := Data.record [(.text "a", .null)]
    let commands : List Command :=
      [.press ⟨"ArrowDown", [], none, none⟩, .press ⟨"n", [], none, none⟩]
    ∃ s, start Settings.packaged .document source none none none = .ok s ∧
      (s.afterAll commands).current.tree = .program [.object [.null]] ∧
      ¬ (s.afterAll commands).current.tree.IsWellFormed := by
  intro source commands
  have hrun : (start Settings.packaged .document source none none none).toOption.map
      (fun s => (s.afterAll commands).current.tree) = some (.program [.object [.null]]) := by
    decide +kernel
  obtain ⟨s, hstart, htree⟩ := eq_ok_of_toOption_map hrun
  refine ⟨s, hstart, htree, fun hwellFormed => ?_⟩
  rw [htree] at hwellFormed
  -- the place of the first member of the object
  let place : Path := [.field "body", .index 0] ++ [.field GroupKind.object.field] ++ [.index 0]
  have hmember := (hwellFormed place .null (by decide)).2 ((Path.isMember_item _ _ _).2 rfl)
  cases hmember

end Session

end StructuralEditor
