/-
StructuralEditor/Proofs/Rules.lean

Sessions that keep the rules of a grammar.

Every document of a session keeps the rules, once it is prepared: undone ones,
redone ones and the one it has started from.  The preparation matters for the
text of a number, which may be anything while it is typed; it matters for
nothing else.  A command is one edit at most (`Session.edit?`), so a run keeps
the rules if its edits do (`Session.KeepsTo.after`), and of all edits only
those that bring a node along, and the conversions, have anything to prove
(`conforms_of_edits`).
-/
import StructuralEditor.Proofs.Preparation
import StructuralEditor.Proofs.Sources
import StructuralEditor.Proofs.Steps

namespace StructuralEditor

open Document Editing Number

variable {g : Grammar}

/-! ### Keys and actions -/

theorem Number.isCanonical_of_isDigitKey {key : String} (h : Session.isDigitKey key = true) :
    IsCanonical key := by
  unfold Session.isDigitKey at h
  split at h
  · next c hkey =>
    rw [← String.ofList_toList (s := key), hkey]
    exact of_isDigit (fun c => IsCanonical (String.ofList [c])) (by decide +kernel) h
  · cases h

/-- Of the edits that actions come down to, only conversions have a condition. -/
theorem Action.conforms_edit? {action : Action} {param : Data} {edit : Edit} {x : Snapshot}
    (hedit : action.edit? param = some edit)
    (hconversion : edit.isConversion = true → ∀ old, x.node? = some old → g.Seats false old) :
    edit.Conforms g x := by
  cases action with
  | undo => cases hedit
  | redo => cases hedit
  | insert =>
    obtain rfl := Option.some.inj hedit
    exact fits_null
  | move =>
    obtain ⟨direction, -, rfl⟩ := Option.map_eq_some_iff.1 hedit
    trivial
  | delete =>
    obtain rfl := Option.some.inj hedit
    trivial
  | addToNumber =>
    obtain rfl := Option.some.inj hedit
    trivial
  | changeKeyword =>
    obtain ⟨keyword, -, rfl⟩ := Option.map_eq_some_iff.1 hedit
    trivial
  | _ =>
    obtain rfl := Option.some.inj hedit
    exact hconversion rfl

namespace Session

variable {s : Session}

theorem conforms_actionEdit? {name param : Data} {edit : Edit} {x : Snapshot}
    (hedit : actionEdit? name param = some edit)
    (hconversion : edit.isConversion = true → ∀ old, x.node? = some old → g.Seats false old) :
    edit.Conforms g x := by
  cases name with
  | text text =>
    obtain ⟨action, -, hedit⟩ := Option.bind_eq_some_iff.1 hedit
    exact Action.conforms_edit? hedit hconversion
  | _ => cases hedit

/-- A digit is only typed over a null. -/
theorem reaction_startNumber {press : Keymap.KeyPress} {digit : String}
    (h : s.reaction press = .startNumber digit) :
    s.current.node? = some .null ∧ isDigitKey digit = true := by
  unfold reaction at h
  split at h
  · cases h
  · split at h
    · next hnull =>
      obtain rfl := Reaction.startNumber.inj h
      exact hnull
    · split at h
      · split at h <;> cases h
      · cases h

/-- The edit of a command keeps the rules wherever conversions do, unless the
command is an edit itself. -/
theorem conforms_edit? {command : Command} {edit : Edit} (hinitial : g.Fits false s.initial)
    (hcommand : ∀ asked, command ≠ .edit asked) (hedit : s.edit? command = some edit)
    (hconversion : edit.isConversion = true →
      ∀ old, s.current.prepared.node? = some old → g.Seats false old) :
    edit.Conforms g s.current.prepared := by
  cases command with
  | press press =>
    simp only [edit?] at hedit
    rcases hreaction : s.reaction press with direction | digit | ⟨name, param⟩ | -
    · rw [hreaction] at hedit
      obtain rfl := Option.some.inj hedit
      trivial
    · rw [hreaction] at hedit
      obtain rfl := Option.some.inj hedit
      obtain ⟨hnull, hdigit⟩ := reaction_startNumber hreaction
      intro old hold
      -- the selected node is the null, before and after the preparation
      rw [Snapshot.prepared_of_not_number hnull (by simp)] at hold
      obtain rfl := Option.some.inj (hnull.symm.trans hold)
      have htext : g.number digit := by
        rw [← isCanonical_of_isDigitKey hdigit]
        exact g.number_canonicalText _
      exact replaces_of_seats (fun _ => rfl) (Grammar.fits_leaf fun _ => htext)
    · rw [hreaction] at hedit
      exact conforms_actionEdit? hedit hconversion
    · rw [hreaction] at hedit
      cases hedit
  | dispatch name param => exact conforms_actionEdit? hedit hconversion
  | edit asked => exact absurd rfl (hcommand asked)
  | reset =>
    obtain rfl := Option.some.inj hedit
    exact hinitial
  | cut =>
    simp only [edit?] at hedit
    split at hedit
    · obtain rfl := Option.some.inj hedit
      trivial
    · cases hedit
  | paste content =>
    simp only [edit?] at hedit
    split at hedit
    · cases hedit
    · split at hedit
      · next node hnode =>
        obtain rfl := Option.some.inj hedit
        exact Clipboard.fits_nodeOf hnode
      · cases hedit
  | _ => cases hedit

/-! ### Typed text -/

/-- A typed text keeps the rules once it is prepared, whatever it is. -/
theorem fits_prepared_setText {x : Snapshot} {text : String} {effect : Effect} {change : Change}
    (hrun : (Edit.setText text).run x = .ok (.applied effect change))
    (htree : g.Fits false x.tree) : g.Fits false (x.apply change).prepared.tree := by
  rcases setText_cases text x.tree x.selected with
    ⟨reason, heq⟩ | ⟨kind, old, rebuilt, hleaf, hput, heq⟩
  · rw [Edit.run, heq] at hrun
    cases hrun
  · rw [Edit.run, heq] at hrun
    obtain ⟨-, rfl⟩ := Outcome.applied.inj (Except.ok.inj hrun)
    have hnode : (Snapshot.mk rebuilt x.selected).node? = some (.leaf kind text) :=
      Node.nodeAt?_eq_some.2 (Node.get?_put? hput)
    obtain ⟨tree, htext, hprepared⟩ := Snapshot.prepared_eq hnode
    -- of the two writes at the selection the second counts
    rw [Node.put?_put? hput] at htext
    have hreplaces : g.Replaces (.leaf kind old) (Node.leaf kind text).canonicalized := by
      cases kind with
      | number => exact replaces_leaf fun _ => g.number_canonicalText _
      | _ => exact replaces_leaf (by simp)
    show g.Fits false (Snapshot.mk rebuilt x.selected).prepared.tree
    rw [hprepared]
    exact Grammar.fits_put? hleaf htext hreplaces htree

/-! ### Sessions -/

/-- Whether a session keeps rules: its selections are valid, and the document of
its start and all its prepared documents keep the rules. -/
structure KeepsTo (g : Grammar) (s : Session) : Prop where
  valid : s.IsValid
  initial : g.Fits false s.initial
  timeline : ∀ x ∈ s.history.timeline, g.Fits false x.prepared.tree

theorem KeepsTo.current (hs : s.KeepsTo g) : g.Fits false s.current.prepared.tree :=
  hs.timeline _ (by simp [History.timeline, History.entries, Session.current])

/-- Whether the edit of a command keeps the rules, or only types a text. -/
def Command.Conforms (g : Grammar) (s : Session) (command : Command) : Prop :=
  ∀ edit, s.edit? command = some edit →
    (∃ text, edit = .setText text) ∨ edit.Conforms g s.current.prepared

/-- Of all commands, only those that are edits themselves and those that convert
have anything to prove. -/
theorem conforms_of_edits {command : Command} (hinitial : g.Fits false s.initial)
    (hasked : ∀ asked, command = .edit asked →
      (∃ text, asked = .setText text) ∨ asked.Conforms g s.current.prepared)
    (hconversion : ∀ edit, s.edit? command = some edit → edit.isConversion = true →
      ∀ old, s.current.prepared.node? = some old → g.Seats false old) :
    command.Conforms g s := by
  intro edit hedit
  by_cases hcommand : ∃ asked, command = .edit asked
  · obtain ⟨asked, rfl⟩ := hcommand
    obtain rfl := Option.some.inj hedit
    exact hasked asked rfl
  · exact .inr (conforms_edit? hinitial (fun asked heq => hcommand ⟨asked, heq⟩) hedit
      (hconversion edit hedit))

/-- A command whose edit conforms keeps the rules of a session. -/
theorem KeepsTo.after {command : Command} (hs : s.KeepsTo g) (hcommand : command.IsAdmissible s)
    (hconforms : command.Conforms g s) : (s.after command).KeepsTo g where
  valid := isValid_after hs.valid hcommand
  initial := s.moves_after command |>.2 ▸ hs.initial
  timeline x hx := by
    rcases mem_timeline_after hx with hx | ⟨edit, effect, change, hedit, hrun, rfl⟩
    · exact hs.timeline x hx
    · rcases hconforms edit hedit with ⟨text, rfl⟩ | hconforms
      · exact fits_prepared_setText hrun hs.current
      · have hresolves := (Snapshot.resolves_prepared (History.IsValid.current hs.valid)).1
        have hkeeps := Edit.keepsRules_run hresolves hconforms hs.current
        rw [show s.history.current = s.current from rfl, hrun] at hkeeps
        exact Snapshot.fits_prepared hkeeps

/-- A session that starts from a plain value keeps the rules of every grammar. -/
theorem keepsTo_start {settings : Settings.AllEntries} {reading : Reading} {source : Data}
    {capacity? : Option Data} {rules? : Option (List (Keymap.Rule Keymap.Guard))}
    {listener? : Option Listener}
    (hsource : source.IsPlain)
    (hstart : start settings reading source capacity? rules? listener? = .ok s) : s.KeepsTo g := by
  obtain ⟨tree, announcer?, capacity, htree, hinitial, hhistory⟩ := start_eq_ok hstart
  have hfits : g.Fits false tree := fits_readingTree hsource htree
  refine ⟨isValid_of_start hstart, hinitial ▸ hfits, fun x hx => ?_⟩
  obtain rfl : x = ⟨tree, initialSelection tree⟩ := by
    simpa [hhistory, History.timeline, History.entries, History.ofSnapshot] using hx
  exact Snapshot.fits_prepared hfits

end Session

end StructuralEditor
