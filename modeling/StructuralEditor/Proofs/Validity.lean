/-
StructuralEditor/Proofs/Validity.lean

Every snapshot of a session has a valid selection, however long the session
runs and in whatever order its commands come.

That each edit keeps the selection valid is known (`Edit.keepsSelection_run`).
What is left is everything around the edits: the preparation of a snapshot,
which changes the document under the selection, the history, which only brings
back what it has once recorded, and the many ways in which keys, actions and the
clipboard end in one edit or in none.
-/
import StructuralEditor.Proofs.Editing
import StructuralEditor.Proofs.Results
import StructuralEditor.Proofs.Timeline
import StructuralEditor.Session.Command

namespace StructuralEditor

open Document Editing Number

/-! ### Preparation -/

namespace Document.Snapshot

variable {s : Snapshot}

theorem reselected_of_resolves (h : s.resolves = true) : s.reselected = s := by
  simp [reselected, h]

/-- What the canonical text of a selected number comes to: one write at the
selection. -/
theorem normalized_cases (s : Snapshot) :
    s.normalized = s ∨
    ∃ text tree, s.node? = some (.number text) ∧
      s.tree.put? s.selected (.node (.number (normalize text))) = some tree ∧
      s.normalized = ⟨tree, s.selected⟩ := by
  unfold normalized
  split
  · next text hnumber =>
    obtain ⟨tree, htree⟩ := Node.exists_put? (.node (.number (normalize text)))
      (Node.nodeAt?_eq_some.1 hnumber) rfl
    exact .inr ⟨text, tree, hnumber, htree, by rw [htree, Option.getD_some]⟩
  · exact .inl rfl

/-- The preparation of a snapshot keeps a valid selection, and keeps it
valid. -/
theorem resolves_prepared (h : s.resolves = true) :
    s.prepared.resolves = true ∧ s.prepared.selected = s.selected := by
  rw [prepared, reselected_of_resolves h]
  rcases normalized_cases s with heq | ⟨text, tree, -, htree, heq⟩
  · rw [heq]
    exact ⟨h, rfl⟩
  · rw [heq]
    exact ⟨Node.resolves_of_nodeAt? (Node.nodeAt?_eq_some.2 (Node.get?_put? htree)), rfl⟩

end Document.Snapshot

/-! ### The history -/

namespace History

variable {h g : History}

/-- Whether the selections of all snapshots are valid, those that are undone
included. -/
def IsValid (h : History) : Prop :=
  ∀ s ∈ h.timeline, s.resolves = true

theorem IsValid.current (hh : h.IsValid) : h.current.resolves = true :=
  hh _ (by simp [timeline, entries])

theorem isValid_ofSnapshot {s : Snapshot} (hs : s.resolves = true)
    (announcer? : Option Announcer) (capacity : Int) :
    (ofSnapshot s announcer? capacity).IsValid := by
  simpa [IsValid, timeline, entries, ofSnapshot] using hs

theorem IsValid.push {s : Snapshot} (hh : h.IsValid) (hs : s.resolves = true) :
    (h.push s).IsValid := by
  intro x hx
  rcases mem_timeline_push hx with rfl | hx
  · exact hs
  · exact hh x hx

theorem IsValid.undo? (hh : h.IsValid) (hu : h.undo? = some g) : g.IsValid := by
  rw [IsValid, timeline_undo? hu]
  exact hh

theorem IsValid.redo? (hh : h.IsValid) (hr : h.redo? = some g) : g.IsValid :=
  fun x hx => hh x (mem_timeline_redo? hr hx)

/-- A commit keeps the history valid, if its update is given a valid selection
and asks for one. -/
theorem IsValid.commit {ε : Type} {update : Snapshot → Except ε (Option Change)} {done : Commit}
    (hh : h.IsValid)
    (hupdate : ∀ change, update h.current.prepared = .ok (some change) →
      (h.current.prepared.apply change).resolves = true)
    (hdone : h.commit update = .ok done) : done.history.IsValid := by
  rcases commit_eq_ok hdone with rfl | ⟨change, hchange, -, -, hpush⟩
  · exact hh
  · rw [hpush]
    exact hh.push (hupdate change hchange)

end History

/-! ### Commands -/

namespace Session

variable {s : Session}

/-- Whether the selections of all snapshots are valid. -/
def IsValid (s : Session) : Prop :=
  s.history.IsValid

theorem IsValid.current (hs : s.IsValid) : s.current.resolves = true :=
  History.IsValid.current hs

/-- Failures over a path. -/
def CommandError.isPathFailure : CommandError → Bool
  | .edit cause => Editing.isPathFailure cause
  | .uncopied _ | .notAName _ | .unwritable => false

/-- Whether a reply leaves a valid session behind, and is no failure over a
path. -/
def KeepsValid : Except CommandError Reply → Prop
  | .ok reply => reply.session.IsValid
  | .error cause => cause.isPathFailure = false

/-- Whether a command is within its contract: its edit is, if it is one. -/
def Command.IsAdmissible (s : Session) : Command → Prop
  | .edit asked => asked.IsAdmissible s.current.prepared
  | _ => True

theorem keepsValid_map {reply : Except CommandError Reply} (h : KeepsValid reply)
    {f : Reply → Reply} (hf : ∀ r, (f r).session = r.session) : KeepsValid (reply.map f) := by
  cases reply with
  | error cause => exact h
  | ok r =>
    show (f r).session.IsValid
    rw [hf r]
    exact h

theorem keepsValid_commit (edit : Edit) (hs : s.IsValid)
    (hedit : edit.IsAdmissible s.current.prepared) : KeepsValid (s.commit edit) := by
  have hprepared := (Snapshot.resolves_prepared (History.IsValid.current hs)).1
  have hrun : KeepsSelection s.history.current.prepared (edit.run s.history.current.prepared) :=
    Edit.keepsSelection_run hprepared hedit
  unfold Session.commit
  split
  · next done hdone =>
    refine History.IsValid.commit hs (fun change hchange => ?_) hdone
    -- an edit that asks for a change has been applied
    rcases houtcome : edit.run s.history.current.prepared with cause | outcome
    · rw [houtcome] at hchange
      cases hchange
    · rw [houtcome] at hchange hrun
      cases outcome with
      | declined reason => cases hchange
      | misplaced effect node place target => exact hrun.elim
      | applied effect change' =>
        obtain rfl : change' = change := Option.some.inj (Except.ok.inj hchange)
        exact hrun
  · next cause hcause =>
    -- a commit fails only where its edit does
    rcases houtcome : edit.run s.history.current.prepared with failure | outcome
    · rw [houtcome] at hrun
      obtain rfl : failure = cause := by simpa [History.commit, houtcome, Except.map] using hcause
      exact hrun
    · simp [History.commit, houtcome, Except.map] at hcause

theorem keepsValid_undo (hs : s.IsValid) : KeepsValid (.ok (s.travel s.history.undo?)) := by
  rcases hu : s.history.undo? with - | g
  · exact hs
  · exact History.IsValid.undo? hs hu

theorem keepsValid_redo (hs : s.IsValid) : KeepsValid (.ok (s.travel s.history.redo?)) := by
  rcases hr : s.history.redo? with - | g
  · exact hs
  · exact History.IsValid.redo? hs hr

/-- The edits that actions come down to are within their contract
everywhere. -/
theorem isAdmissible_edit? {action : Action} {param : Data} {edit : Edit}
    (h : action.edit? param = some edit) (snapshot : Snapshot) : edit.IsAdmissible snapshot := by
  -- none is a replacement or a revision; undo and redo are no edits
  cases action with
  | undo => cases h
  | redo => cases h
  | move =>
    obtain ⟨direction, -, rfl⟩ := Option.map_eq_some_iff.1 h
    trivial
  | changeKeyword =>
    obtain ⟨keyword, -, rfl⟩ := Option.map_eq_some_iff.1 h
    trivial
  | _ =>
    obtain rfl := Option.some.inj h
    trivial

/-- An action is committed as the edit that it comes down to; if it is none, it moves
through the history, or its parameter is refused. -/
theorem perform_cases (s : Session) (action : Action) (param : Data) :
    (∃ edit, action.edit? param = some edit ∧ s.perform action param = s.commit edit) ∨
      action.edit? param = none ∧
        (s.perform action param = .ok (s.travel s.history.undo?) ∨
          s.perform action param = .ok (s.travel s.history.redo?) ∨
          s.perform action param = .ok (s.unmoved (.flag false) none) ∨
          s.perform action param = .error .unwritable) := by
  unfold perform
  split
  · exact .inr ⟨rfl, .inl rfl⟩
  · exact .inr ⟨rfl, .inr (.inl rfl)⟩
  · split
    · next edit hedit => exact .inl ⟨edit, hedit, rfl⟩
    · next hnone =>
      refine .inr ⟨hnone, .inr (.inr ?_)⟩
      unfold refuseParameter
      simp only
      split
      · exact .inl rfl
      · exact .inr rfl

theorem keepsValid_perform (hs : s.IsValid) (action : Action) (param : Data) :
    KeepsValid (s.perform action param) := by
  rcases s.perform_cases action param with ⟨edit, hedit, heq⟩ | ⟨-, heq | heq | heq | heq⟩ <;>
    rw [heq]
  · exact keepsValid_commit edit hs (isAdmissible_edit? hedit _)
  · exact keepsValid_undo hs
  · exact keepsValid_redo hs
  · exact hs
  · rfl

theorem keepsValid_dispatch (hs : s.IsValid) (name param : Data) :
    KeepsValid (s.dispatch name param) := by
  unfold dispatch
  split
  · simp only
    split
    · exact keepsValid_perform hs _ param
    · exact hs
  · rfl

theorem keepsValid_handle (hs : s.IsValid) (press : Keymap.KeyPress) :
    KeepsValid (s.handle press) := by
  unfold handle
  simp only
  split
  · exact keepsValid_map (keepsValid_commit (.navigate _) hs trivial) fun _ => rfl
  · exact keepsValid_map (keepsValid_commit (.replace _ []) hs Node.resolves_nil) fun _ => rfl
  · exact keepsValid_map (keepsValid_dispatch hs _ _) fun _ => rfl
  · exact hs

theorem keepsValid_copy (hs : s.IsValid) : KeepsValid s.copy := by
  unfold copy
  split
  · exact hs
  · rfl

theorem keepsValid_cut (hs : s.IsValid) : KeepsValid s.cut := by
  unfold cut
  split
  · exact keepsValid_map (keepsValid_commit .delete hs trivial) fun _ => rfl
  · exact hs
  · rfl

theorem keepsValid_paste (hs : s.IsValid) (content : Data) : KeepsValid (s.paste content) := by
  unfold paste
  split
  · exact hs
  · split
    · exact keepsValid_commit (.insert _) hs trivial
    · exact hs

/-- Every command keeps a session valid. -/
theorem keepsValid_run {command : Command} (hs : s.IsValid) (hcommand : command.IsAdmissible s) :
    KeepsValid (s.run command) := by
  cases command with
  | press press => exact keepsValid_handle hs press
  | dispatch name param => exact keepsValid_dispatch hs name param
  | edit edit => exact keepsValid_commit edit hs hcommand
  | undo => exact keepsValid_undo hs
  | redo => exact keepsValid_redo hs
  | reset => exact keepsValid_commit (.reset _) hs trivial
  | copy => exact keepsValid_copy hs
  | cut => exact keepsValid_cut hs
  | paste content => exact keepsValid_paste hs content
  | toggleKeymap => exact hs

/-! ### Runs -/

/-- The session after a command.  A command that fails leaves it as it is. -/
def after (s : Session) (command : Command) : Session :=
  match s.run command with
  | .ok reply => reply.session
  | .error _ => s

/-- The session after commands, one by one. -/
def afterAll (s : Session) (commands : List Command) : Session :=
  commands.foldl after s

/-- The replies to commands, one by one. -/
def replies (s : Session) : List Command → List (Except CommandError Reply)
  | [] => []
  | command :: commands => s.run command :: (s.after command).replies commands

/-- Whether all commands of a run are within their contract, each where it
stands. -/
def AllAdmissible (s : Session) : List Command → Prop
  | [] => True
  | command :: commands => command.IsAdmissible s ∧ (s.after command).AllAdmissible commands

theorem isValid_after {command : Command} (hs : s.IsValid) (hcommand : command.IsAdmissible s) :
    (s.after command).IsValid := by
  have hrun := keepsValid_run hs hcommand
  unfold after
  rcases hreply : s.run command with cause | reply
  · exact hs
  · rw [hreply] at hrun
    exact hrun

/-- Every run keeps a session valid, and none of its commands fails over a
path. -/
theorem isValid_afterAll {commands : List Command} (hs : s.IsValid)
    (hcommands : s.AllAdmissible commands) :
    (s.afterAll commands).IsValid ∧ ∀ reply ∈ s.replies commands, KeepsValid reply := by
  induction commands generalizing s with
  | nil => exact ⟨hs, by simp [replies]⟩
  | cons command commands ih =>
    -- the rest of the run starts from a valid session again
    obtain ⟨hcommand, hrest⟩ := hcommands
    obtain ⟨hall, hreplies⟩ := ih (isValid_after hs hcommand) hrest
    refine ⟨hall, fun reply hreply => ?_⟩
    rcases List.mem_cons.1 hreply with rfl | hreply
    · exact keepsValid_run hs hcommand
    · exact hreplies reply hreply

/-! ### Sessions from their start -/

theorem resolves_initialSelection (tree : Node) : tree.resolves (initialSelection tree) = true := by
  unfold initialSelection
  split
  · rfl
  · next n ns =>
    have hn : (Node.program (n :: ns)).nodeAt? [.field GroupKind.program.field, .index 0] =
        some n := rfl
    exact Node.resolves_of_nodeAt? hn
  · exact Node.resolves_nil

theorem start_history_eq_ok {snapshot : Snapshot} {listener? : Option Listener}
    {render? : Option Renderer} {capacity : Data} {h : History}
    (hstart : History.start snapshot listener? render? capacity = .ok h) :
    ∃ size announcer?, h = .ofSnapshot snapshot announcer? size := by
  simp only [History.start, bind_eq_ok] at hstart
  obtain ⟨announcer?, -, size, -, hstart⟩ := hstart
  exact ⟨size, announcer?, (Except.ok.inj hstart).symm⟩

/-- A session starts from a document with its first statement or its root
selected. -/
theorem start_eq_ok {settings : Settings.AllEntries} {reading : Reading} {source : Data}
    {capacity? : Option Data} {rules? : Option (List (Keymap.Rule Keymap.Guard))}
    {listener? : Option Listener}
    (hstart : start settings reading source capacity? rules? listener? = .ok s) :
    ∃ tree announcer? capacity, reading.tree source = .ok tree ∧ s.initial = tree ∧
      s.history = .ofSnapshot ⟨tree, initialSelection tree⟩ announcer? capacity := by
  -- wherever capacity and rules come from, what follows them is the same
  obtain ⟨tree, htree, history, hhistory, panel, rules, heq⟩ :
      ∃ tree, reading.tree source = .ok tree ∧
        ∃ history, (∃ capacity, History.start ⟨tree, initialSelection tree⟩ listener?
          (some render) capacity = .ok history) ∧
          ∃ panel rules, s = ⟨tree, history, rules, panel⟩ := by
    cases capacity? <;> cases rules? <;> simp only [start, bind_eq_ok, mapError_eq_ok] at hstart <;>
      obtain ⟨capacity, -, rules, -, tree, htree, history, hhistory, heq⟩ := hstart <;>
      exact ⟨tree, htree, history, ⟨capacity, hhistory⟩, _, rules, (Except.ok.inj heq).symm⟩
  obtain ⟨capacity, hhistory⟩ := hhistory
  obtain ⟨size, announcer?, rfl⟩ := start_history_eq_ok hhistory
  subst heq
  exact ⟨tree, announcer?, size, htree, rfl, rfl⟩

theorem isValid_of_start {settings : Settings.AllEntries} {reading : Reading} {source : Data}
    {capacity? : Option Data} {rules? : Option (List (Keymap.Rule Keymap.Guard))}
    {listener? : Option Listener}
    (hstart : start settings reading source capacity? rules? listener? = .ok s) : s.IsValid := by
  obtain ⟨tree, announcer?, capacity, -, -, hhistory⟩ := start_eq_ok hstart
  rw [IsValid, hhistory]
  apply History.isValid_ofSnapshot
  exact resolves_initialSelection tree

/-- **Selections stay valid over whole sessions.**  Whatever value a session
starts from and however that is read, with any settings, capacity, keymap and
listener, after every run of commands within their contracts all snapshots that undo and
redo can bring back have valid selections, and no command of the run has failed
over a path. -/
theorem resolves_of_run {settings : Settings.AllEntries} {reading : Reading} {source : Data}
    {capacity? : Option Data} {rules? : Option (List (Keymap.Rule Keymap.Guard))}
    {listener? : Option Listener}
    (hstart : start settings reading source capacity? rules? listener? = .ok s)
    {commands : List Command} (hcommands : s.AllAdmissible commands) :
    (∀ snapshot ∈ (s.afterAll commands).history.timeline, snapshot.resolves = true) ∧
      ∀ cause, .error cause ∈ s.replies commands → cause.isPathFailure = false := by
  obtain ⟨tree, announcer?, capacity, -, -, hhistory⟩ := start_eq_ok hstart
  have hs : s.IsValid := by
    rw [IsValid, hhistory]
    apply History.isValid_ofSnapshot
    exact resolves_initialSelection tree
  obtain ⟨hall, hreplies⟩ := isValid_afterAll hs hcommands
  exact ⟨hall, fun cause hcause => hreplies _ hcause⟩

/-- A run from a record, with the packaged keymap: keys, a deletion, an undo, a
replacement with a selection inside the new node, a deletion and a paste. -/
theorem resolves_of_packaged_run :
    let source := Data.record [(.text "a", .integer 1)]
    let commands : List Command :=
      [.press ⟨"ArrowRight", [], none, none⟩, .press ⟨"Delete", [], none, none⟩, .undo,
        .edit (.replace (.array [.null]) [.field GroupKind.array.field, .index 0]), .edit .delete,
        .paste (.text "[1]")]
    ∃ s, start Settings.packaged .document source none none none = .ok s ∧ s.AllAdmissible commands ∧
      (∀ snapshot ∈ (s.afterAll commands).history.timeline, snapshot.resolves = true) ∧
      ∀ cause, .error cause ∈ s.replies commands → cause.isPathFailure = false := by
  intro source commands
  have hstarts : (start Settings.packaged .document source none none none).isOk = true := by
    decide +kernel
  rcases hstart : start Settings.packaged .document source none none none with cause | s
  · rw [hstart] at hstarts
    cases hstarts
  · have hinner :
        (Node.array [.null]).resolves [.field GroupKind.array.field, .index 0] = true := by
      decide
    have hcommands : s.AllAdmissible commands :=
      ⟨trivial, trivial, trivial, hinner, trivial, trivial, trivial⟩
    exact ⟨s, rfl, hcommands, resolves_of_run hstart hcommands⟩

end Session

end StructuralEditor
