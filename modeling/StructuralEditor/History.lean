/-
StructuralEditor/History.lean

The history of an edited document: the current snapshot, the ones before it
and the ones undone, with a bound on how many are kept.

Every edit goes through `History.commit`.  It first prepares the current
snapshot: a selection that no longer resolves falls back to the root, and a
selected number gets its canonical text.  The edit is applied to what has been
prepared, and its result is recorded only if it differs from that.  So the
text of a number stays as typed while it is selected, and is brought to
canonical form by the next edit that is recorded.

A new document is announced once it has been recorded: it is rendered, and the
listener is told the text.  Both may fail, and then the document stays
recorded.

Undo and redo move one snapshot between past and future.  Read from the last
redo to the first entry, the snapshots form the `timeline`, on which undo and
redo only move the present.
-/
import StructuralEditor.Data.Number
import StructuralEditor.Document.Snapshot
import StructuralEditor.Document.Source
import StructuralEditor.Number.Canonical

namespace StructuralEditor

open Document Number

/-! ### Preparation -/

/-- A snapshot whose selection falls back to the root if it does not resolve.
A place after a last item is left as it is. -/
def Document.Snapshot.reselected (s : Snapshot) : Snapshot :=
  if s.selected.isAfterLast || s.resolves then s else { s with selected := [] }

/-- A snapshot with canonical text in the selected number, if a number is
selected. -/
def Document.Snapshot.normalized (s : Snapshot) : Snapshot :=
  match s.node? with
  | some (.number text) =>
    { s with tree := (s.tree.put? s.selected (.node (.number (normalize text)))).getD s.tree }
  | _ => s

/-- What an edit is applied to. -/
def Document.Snapshot.prepared (s : Snapshot) : Snapshot :=
  s.reselected.normalized

/-! ### Announcements -/

/-- What renders documents. -/
abbrev Renderer := Node → Except RenderError String

/-- What is told the texts of changed documents.  It may fail over one. -/
abbrev Listener := String → Except String Unit

/-- A listener, with what renders documents for it. -/
structure Announcer where
  render : Renderer
  listener : Listener

/-- Why the announcement of a document fails. -/
inductive AnnounceError where
  | unrendered (cause : RenderError)
  /-- The listener has been told the text and has failed over it. -/
  | refused (reason : String)
  deriving DecidableEq

/-- What comes of announcing a document. -/
structure Announcement where
  /-- The text that the listener has been told. -/
  text? : Option String
  failure? : Option AnnounceError
  deriving DecidableEq

/-- Nothing is announced. -/
def Announcement.silent : Announcement :=
  ⟨none, none⟩

/-- Renders a document and tells the listener its text. -/
def Announcer.announce (announcer : Announcer) (tree : Node) : Announcement :=
  match announcer.render tree with
  | .error cause => ⟨none, some (.unrendered cause)⟩
  | .ok text =>
    match announcer.listener text with
    | .error reason => ⟨some text, some (.refused reason)⟩
    | .ok () => ⟨some text, none⟩

/-! ### Histories -/

/-- The history of a document.  The past is kept newest first, the future
with the next redo first. -/
structure History where
  current : Snapshot
  past : List Snapshot
  future : List Snapshot
  /-- Most snapshots kept, the current one included. -/
  capacity : Nat
  /-- Who announces a changed document, if anyone listens. -/
  announcer? : Option Announcer
  capacity_pos : 0 < capacity := by omega

/-- Why a history cannot be started. -/
inductive History.StartError where
  /-- There is a listener and no way to render a document for it. -/
  | noRenderer
  /-- The capacity is no integer. -/
  | badCapacity (cause : NumberError)
  deriving DecidableEq

/-- The wording of a start error. -/
def History.StartError.message : History.StartError → String
  | .noRenderer => "A generator is required to notify document changes"
  | .badCapacity cause => cause.message

namespace History

/-- The capacity of a history that is given none. -/
def defaultCapacity : Nat := 100

/-- The history of a document before any edit.  A capacity below one counts
as one. -/
def ofSnapshot (s : Snapshot) (announcer? : Option Announcer) (capacity : Int) : History where
  current := s
  past := []
  future := []
  capacity := max 1 capacity.toNat
  announcer? := announcer?

/-- The announcer for a listener.  Without one nothing has to be rendered. -/
def announcerFor (render? : Option Renderer) : Option Listener →
    Except StartError (Option Announcer)
  | none => .ok none
  | some listener =>
    match render? with
    | some render => .ok (some ⟨render, listener⟩)
    | none => .error .noRenderer

/-- The history of a document, with its capacity given as a value. -/
def start (s : Snapshot) (listener? : Option Listener) (render? : Option Renderer)
    (capacity : Data) : Except StartError History := do
  let announcer? ← announcerFor render? listener?
  let size ← capacity.toInteger.mapError .badCapacity
  .ok (ofSnapshot s announcer? size)

/-- The current snapshot and the ones before it, newest first. -/
def entries (h : History) : List Snapshot :=
  h.current :: h.past

/-- All snapshots, from the last redo to the oldest entry. -/
def timeline (h : History) : List Snapshot :=
  h.future.reverse ++ h.entries

/-- Whether there is something to undo. -/
def canUndo (h : History) : Bool :=
  !h.past.isEmpty

/-- Whether there is something to redo. -/
def canRedo (h : History) : Bool :=
  !h.future.isEmpty

/-- The history with a new current snapshot.  The future is gone, and so are
the oldest entries beyond the capacity. -/
def push (h : History) (s : Snapshot) : History :=
  { h with current := s, past := h.entries.take (h.capacity - 1), future := [] }

/-- The history one step back; `none` if nothing lies before the present. -/
def undo? (h : History) : Option History :=
  match h.past with
  | [] => none
  | previous :: older =>
    some { h with current := previous, past := older, future := h.current :: h.future }

/-- The history one step forward; `none` if nothing has been undone. -/
def redo? (h : History) : Option History :=
  match h.future with
  | [] => none
  | next :: later =>
    some { h with current := next, past := h.entries.take (h.capacity - 1), future := later }

/-! ### Commits -/

/-- What a commit comes to. -/
structure Commit where
  history : History
  /-- Whether a snapshot has been recorded. -/
  recorded : Bool
  announcement : Announcement

/-- What the caller of a commit is given: whether a snapshot has been recorded,
or what the announcement has failed with. -/
def Commit.answer (c : Commit) : Except AnnounceError Bool :=
  match c.announcement.failure? with
  | some cause => .error cause
  | none => .ok c.recorded

/-- A commit that leaves the history as it is. -/
def unchanged (h : History) : Commit :=
  ⟨h, false, .silent⟩

/-- Announces a document, if anyone listens. -/
def announce (h : History) (tree : Node) : Announcement :=
  match h.announcer? with
  | some announcer => announcer.announce tree
  | none => .silent

/-- Records a change of the prepared snapshot, if it is one, and then announces
a new document. -/
def record (h : History) (change : Change) : Commit :=
  let before := h.current.prepared
  let after := before.apply change
  if after = before then h.unchanged
  else ⟨h.push after, true, if after.tree = before.tree then .silent else h.announce after.tree⟩

/-- Runs an update on the prepared snapshot and records the change it asks
for.  An update that fails leaves the history to the caller, as it was. -/
def commit {ε : Type} (h : History) (update : Snapshot → Except ε (Option Change)) :
    Except ε Commit :=
  (update h.current.prepared).map fun
    | some change => h.record change
    | none => h.unchanged

end History

end StructuralEditor
