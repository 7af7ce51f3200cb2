/-
StructuralEditor/Proofs/Timeline.lean

The history as a timeline with a moving present.

Three operations work on two bounded lists, and only one of them makes
anything new.  What ties them together is one bound on both lists at once
(`IsBounded`): a commit empties the future, and undo and redo only move a
snapshot across the present, so the two lists together never outgrow the
capacity.  This is why the cut in `redo?` never drops anything
(`redo?_eq_some`), and with the cut gone undo and redo are inverse to each
other on the nose.

The second half compares the histories of two capacities step by step.  The
smaller one sees a prefix of what the larger one sees (`Agrees`), and the only
operation that can tell them apart is an undo beyond its end
(`Agrees.undo`).
-/
import StructuralEditor.History

namespace StructuralEditor.History

open Document

variable {ε : Type} {h g : History}

/-! ### Runs -/

/-- One operation on a history. -/
inductive Operation (ε : Type) where
  | commit (update : Snapshot → Except ε (Option Change))
  | undo
  | redo

/-- The history after an operation.  A commit that fails and a move that is
refused leave it as it is. -/
def after (h : History) : Operation ε → History
  | .commit update =>
    match h.commit update with
    | .ok done => done.history
    | .error _ => h
  | .undo => h.undo?.getD h
  | .redo => h.redo?.getD h

/-- The history after operations, one by one. -/
def afterAll (h : History) (operations : List (Operation ε)) : History :=
  operations.foldl after h

@[simp] theorem afterAll_nil : h.afterAll ([] : List (Operation ε)) = h := rfl

@[simp] theorem afterAll_cons (operation : Operation ε) (operations : List (Operation ε)) :
    h.afterAll (operation :: operations) = (h.after operation).afterAll operations := rfl

/-! ### Single operations -/

/-- What a commit comes to: nothing, or the change of the prepared snapshot is
recorded. -/
theorem commit_eq_ok {update : Snapshot → Except ε (Option Change)} {done : Commit}
    (hdone : h.commit update = .ok done) :
    done = h.unchanged ∨
    ∃ change, update h.current.prepared = .ok (some change) ∧
      h.current.prepared.apply change ≠ h.current.prepared ∧ done.recorded = true ∧
      done.history = h.push (h.current.prepared.apply change) := by
  unfold commit at hdone
  rcases hupdate : update h.current.prepared with cause | change?
  · rw [hupdate] at hdone
    cases hdone
  · rw [hupdate] at hdone
    obtain rfl := Except.ok.inj hdone
    cases change? with
    | none => exact .inl rfl
    | some change =>
      simp only [record]
      split
      · exact .inl rfl
      · next hchanged => exact .inr ⟨change, rfl, hchanged, rfl, rfl⟩

/-- A commit leaves the history as it is or pushes a snapshot. -/
theorem after_commit (update : Snapshot → Except ε (Option Change)) :
    h.after (.commit update) = h ∨ ∃ s, h.after (.commit update) = h.push s := by
  rcases hdone : h.commit update with cause | done
  · exact .inl (by simp [after, hdone])
  · rcases commit_eq_ok hdone with rfl | ⟨change, -, -, -, hpush⟩
    · exact .inl (by simp [after, hdone, unchanged])
    · exact .inr ⟨h.current.prepared.apply change, by simp only [after, hdone, hpush]⟩

theorem entries_push (h : History) (s : Snapshot) :
    (h.push s).entries = (s :: h.entries).take h.capacity := by
  obtain ⟨n, hn⟩ := Nat.exists_eq_succ_of_ne_zero (Nat.ne_of_gt h.capacity_pos)
  simp [push, entries, hn]

/-- An undo moves the current snapshot into the future, and does nothing
else. -/
theorem undo?_eq_some (hu : h.undo? = some g) :
    h.entries = h.current :: g.entries ∧ g.future = h.current :: h.future ∧
      g.capacity = h.capacity ∧ g.announcer? = h.announcer? := by
  unfold undo? at hu
  split at hu
  · cases hu
  · next previous older hpast =>
    obtain rfl := Option.some.inj hu
    exact ⟨by simp [entries, hpast], rfl, rfl, rfl⟩

theorem undo?_eq_none : h.undo? = none ↔ h.past = [] := by
  unfold undo?
  split <;> simp_all

theorem redo?_eq_none : h.redo? = none ↔ h.future = [] := by
  unfold redo?
  split <;> simp_all

/-! ### The bound on past and future -/

/-- Whether all entries and undone entries together keep within the
capacity. -/
def IsBounded (h : History) : Prop :=
  h.entries.length + h.future.length ≤ h.capacity

theorem isBounded_ofSnapshot (s : Snapshot) (announcer? : Option Announcer)
    (capacity : Int) :
    (ofSnapshot s announcer? capacity).IsBounded := by
  simp only [IsBounded, ofSnapshot, entries, List.length_cons, List.length_nil]
  omega

theorem isBounded_push (h : History) (s : Snapshot) : (h.push s).IsBounded := by
  rw [IsBounded, entries_push, List.length_take]
  exact Nat.min_le_left ..

/-- Within the bound, a redo moves a snapshot back out of the future and drops
nothing. -/
theorem redo?_eq_some (hh : h.IsBounded) (hr : h.redo? = some g) :
    g.entries = g.current :: h.entries ∧ h.future = g.current :: g.future ∧
      g.capacity = h.capacity ∧ g.announcer? = h.announcer? := by
  unfold redo? at hr
  split at hr
  · cases hr
  · next next later hfuture =>
    obtain rfl := Option.some.inj hr
    -- a future that is not empty leaves room for one entry more
    have hroom : h.entries.length ≤ h.capacity - 1 := by
      simp only [IsBounded, hfuture, List.length_cons] at hh
      omega
    refine ⟨?_, hfuture, rfl, rfl⟩
    rw [entries, List.take_of_length_le hroom]

theorem isBounded_undo? (hh : h.IsBounded) (hu : h.undo? = some g) : g.IsBounded := by
  obtain ⟨hentries, hfuture, hcapacity, -⟩ := undo?_eq_some hu
  simp only [IsBounded, hentries, hfuture, hcapacity, List.length_cons] at hh ⊢
  omega

theorem isBounded_redo? (hh : h.IsBounded) (hr : h.redo? = some g) : g.IsBounded := by
  obtain ⟨hentries, hfuture, hcapacity, -⟩ := redo?_eq_some hh hr
  simp only [IsBounded, hentries, hfuture, hcapacity, List.length_cons] at hh ⊢
  omega

/-- Every operation keeps the bound, and the capacity. -/
theorem isBounded_after (hh : h.IsBounded) (operation : Operation ε) :
    (h.after operation).IsBounded ∧ (h.after operation).capacity = h.capacity := by
  cases operation with
  | commit update =>
    rcases after_commit update with heq | ⟨s, heq⟩
    · rw [heq]
      exact ⟨hh, rfl⟩
    · rw [heq]
      exact ⟨isBounded_push h s, rfl⟩
  | undo =>
    rcases hu : h.undo? with - | g
    · simpa [after, hu] using hh
    · obtain ⟨-, -, hcapacity, -⟩ := undo?_eq_some hu
      simpa [after, hu] using And.intro (isBounded_undo? hh hu) hcapacity
  | redo =>
    rcases hr : h.redo? with - | g
    · simpa [after, hr] using hh
    · obtain ⟨-, -, hcapacity, -⟩ := redo?_eq_some hh hr
      simpa [after, hr] using And.intro (isBounded_redo? hh hr) hcapacity

/-- So does every run. -/
theorem isBounded_afterAll (hh : h.IsBounded) (operations : List (Operation ε)) :
    (h.afterAll operations).IsBounded ∧ (h.afterAll operations).capacity = h.capacity := by
  induction operations generalizing h with
  | nil => exact ⟨hh, rfl⟩
  | cons operation operations ih =>
    obtain ⟨hafter, hcapacity⟩ := isBounded_after hh operation
    obtain ⟨hall, hsame⟩ := ih hafter
    exact ⟨hall, hsame.trans hcapacity⟩

/-! ### Undo and redo -/

/-- Two histories of one capacity and one announcement are the same when their
entries and futures are. -/
theorem eq_of_entries (hentries : h.entries = g.entries) (hfuture : h.future = g.future)
    (hcapacity : h.capacity = g.capacity) (hannounce : h.announcer? = g.announcer?) : h = g := by
  cases h
  cases g
  obtain ⟨hcurrent, hpast⟩ := List.cons.inj hentries
  simp_all

/-- A redo takes back an undo. -/
theorem redo?_undo? (hh : h.IsBounded) (hu : h.undo? = some g) : g.redo? = some h := by
  obtain ⟨hentries, hfuture, hcapacity, hannounce⟩ := undo?_eq_some hu
  rcases hr : g.redo? with - | k
  · rw [redo?_eq_none, hfuture] at hr
    cases hr
  · obtain ⟨hentries', hfuture', hcapacity', hannounce'⟩ :=
      redo?_eq_some (isBounded_undo? hh hu) hr
    -- what comes back is what the undo has put in front of the future
    obtain ⟨hcurrent, hrest⟩ := List.cons.inj (hfuture.symm.trans hfuture')
    have hback : k.entries = h.entries := by rw [hentries', hentries, hcurrent]
    rw [eq_of_entries hback hrest.symm (hcapacity'.trans hcapacity) (hannounce'.trans hannounce)]

/-- An undo takes back a redo. -/
theorem undo?_redo? (hh : h.IsBounded) (hr : h.redo? = some g) : g.undo? = some h := by
  obtain ⟨hentries, hfuture, hcapacity, hannounce⟩ := redo?_eq_some hh hr
  rcases hu : g.undo? with - | k
  · rw [undo?_eq_none] at hu
    simp [entries, hu] at hentries
  · obtain ⟨hentries', hfuture', hcapacity', hannounce'⟩ := undo?_eq_some hu
    have hback : k.entries = h.entries := (List.cons.inj (hentries'.symm.trans hentries)).2
    have hlater : k.future = h.future := by rw [hfuture', hfuture]
    rw [eq_of_entries hback hlater (hcapacity'.trans hcapacity) (hannounce'.trans hannounce)]

theorem timeline_undo? (hu : h.undo? = some g) : g.timeline = h.timeline := by
  obtain ⟨hentries, hfuture, -⟩ := undo?_eq_some hu
  simp [timeline, hentries, hfuture]

theorem timeline_redo? (hh : h.IsBounded) (hr : h.redo? = some g) : g.timeline = h.timeline := by
  obtain ⟨hentries, hfuture, -⟩ := redo?_eq_some hh hr
  simp [timeline, hentries, hfuture]

/-! ### Snapshots of a timeline -/

/-- A push brings one snapshot, and may drop others. -/
theorem mem_timeline_push {s x : Snapshot} (hx : x ∈ (h.push s).timeline) :
    x = s ∨ x ∈ h.timeline := by
  rw [timeline, entries_push] at hx
  have hx : x ∈ s :: h.entries := List.mem_of_mem_take (by simpa [push] using hx)
  rcases List.mem_cons.1 hx with rfl | hx
  · exact .inl rfl
  · exact .inr (List.mem_append_right _ hx)

/-- A redo may drop entries, but brings nothing new. -/
theorem mem_timeline_redo? {x : Snapshot} (hr : h.redo? = some g) (hx : x ∈ g.timeline) :
    x ∈ h.timeline := by
  unfold History.redo? at hr
  split at hr
  · cases hr
  · next next later hfuture =>
    obtain rfl := Option.some.inj hr
    rw [timeline, hfuture]
    -- the next snapshot has moved from the future to the entries
    rcases List.mem_append.1 hx with hx | hx
    · exact List.mem_append_left _ (by simp [List.mem_reverse.1 hx])
    · rcases List.mem_cons.1 hx with rfl | hx
      · exact List.mem_append_left _ (by simp)
      · exact List.mem_append_right _ (List.mem_of_mem_take hx)

/-! ### The laws -/

/-- The laws of a history as a timeline, for commits whose updates fail with
errors of type `ε`. -/
structure TimelineLaws (ε : Type) (h : History) : Prop where
  nonempty : h.entries ≠ []
  bounded : h.entries.length + h.future.length ≤ h.capacity
  /-- An undo is refused when only one entry is left, … -/
  undo_refused : h.undo? = none ↔ h.entries.length = 1
  /-- … and otherwise moves the present by one, which a redo takes back. -/
  undo : ∀ g, h.undo? = some g → g.timeline = h.timeline ∧
    h.entries = h.current :: g.entries ∧ g.future = h.current :: h.future ∧ g.redo? = some h
  /-- A redo is refused when nothing has been undone, … -/
  redo_refused : h.redo? = none ↔ h.future = []
  /-- … and otherwise moves the present by one, without dropping an entry, and
  an undo takes it back. -/
  redo : ∀ g, h.redo? = some g → g.timeline = h.timeline ∧
    g.entries = g.current :: h.entries ∧ h.future = g.current :: g.future ∧ g.undo? = some h
  /-- A commit that records puts a new snapshot in front and cuts at the
  capacity; if there is room for two, an undo shows what was there before. -/
  recorded : ∀ (update : Snapshot → Except ε (Option Change)) (done : Commit),
    h.commit update = .ok done → done.recorded = true →
    ∃ change, update h.current.prepared = .ok (some change) ∧
      done.history.entries = (h.current.prepared.apply change :: h.entries).take h.capacity ∧
      done.history.future = [] ∧
      (2 ≤ h.capacity → ∃ g, done.history.undo? = some g ∧ g.current = h.current)
  /-- A commit that records nothing changes nothing. -/
  unrecorded : ∀ (update : Snapshot → Except ε (Option Change)) (done : Commit),
    h.commit update = .ok done → done.recorded = false → done.history = h

/-- With room for two, an undo after a push is back where the push has been
made. -/
theorem undo?_push (h : History) (s : Snapshot) (hroom : 2 ≤ h.capacity) :
    ∃ g, (h.push s).undo? = some g ∧ g.current = h.current := by
  obtain ⟨n, hn⟩ : ∃ n, h.capacity - 1 = n + 1 := ⟨h.capacity - 2, by omega⟩
  simp [undo?, push, entries, hn]

/-- The laws hold within the bound. -/
theorem IsBounded.timelineLaws (hh : h.IsBounded) : TimelineLaws ε h where
  nonempty := List.cons_ne_nil _ _
  bounded := hh
  undo_refused := by
    rw [undo?_eq_none, entries, List.length_cons]
    exact ⟨fun hpast => by simp [hpast], fun hlen => List.eq_nil_of_length_eq_zero (by omega)⟩
  undo g hu := by
    obtain ⟨hentries, hfuture, -⟩ := undo?_eq_some hu
    exact ⟨timeline_undo? hu, hentries, hfuture, redo?_undo? hh hu⟩
  redo_refused := redo?_eq_none
  redo g hr := by
    obtain ⟨hentries, hfuture, -⟩ := redo?_eq_some hh hr
    exact ⟨timeline_redo? hh hr, hentries, hfuture, undo?_redo? hh hr⟩
  recorded update done hdone hrecorded := by
    rcases commit_eq_ok hdone with rfl | ⟨change, hupdate, -, -, hpush⟩
    · cases hrecorded
    · rw [hpush]
      exact ⟨change, hupdate, entries_push h _, rfl, undo?_push h _⟩
  unrecorded update done hdone hrecorded := by
    rcases commit_eq_ok hdone with rfl | ⟨_, -, -, htrue, -⟩
    · rfl
    · rw [htrue] at hrecorded
      cases hrecorded

/-- **The history is a timeline with a moving present**: the laws hold after
every run of commits, undos and redos, of a history of any capacity. -/
theorem timelineLaws_afterAll (ε : Type) (s : Snapshot) (announcer? : Option Announcer)
    (capacity : Int) (operations : List (Operation ε)) :
    ((ofSnapshot s announcer? capacity).afterAll operations).capacity = max 1 capacity.toNat ∧
      TimelineLaws ε ((ofSnapshot s announcer? capacity).afterAll operations) := by
  obtain ⟨hbounded, hcapacity⟩ :=
    isBounded_afterAll (isBounded_ofSnapshot s announcer? capacity) operations
  exact ⟨hcapacity, hbounded.timelineLaws⟩

/-! ### Two capacities -/

/-- What an operation shows: what it answers, what an update is given, and what
comes of the announcement. -/
structure Observation (ε : Type) where
  answer : Except ε Bool
  seen : Option Snapshot
  announcement : Announcement

/-- What is seen of an operation. -/
def observe (h : History) : Operation ε → Observation ε
  | .commit update =>
    match h.commit update with
    | .ok done => ⟨.ok done.recorded, some h.current.prepared, done.announcement⟩
    | .error cause => ⟨.error cause, some h.current.prepared, .silent⟩
  | .undo => ⟨.ok h.undo?.isSome, none, .silent⟩
  | .redo => ⟨.ok h.redo?.isSome, none, .silent⟩

/-- What is seen of a run. -/
def trace (h : History) : List (Operation ε) → List (Observation ε)
  | [] => []
  | operation :: operations => h.observe operation :: (h.after operation).trace operations

/-- The snapshot that an operation records, if it does. -/
def recorded? (h : History) : Operation ε → Option Snapshot
  | .commit update =>
    match h.commit update with
    | .ok done => if done.recorded then some done.history.current else none
    | .error _ => none
  | .undo | .redo => none

/-- The snapshots that a run records, in order. -/
def recordings (h : History) : List (Operation ε) → List Snapshot
  | [] => []
  | operation :: operations =>
    (h.recorded? operation).toList ++ (h.after operation).recordings operations

/-- A history of a smaller capacity that has seen the same: its entries are the
newest of the larger one's. -/
structure Agrees (small large : History) : Prop where
  entries : small.entries <+: large.entries
  future : small.future = large.future
  announcer? : small.announcer? = large.announcer?
  capacity : small.capacity ≤ large.capacity

variable {small large : History}

theorem Agrees.current (h : Agrees small large) : small.current = large.current := by
  obtain ⟨rest, hrest⟩ := h.entries
  exact (List.cons.inj hrest).1

theorem Agrees.push (h : Agrees small large) (s : Snapshot) :
    Agrees (small.push s) (large.push s) where
  entries := by
    rw [entries_push, entries_push, List.prefix_take_iff]
    refine ⟨(List.take_prefix _ _).trans ((List.prefix_cons_inj s).2 h.entries), ?_⟩
    exact Nat.le_trans (List.length_take_le _ _) h.capacity
  future := rfl
  announcer? := h.announcer?
  capacity := h.capacity

/-- Two histories that agree commit alike. -/
theorem Agrees.commit (h : Agrees small large) (update : Snapshot → Except ε (Option Change)) :
    small.observe (.commit update) = large.observe (.commit update) ∧
      Agrees (small.after (.commit update)) (large.after (.commit update)) := by
  simp only [observe, after, History.commit, h.current]
  rcases update large.current.prepared with cause | change?
  · exact ⟨rfl, h⟩
  · cases change? with
    | none => exact ⟨rfl, h⟩
    | some change =>
      simp only [Except.map, record, announce, h.current, h.announcer?]
      split
      · exact ⟨rfl, h⟩
      · exact ⟨rfl, h.push _⟩

/-- They undo alike, unless the smaller one is at its end. -/
theorem Agrees.undo (h : Agrees small large) (hend : small.undo? = none → large.undo? = none) :
    small.observe (.undo : Operation ε) = large.observe (.undo : Operation ε) ∧
      Agrees (small.after (.undo : Operation ε)) (large.after (.undo : Operation ε)) := by
  rcases hsmall : small.undo? with - | g
  · simp only [observe, after, hsmall, hend hsmall]
    exact ⟨trivial, h⟩
  · obtain ⟨hentries, hfuture, hcapacity, hannounce⟩ := undo?_eq_some hsmall
    -- an entry below the present of the smaller one is there in the larger one
    rcases hlarge : large.undo? with - | k
    · have hlen := h.entries.length_le
      rw [hentries, History.entries, History.entries, undo?_eq_none.1 hlarge] at hlen
      simp at hlen
    · obtain ⟨hentries', hfuture', hcapacity', hannounce'⟩ := undo?_eq_some hlarge
      have hagrees : Agrees g k := by
        refine ⟨?_, ?_, ?_, ?_⟩
        · have hprefix := h.entries
          rw [hentries, hentries', h.current] at hprefix
          exact (List.prefix_cons_inj _).1 hprefix
        · rw [hfuture, hfuture', h.current, h.future]
        · rw [hannounce, hannounce', h.announcer?]
        · rw [hcapacity, hcapacity']
          exact h.capacity
      simp only [observe, after, hsmall, hlarge]
      exact ⟨rfl, hagrees⟩

/-- They redo alike, since neither drops an entry. -/
theorem Agrees.redo (h : Agrees small large) (hsmall : small.IsBounded) (hlarge : large.IsBounded) :
    small.observe (.redo : Operation ε) = large.observe (.redo : Operation ε) ∧
      Agrees (small.after (.redo : Operation ε)) (large.after (.redo : Operation ε)) := by
  rcases hs : small.redo? with - | g
  · have hl : large.redo? = none := by rw [redo?_eq_none, ← h.future, ← redo?_eq_none, hs]
    simp only [observe, after, hs, hl]
    exact ⟨trivial, h⟩
  · obtain ⟨hentries, hfuture, hcapacity, hannounce⟩ := redo?_eq_some hsmall hs
    rcases hl : large.redo? with - | k
    · rw [redo?_eq_none, ← h.future, hfuture] at hl
      cases hl
    · obtain ⟨hentries', hfuture', hcapacity', hannounce'⟩ := redo?_eq_some hlarge hl
      -- the futures are the same, so both bring back the same snapshot
      obtain ⟨hcurrent, hrest⟩ := List.cons.inj (hfuture.symm.trans (h.future.trans hfuture'))
      have hagrees : Agrees g k := by
        refine ⟨?_, hrest, ?_, ?_⟩
        · rw [hentries, hentries', hcurrent]
          exact (List.prefix_cons_inj _).2 h.entries
        · rw [hannounce, hannounce', h.announcer?]
        · rw [hcapacity, hcapacity']
          exact h.capacity
      simp only [observe, after, hs, hl]
      exact ⟨rfl, hagrees⟩

/-- Whether a run has no undo that the smaller history refuses and the larger
one accepts. -/
def UndoAlike (small large : History) (operations : List (Operation ε)) : Prop :=
  ∀ done rest, operations = done ++ .undo :: rest →
    (small.afterAll done).undo? = none → (large.afterAll done).undo? = none

theorem UndoAlike.tail {operation : Operation ε} {operations : List (Operation ε)}
    (h : UndoAlike small large (operation :: operations)) :
    UndoAlike (small.after operation) (large.after operation) operations := by
  intro done rest heq
  apply h (operation :: done) rest
  rw [heq, List.cons_append]

/-- Histories that agree show the same along such a run, and agree at its
end. -/
theorem Agrees.afterAll (h : Agrees small large) (hsmall : small.IsBounded)
    (hlarge : large.IsBounded) {operations : List (Operation ε)}
    (halike : UndoAlike small large operations) :
    small.trace operations = large.trace operations ∧
      Agrees (small.afterAll operations) (large.afterAll operations) := by
  induction operations generalizing small large with
  | nil => exact ⟨rfl, h⟩
  | cons operation operations ih =>
    -- only an undo needs the hypothesis on the run, with nothing done before it
    obtain ⟨hobserve, hafter⟩ : small.observe operation = large.observe operation ∧
        Agrees (small.after operation) (large.after operation) := by
      cases operation with
      | commit update => exact h.commit update
      | undo => exact h.undo (halike [] operations rfl)
      | redo => exact h.redo hsmall hlarge
    obtain ⟨htrace, hall⟩ := ih hafter (isBounded_after hsmall operation).1
      (isBounded_after hlarge operation).1 halike.tail
    exact ⟨by rw [trace, trace, hobserve, htrace], hall⟩

theorem take_append_take {α : Type} (n : Nat) (xs ys : List α) :
    (xs ++ ys.take n).take n = (xs ++ ys).take n := by
  rw [List.take_append, List.take_append, List.take_take, Nat.min_eq_left (Nat.sub_le _ _)]

/-- After commits alone, the entries are the newest of all that has been
recorded. -/
theorem entries_afterAll_commits (hh : h.entries.length ≤ h.capacity)
    (updates : List (Snapshot → Except ε (Option Change))) :
    (h.afterAll (updates.map .commit)).entries =
      ((h.recordings (updates.map .commit)).reverse ++ h.entries).take h.capacity := by
  induction updates generalizing h with
  | nil => simp [recordings, List.take_of_length_le hh]
  | cons update updates ih =>
    rw [List.map_cons, afterAll_cons, recordings]
    rcases hdone : h.commit update with cause | done
    · simp only [after, recorded?, hdone]
      exact ih hh
    · rcases commit_eq_ok hdone with rfl | ⟨change, -, -, hrecorded, hpush⟩
      · simp only [after, recorded?, hdone]
        exact ih hh
      · have hroom : ∀ s, (h.push s).entries.length ≤ (h.push s).capacity := by
          intro s
          rw [entries_push, List.length_take]
          exact Nat.min_le_left ..
        simp only [after, recorded?, hdone, hrecorded, hpush]
        rw [ih (hroom _), entries_push]
        -- what the push has cut off would be cut off at the end anyway
        show List.take h.capacity _ = _
        rw [take_append_take]
        simp [push]

/-- **The capacity limits how far back one can go, and nothing else.**  Up to
the first undo that only the smaller of two histories refuses, both show the
same and stand at the same snapshot with the same future; the smaller one has a
non-empty beginning of the entries of the larger one.  After commits alone, a
history holds the newest of all snapshots that it has been given. -/
theorem capacity_limits_depth {k m : Nat} (hk : 1 ≤ k) (hkm : k ≤ m) (s : Snapshot)
    (announcer? : Option Announcer) :
    (∀ operations : List (Operation ε),
      UndoAlike (ofSnapshot s announcer? k) (ofSnapshot s announcer? m) operations →
      let small := (ofSnapshot s announcer? k).afterAll operations
      let large := (ofSnapshot s announcer? m).afterAll operations
      (ofSnapshot s announcer? k).trace operations = (ofSnapshot s announcer? m).trace operations ∧
        small.current = large.current ∧ small.future = large.future ∧
        small.entries <+: large.entries ∧ small.entries ≠ []) ∧
    ∀ updates : List (Snapshot → Except ε (Option Change)),
      let start := ofSnapshot s announcer? k
      let recorded := s :: start.recordings (updates.map .commit)
      (start.afterAll (updates.map .commit)).entries =
        recorded.reverse.take (min k recorded.length) := by
  have hagrees : Agrees (ofSnapshot s announcer? k) (ofSnapshot s announcer? m) := by
    refine ⟨List.prefix_refl _, rfl, rfl, ?_⟩
    simp only [ofSnapshot]
    omega
  refine ⟨fun operations halike => ?_, fun updates => ?_⟩
  · obtain ⟨htrace, hall⟩ := hagrees.afterAll (isBounded_ofSnapshot _ _ _)
      (isBounded_ofSnapshot _ _ _) halike
    exact ⟨htrace, hall.current, hall.future, hall.entries, List.cons_ne_nil _ _⟩
  · have hcapacity : (ofSnapshot s announcer? k).capacity = k := by
      simp only [ofSnapshot]
      omega
    intro start recorded
    have hentries : start.entries = [s] := rfl
    have hroom : start.entries.length ≤ start.capacity := by
      rw [hcapacity]
      exact hk
    rw [entries_afterAll_commits hroom updates, hcapacity, hentries, ← List.reverse_cons]
    -- taking more than there is takes all
    show recorded.reverse.take k = recorded.reverse.take (min k recorded.length)
    rw [← List.length_reverse, ← List.take_eq_take_min]

/-- Two changes, an undo and a redo with room for two and for three: in the smaller
history the third snapshot has pushed out the first one, and nothing shows it. -/
theorem capacity_limits_depth_two_three :
    let commits : List (Operation Empty) :=
      [.commit fun _ => .ok (some ⟨some (.boolean true), none⟩),
        .commit fun _ => .ok (some ⟨some (.boolean false), none⟩)]
    let small := ofSnapshot ⟨.null, []⟩ none 2
    let large := ofSnapshot ⟨.null, []⟩ none 3
    UndoAlike small large (commits ++ [.undo, .redo]) ∧
      small.trace (commits ++ [.undo, .redo]) = large.trace (commits ++ [.undo, .redo]) ∧
      (small.afterAll (commits ++ [.undo, .redo])).entries <+:
        (large.afterAll (commits ++ [.undo, .redo])).entries ∧
      (small.afterAll (commits ++ [.undo, .redo])).entries.map Snapshot.tree =
        [.boolean false, .boolean true] ∧
      (large.afterAll (commits ++ [.undo, .redo])).entries.map Snapshot.tree =
        [.boolean false, .boolean true, .null] := by
  intro commits small large
  have halike : UndoAlike small large (commits ++ [.undo, .redo]) := by
    intro done rest heq hrefused
    rcases done with - | ⟨first, - | ⟨second, - | ⟨third, - | ⟨fourth, done⟩⟩⟩⟩
    · cases heq
    · cases heq
    · -- the one undo of the run is accepted by both
      obtain ⟨rfl, rfl, -⟩ : first = _ ∧ second = _ ∧ _ := by simpa [commits] using heq.symm
      have haccepts : (small.afterAll commits).undo?.isSome = true := by rfl
      rw [show small.afterAll _ = small.afterAll commits from rfl] at hrefused
      rw [hrefused] at haccepts
      cases haccepts
    · cases heq
    · simp [commits] at heq
  obtain ⟨hruns, -⟩ := @capacity_limits_depth Empty 2 3 (by decide) (by decide) ⟨.null, []⟩ none
  obtain ⟨htrace, -, -, hentries, -⟩ := hruns _ halike
  exact ⟨halike, htrace, hentries, rfl, rfl⟩

end StructuralEditor.History
