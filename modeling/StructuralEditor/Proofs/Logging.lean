/-
StructuralEditor/Proofs/Logging.lean

What setting up the loggers comes to.

Putting a logger in place concerns its own names only (`Loggers.get_put`), and to debug
a logger twice is to debug it once.  So each request for details is on its own, whatever
the others are (`get_setUp`): the logger has it, and every other one is as it was.

What the loggers write to is an invariant of setting them up (`WritesTo`): each step
attaches handlers that the section describes, and what startup adds by itself writes to
the console.  So a file is only ever written by a handler that the section describes
(`setUp_writes`), even if the section turns out to be broken later on.
-/
import StructuralEditor.Logging.Setup
import Mathlib.Tactic.Common

namespace StructuralEditor.Logging

open Settings

/-! ### Requests for details -/

/-- Details of a logger have somewhere to go. -/
theorem exists_handler_debugging (logger : Logger) :
    ∃ h ∈ (debugging logger).handlers, h.level.severity ≤ Level.debug.severity := by
  by_cases hany : logger.handlers.any fun h => h.level.severity ≤ Level.debug.severity
  · obtain ⟨h, hmem, hle⟩ := List.any_eq_true.1 hany
    refine ⟨h, ?_, of_decide_eq_true hle⟩
    rwa [debugging, if_pos hany]
  · refine ⟨⟨.stream, .debug⟩, ?_, Int.le_refl _⟩
    rw [debugging, if_neg hany]
    exact List.mem_append_right _ (List.mem_singleton_self _)

/-- Debugging keeps the handlers there are. -/
theorem handlers_debugging (logger : Logger) :
    ∃ added, (debugging logger).handlers = logger.handlers ++ added ∧
      ∀ h ∈ added, h.sink = .stream := by
  by_cases hany : logger.handlers.any fun h => h.level.severity ≤ Level.debug.severity
  · exact ⟨[], by simp [debugging, hany], by simp⟩
  · exact ⟨[⟨.stream, .debug⟩], by simp [debugging, hany], by simp⟩

/-- To debug a logger twice is to debug it once. -/
@[simp] theorem debugging_debugging (logger : Logger) :
    debugging (debugging logger) = debugging logger := by
  obtain ⟨h, hmem, hle⟩ := exists_handler_debugging logger
  have hany : (debugging logger).handlers.any fun h => h.level.severity ≤ Level.debug.severity :=
    List.any_eq_true.2 ⟨h, hmem, decide_eq_true hle⟩
  rw [debugging, if_pos hany]
  rfl

/-- One request for details. -/
theorem get_debug (ls : Loggers) (target name : String) :
    (debug ls target).get name =
      if Loggers.isSame target name then debugging (ls.get name) else ls.get name := by
  rw [debug, Loggers.get_put]
  split
  · next h => rw [ls.get_eq_of_isSame h]
  · rfl

/-- All requests for details, in whatever order and however often. -/
theorem get_foldl_debug (targets : List String) (ls : Loggers) (name : String) :
    (targets.foldl debug ls).get name =
      if targets.any (Loggers.isSame · name) then debugging (ls.get name) else ls.get name := by
  induction targets generalizing ls with
  | nil => rfl
  | cons target targets ih =>
    rw [List.foldl_cons, ih, get_debug, List.any_cons]
    cases Loggers.isSame target name <;> cases targets.any (Loggers.isSame · name) <;> simp

/-- A logger after startup: as the settings have it, unless its details are asked for. -/
theorem get_setUp_eq (settings : Data) (requests : Requests) (name : String) :
    (setUp settings requests).loggers.get name =
      if requests.targets.any (Loggers.isSame · name) then
        debugging ((setUpBySettings settings).loggers.get name)
      else (setUpBySettings settings).loggers.get name :=
  get_foldl_debug requests.targets (setUpBySettings settings).loggers name

/-- Requests only ever add handlers that write to the console. -/
theorem handlers_setUp (settings : Data) (requests : Requests) (name : String) :
    ∃ added, ((setUp settings requests).loggers.get name).handlers =
        ((setUpBySettings settings).loggers.get name).handlers ++ added ∧
      ∀ h ∈ added, h.sink = .stream := by
  rw [get_setUp_eq]
  split
  · exact handlers_debugging _
  · exact ⟨[], by simp, by simp⟩

/-- **What requests for details do.**  A logger that is asked for writes its details
somewhere, and keeps its other handlers and whether it passes on.  Any other logger is as
the settings have it. -/
theorem get_setUp (settings : Data) (requests : Requests) (name : String) :
    let before := (setUpBySettings settings).loggers.get name
    let after := (setUp settings requests).loggers.get name
    ((∃ target ∈ requests.targets, Loggers.isSame target name = true) →
      after.level = .debug ∧ (∃ h ∈ after.handlers, h.level.severity ≤ Level.debug.severity) ∧
        (∃ added, after.handlers = before.handlers ++ added) ∧
        after.propagates = before.propagates) ∧
      ((∀ target ∈ requests.targets, Loggers.isSame target name = false) → after = before) := by
  intro before after
  have hafter := get_setUp_eq settings requests name
  constructor
  · intro hasked
    obtain ⟨added, hadded, -⟩ := handlers_setUp settings requests name
    have hdebugging : after = debugging before :=
      hafter.trans (if_pos (List.any_eq_true.2 hasked))
    refine ⟨?_, ?_, ⟨added, hadded⟩, ?_⟩
    · rw [hdebugging]
      rfl
    · rw [hdebugging]
      exact exists_handler_debugging before
    · rw [hdebugging]
      rfl
  · intro hasked
    rwa [if_neg (by simpa using hasked)] at hafter

/-! ### What the loggers write to -/

/-- Whether a section describes a handler under a given name. -/
def Describes (settings : Data) (name : String) (handler : Handler) : Prop :=
  ∃ entries formats description, handlerEntries? settings = some entries ∧
    formats? settings = some formats ∧ (name, description) ∈ entries ∧
    handlerOf? formats name description = some handler

/-- Handlers that have been set up are described. -/
theorem mem_handlersOf {formats : List String} {entries : List (String × Data)} {name : String}
    {handler : Handler} (h : (name, handler) ∈ (handlersOf formats entries).1) :
    ∃ description, (name, description) ∈ entries ∧
      handlerOf? formats name description = some handler := by
  induction entries with
  | nil => exact absurd h (List.not_mem_nil)
  | cons entry entries ih =>
    unfold handlersOf at h
    split at h
    · exact absurd h (List.not_mem_nil)
    · next found hfound =>
      rcases List.mem_cons.1 h with heq | hrest
      · cases heq
        exact ⟨entry.2, List.mem_cons_self, hfound⟩
      · obtain ⟨description, hmem, hhandler⟩ := ih hrest
        exact ⟨description, List.mem_cons_of_mem _ hmem, hhandler⟩

/-- If no description is broken, then each has its handler. -/
theorem exists_mem_handlersOf {formats : List String} {entries : List (String × Data)}
    (h : (handlersOf formats entries).2 = true) :
    ∀ entry ∈ entries, ∃ handler, (entry.1, handler) ∈ (handlersOf formats entries).1 := by
  fun_induction handlersOf formats entries with
  | case1 => simp
  | case2 name description rest hnone => exact absurd h Bool.false_ne_true
  | case3 name description rest found hfound others complete hrest ih =>
    rw [hrest] at ih
    intro entry hentry
    rcases List.mem_cons.1 hentry with rfl | hentry
    · exact ⟨found, List.mem_cons_self⟩
    · obtain ⟨handler, hmem⟩ := ih h entry hentry
      exact ⟨handler, List.mem_cons_of_mem _ hmem⟩

/-- Whether every handler of every logger is of a certain kind. -/
def Loggers.WritesTo (p : Handler → Prop) (ls : Loggers) : Prop :=
  ∀ name, ∀ handler ∈ (ls.get name).handlers, p handler

section

variable {p : Handler → Prop} {handlers : Handlers} {ls : Loggers}

/-- At the start nothing is written. -/
theorem writesTo_initial : Loggers.initial.WritesTo p := by
  intro name handler h
  unfold Loggers.get at h
  split at h <;> exact absurd h (List.not_mem_nil)

theorem Loggers.WritesTo.put (hls : ls.WritesTo p) (name : String) {logger : Logger}
    (hlogger : ∀ handler ∈ logger.handlers, p handler) : (ls.put name logger).WritesTo p := by
  intro other handler h
  rw [get_put] at h
  split at h
  · exact hlogger handler h
  · exact hls other handler h

/-- What is attached is one of the handlers there are. -/
theorem mem_attach {names : List Data} {attached : Handlers}
    (hattached : ∀ entry ∈ attached, entry ∈ handlers) :
    ∀ entry ∈ (attach handlers names attached).1, entry ∈ handlers := by
  fun_induction attach handlers names attached with
  | case1 attached => exact hattached
  | case2 name rest attached hnone => exact hattached
  | case3 name rest attached handler hsome hfound ih => exact ih hattached
  | case4 name rest attached handler hsome hfound ih =>
    have hmem : (name, handler) ∈ handlers := by
      obtain ⟨before, after, rfl, -⟩ := List.lookup_eq_some_iff.1 hsome
      exact List.mem_append_right _ List.mem_cons_self
    exact ih (List.forall_mem_append.2 ⟨hattached, List.forall_mem_singleton.2 hmem⟩)
  | case5 other rest attached hother => exact hattached

theorem mem_attachListed {names : Data} :
    ∀ entry ∈ (attachListed handlers names).1, entry ∈ handlers := by
  unfold attachListed
  split
  · exact mem_attach (by simp)
  · exact mem_attach (by simp)
  · simp

section

variable (hhandlers : ∀ entry ∈ handlers, p entry.2)
include hhandlers

/-- A logger that is set up keeps the handlers it has or gets some of those there are. -/
theorem setUpLogger_handlers {logger : Logger} (hlogger : ∀ handler ∈ logger.handlers, p handler)
    (settings : Data) :
    ∀ handler ∈ (setUpLogger handlers settings logger).1.handlers, p handler := by
  unfold setUpLogger
  split
  · split
    · exact hlogger
    · intro handler h
      obtain ⟨entry, hentry, rfl⟩ := List.mem_map.1 h
      exact hhandlers entry (mem_attachListed entry hentry)
  · exact hlogger

theorem writesTo_setUpNamed (hls : ls.WritesTo p) (name : String) (settings : Data) :
    (setUpNamed handlers ls name settings).1.WritesTo p :=
  hls.put name (setUpLogger_handlers hhandlers (hls name) settings)

theorem writesTo_setUpAll (hls : ls.WritesTo p) (entries : List (Data × Data)) :
    (setUpAll handlers entries ls).1.WritesTo p := by
  fun_induction setUpAll handlers entries ls with
  | case1 ls => exact hls
  | case2 key settings rest ls hnone => exact hls
  | case3 key settings rest ls name hname ls' hnamed ih =>
    have hstep := writesTo_setUpNamed hhandlers hls name settings
    rw [hnamed] at hstep
    exact ih hstep
  | case4 key settings rest ls name hname ls' hnamed =>
    have hstep := writesTo_setUpNamed hhandlers hls name settings
    rwa [hnamed] at hstep

theorem writesTo_setUpRoot (hls : ls.WritesTo p) (settings : Data) :
    (setUpRoot handlers settings ls).1.WritesTo p := by
  unfold setUpRoot
  split
  · exact hls.put "" (setUpLogger_handlers hhandlers (hls "") settings)
  · exact hls

theorem writesTo_setUpLoggers (settings : Data) :
    (setUpLoggers handlers settings).1.WritesTo p := by
  unfold setUpLoggers
  split
  · exact writesTo_setUpRoot hhandlers writesTo_initial _
  · next entries hentries =>
    have hall := writesTo_setUpAll hhandlers writesTo_initial entries
    split
    · next ls hls =>
      rw [hls] at hall
      exact writesTo_setUpRoot hhandlers hall _
    · next ls hls =>
      rwa [hls] at hall
  · exact writesTo_initial

end

/-- A section sets up loggers that write to the handlers it describes, as far as it goes. -/
theorem writesTo_configure (settings : Data) :
    (configure settings).loggers.WritesTo fun handler =>
      ∃ name, Describes settings name handler := by
  unfold configure
  split
  · next entries formats hentries hformats =>
    have hhandlers : ∀ entry ∈ (handlersOf formats entries).1, ∃ name,
        Describes settings name entry.2 := by
      intro entry hentry
      obtain ⟨description, hmem, hhandler⟩ := mem_handlersOf hentry
      exact ⟨entry.1, entries, formats, description, hentries, hformats, hmem, hhandler⟩
    split
    · dsimp only
      split
      · exact writesTo_setUpLoggers hhandlers settings
      · exact writesTo_initial
    · exact writesTo_initial
  · exact writesTo_initial

end

/-- The log file is opened only for a handler that is described under its name; and for each
one, if the section is not broken. -/
theorem opensFile_configure (settings : Data) :
    ((configure settings).opensFile = true →
        ∃ handler, Describes settings fileHandlerName handler) ∧
      ((configure settings).isComplete = true →
        (∃ handler, Describes settings fileHandlerName handler) →
          (configure settings).opensFile = true) := by
  unfold configure
  split
  · next entries formats hentries hformats =>
    split
    · constructor
      · intro hopens
        obtain ⟨⟨name, handler⟩, hmem, hname⟩ := List.any_eq_true.1 hopens
        obtain rfl : name = fileHandlerName := of_decide_eq_true hname
        obtain ⟨description, hdescription, hhandler⟩ := mem_handlersOf hmem
        exact ⟨handler, entries, formats, description, hentries, hformats, hdescription, hhandler⟩
      · rintro hcomplete ⟨handler, entries', formats', description, hentries', -, hmem, -⟩
        obtain rfl := Option.some.inj (hentries.symm.trans hentries')
        have hall : (handlersOf formats entries).2 = true := by
          by_contra hnot
          simp [hnot] at hcomplete
        obtain ⟨found, hfound⟩ := exists_mem_handlersOf hall _ hmem
        exact List.any_eq_true.2 ⟨_, hfound, decide_eq_true rfl⟩
    · exact ⟨fun h => absurd h Bool.false_ne_true, fun h => absurd h Bool.false_ne_true⟩
  · exact ⟨fun h => absurd h Bool.false_ne_true, fun h => absurd h Bool.false_ne_true⟩

/-! ### The console -/

/-- A logger other than the root once the console has been set up. -/
theorem get_withConsole (ls : Loggers) {name : String} (hroot : Loggers.isRootName name = false) :
    (withConsole ls).get name =
      if name ∈ editLoggers then ⟨.info, false, [console]⟩
      else if editLoggers.any (isBelow name) then .plain
      else ls.get name := by
  have hconsole (names : List String) (logger : Logger) :
      (names.map fun name => (name, logger)).lookup name =
        if name ∈ names then some logger else none := by
    induction names with
    | nil => rfl
    | cons first names ih =>
      by_cases hname : name = first
      · simp [hname]
      · simp [List.lookup_cons, beq_eq_false_iff_ne.2 hname, hname, ih]
  have hothers := Loggers.lookup_filter (fun name => !editLoggers.any (isBelow name)) ls.named name
  rw [Loggers.get, if_neg (by simp [hroot]), withConsole, List.lookup_append, hconsole, hothers]
  by_cases hmem : name ∈ editLoggers
  · rw [if_pos hmem, if_pos hmem]
    rfl
  · rw [if_neg hmem, if_neg hmem, Option.none_or]
    cases editLoggers.any (isBelow name) with
    | true => rfl
    | false => simp [Loggers.get, hroot]

theorem writesTo_withConsole {p : Handler → Prop} {ls : Loggers} (hls : ls.WritesTo p)
    (hp : p console) : (withConsole ls).WritesTo p := by
  intro name handler h
  cases hroot : Loggers.isRootName name with
  | true =>
    rw [Loggers.get, if_pos hroot] at h
    obtain rfl := List.mem_singleton.1 h
    exact hp
  | false =>
    rw [get_withConsole ls hroot] at h
    split at h
    · obtain rfl := List.mem_singleton.1 h
      exact hp
    · split at h
      · exact absurd h List.not_mem_nil
      · exact hls name handler h

/-! ### Startup as a whole -/

/-- **What remains of broken settings.**  If they are broken, or if there are none, then the
root and the loggers of edits write to the console and to nothing else.  A logger below those
of edits is plain, and any other one is as it was when setting up ended. -/
theorem setUpBySettings_of_broken (settings : Data)
    (h : (setUpBySettings settings).brokenSettings = true ∨
      (settings.field "version").isTrue = false) :
    let ls := (setUpBySettings settings).loggers
    ls.root.level = .info ∧ ls.root.handlers = [console] ∧
      (∀ name ∈ editLoggers, ls.get name = ⟨.info, false, [console]⟩) ∧
      ∀ name, Loggers.isRootName name = false → name ∉ editLoggers →
        ls.get name =
          if (settings.field "version").isTrue ∧ editLoggers.any (isBelow name) = false then
            (configure settings).loggers.get name
          else .plain := by
  obtain ⟨before, hls, hbefore⟩ : ∃ before,
      (setUpBySettings settings).loggers = withConsole before ∧
        ∀ name, Loggers.isRootName name = false → before.get name =
          if (settings.field "version").isTrue then (configure settings).loggers.get name
          else .plain := by
    unfold setUpBySettings at h ⊢
    split at h
    · next hversion =>
      have hincomplete : (configure settings).isComplete = false := by
        simpa [hversion] using h
      exact ⟨_, by simp [hversion, hincomplete], fun _ _ => (if_pos hversion).symm⟩
    · next hversion =>
      refine ⟨.initial, by simp [hversion], fun name hroot => ?_⟩
      rw [if_neg hversion, Loggers.get, if_neg (by simp [hroot])]
      rfl
  intro ls
  rw [show ls = withConsole before from hls]
  refine ⟨rfl, rfl, fun name hname => ?_, fun name hroot hname => ?_⟩
  · have hroot : Loggers.isRootName name = false := by
      revert name
      decide
    rw [get_withConsole before hroot, if_pos hname]
  · rw [get_withConsole before hroot, if_neg hname, hbefore name hroot]
    cases editLoggers.any (isBelow name) <;> simp

/-- The root writes somewhere. -/
theorem root_handlers_setUpBySettings (settings : Data) :
    (setUpBySettings settings).loggers.root.handlers ≠ [] := by
  unfold setUpBySettings
  split
  · dsimp only
    split
    · unfold withRootHandler
      split
      · exact List.cons_ne_nil _ _
      · next h => simpa using h
    · exact List.cons_ne_nil _ _
  · exact List.cons_ne_nil _ _

theorem writesTo_setUpBySettings (settings : Data) :
    (setUpBySettings settings).loggers.WritesTo fun handler =>
      handler.sink = .stream ∨ ∃ name, Describes settings name handler := by
  have hconfigured : (configure settings).loggers.WritesTo fun handler =>
      handler.sink = .stream ∨ ∃ name, Describes settings name handler :=
    fun name handler h => .inr (writesTo_configure settings name handler h)
  unfold setUpBySettings
  split
  · dsimp only
    split
    · unfold withRootHandler
      split
      · exact hconfigured.put "" (List.forall_mem_singleton.2 (.inl rfl))
      · exact hconfigured
    · exact writesTo_withConsole hconfigured (.inl rfl)
  · exact writesTo_withConsole writesTo_initial (.inl rfl)

/-- **What is written where.**  The root always writes somewhere.  Any handler that does not
write to the console is one that the settings describe.  The log file is opened only for a
handler that they describe under its name, and for each one, unless they are broken. -/
theorem setUp_writes (settings : Data) (requests : Requests) :
    let setup := setUp settings requests
    setup.loggers.root.handlers ≠ [] ∧
      (setup.loggers.WritesTo fun handler =>
        handler.sink = .stream ∨ ∃ name, Describes settings name handler) ∧
      (setup.opensFile = true → ∃ handler, Describes settings fileHandlerName handler) ∧
      ((settings.field "version").isTrue = true → setup.brokenSettings = false →
        (∃ handler, Describes settings fileHandlerName handler) → setup.opensFile = true) := by
  have hopens := opensFile_configure settings
  refine ⟨?_, fun name handler h => ?_, fun h => ?_, fun hversion hbroken hdescribed => ?_⟩
  · obtain ⟨added, hadded, -⟩ := handlers_setUp settings requests ""
    rw [show (setUp settings requests).loggers.root.handlers = _ from hadded]
    exact List.append_ne_nil_of_left_ne_nil (root_handlers_setUpBySettings settings) added
  · obtain ⟨added, hadded, hstream⟩ := handlers_setUp settings requests name
    rcases List.mem_append.1 (hadded ▸ h) with hold | hnew
    · exact writesTo_setUpBySettings settings name handler hold
    · exact .inl (hstream handler hnew)
  · change (setUpBySettings settings).opensFile = true at h
    unfold setUpBySettings at h
    split at h
    · exact hopens.1 h
    · exact absurd h Bool.false_ne_true
  · change (setUpBySettings settings).brokenSettings = false at hbroken
    change (setUpBySettings settings).opensFile = true
    rw [setUpBySettings, if_pos hversion] at hbroken ⊢
    exact hopens.2 (by simpa using hbroken) hdescribed

end StructuralEditor.Logging
