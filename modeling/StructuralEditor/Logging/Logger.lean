/-
StructuralEditor/Logging/Logger.lean

Loggers by name, with their levels and handlers.  The logger at the root has
the names `root` and the empty one; every other logger exists from the start,
with no level and no handlers of its own.
-/
namespace StructuralEditor.Logging

/-- A level: the greater, the more severe. -/
structure Level where
  severity : Int
  deriving DecidableEq

namespace Level

/-- No level of its own. -/
def notSet : Level := ⟨0⟩

/-- Details. -/
def debug : Level := ⟨10⟩

/-- Ordinary events. -/
def info : Level := ⟨20⟩

/-- Things to look at. -/
def warning : Level := ⟨30⟩

/-- Failures. -/
def error : Level := ⟨40⟩

/-- Failures that end the program. -/
def critical : Level := ⟨50⟩

/-- The levels with names. -/
def named : List (String × Level) :=
  [("NOTSET", notSet), ("DEBUG", debug), ("INFO", info), ("WARNING", warning), ("ERROR", error),
   ("CRITICAL", critical)]

/-- Further names of levels. -/
def aliases : List (String × Level) :=
  [("WARN", warning), ("FATAL", critical)]

/-- The level of a given name. -/
def ofName? (name : String) : Option Level :=
  (named ++ aliases).lookup name

/-- The name of a level. -/
def name (l : Level) : String :=
  match named.find? (·.2 = l) with
  | some (name, _) => name
  | none => "Level " ++ toString l.severity

end Level

/-- Where a handler writes. -/
inductive Sink where
  | stream
  | file
  deriving DecidableEq

/-- The class of the handlers that write to a sink. -/
def Sink.className : Sink → String
  | .stream => "StreamHandler"
  | .file => "FileHandler"

/-- A handler writes what has its level or a more severe one. -/
structure Handler where
  sink : Sink
  level : Level
  deriving DecidableEq

/-- A logger. -/
structure Logger where
  level : Level
  propagates : Bool
  handlers : List Handler
  deriving DecidableEq

/-- A logger that has not been configured. -/
def Logger.plain : Logger := ⟨.notSet, true, []⟩

/-- The logger at the root and those that have been configured by name. -/
structure Loggers where
  root : Logger
  named : List (String × Logger)
  deriving DecidableEq

namespace Loggers

/-- The loggers at the start. -/
def initial : Loggers := ⟨{ Logger.plain with level := .warning }, []⟩

/-- Whether a name is one of the root logger. -/
def isRootName (name : String) : Bool :=
  name = "" || name = "root"

/-- The logger of a given name. -/
def get (ls : Loggers) (name : String) : Logger :=
  if isRootName name then ls.root else (ls.named.lookup name).getD .plain

/-- The loggers with one of them put in place of the one with its name. -/
def put (ls : Loggers) (name : String) (logger : Logger) : Loggers :=
  if isRootName name then { ls with root := logger }
  else { ls with named := (name, logger) :: ls.named.filter (·.1 ≠ name) }

/-- Selecting by names does not affect what is found under a selected one. -/
theorem lookup_filter (p : String → Bool) (entries : List (String × Logger)) (name : String) :
    (entries.filter (p ·.1)).lookup name = if p name then entries.lookup name else none := by
  induction entries with
  | nil => split <;> rfl
  | cons entry entries ih =>
    obtain ⟨key, logger⟩ := entry
    by_cases hname : name = key
    · subst hname
      cases hp : p name <;> simp [hp, ih]
    · have hbeq : (name == key) = false := beq_eq_false_iff_ne.2 hname
      cases hp : p key <;> simp [List.lookup_cons, hp, hbeq, ih]

/-- Whether two names are names of one logger. -/
def isSame (a b : String) : Bool :=
  a = b || isRootName a && isRootName b

theorem get_eq_of_isSame {a b : String} (ls : Loggers) (h : isSame a b = true) :
    ls.get a = ls.get b := by
  simp only [isSame, Bool.or_eq_true, Bool.and_eq_true, decide_eq_true_eq] at h
  rcases h with rfl | ⟨ha, hb⟩
  · rfl
  · rw [get, get, if_pos ha, if_pos hb]

/-- A logger that is put in place is found under its own names and under no other. -/
theorem get_put (ls : Loggers) (a b : String) (logger : Logger) :
    (ls.put a logger).get b = if isSame a b then logger else ls.get b := by
  by_cases ha : isRootName a = true <;> by_cases hb : isRootName b = true
  · simp [put, get, isSame, ha, hb]
  · have hne : a ≠ b := fun h => hb (h ▸ ha)
    simp [put, get, isSame, ha, hb, hne]
  · have hne : a ≠ b := fun h => ha (h ▸ hb)
    simp [put, get, isSame, ha, hb, hne]
  · by_cases heq : a = b
    · subst heq
      simp [put, get, isSame, ha]
    · have hbeq : (b == a) = false := beq_eq_false_iff_ne.2 (Ne.symm heq)
      have hother : (ls.named.filter (·.1 ≠ a)).lookup b = ls.named.lookup b :=
        (lookup_filter (· ≠ a) ls.named b).trans (if_pos (decide_eq_true (Ne.symm heq)))
      rw [put, if_neg ha, get, if_neg hb, get, if_neg hb, List.lookup_cons, hbeq, hother]
      simp [isSame, ha, heq]

end Loggers

end StructuralEditor.Logging
