/-
StructuralEditor/Proofs/Results.lean

Computations that may fail.

What a computation looks at may have many faults, and it stops at the first of them.  So
to say when it fails, and with what, is to list all faults in the order in which they are
looked for: it fails with the first one, and succeeds if there are none (`Reports`).  Such
computations are put together like the lists of faults themselves (`Reports.bind`,
`Reports.mapM`), and each part of a computation is compared with its own list.
-/
namespace StructuralEditor

/-! ### Successes -/

theorem bind_eq_ok {ε α β : Type} {x : Except ε α} {f : α → Except ε β} {b : β} :
    x >>= f = .ok b ↔ ∃ a, x = .ok a ∧ f a = .ok b := by
  cases x <;> simp [bind, Except.bind]

theorem map_eq_ok {ε α β : Type} {x : Except ε α} {f : α → β} {b : β} :
    x.map f = .ok b ↔ ∃ a, x = .ok a ∧ f a = b := by
  cases x <;> simp [Except.map]

theorem mapError_eq_ok {ε δ α : Type} {x : Except ε α} {f : ε → δ} {a : α} :
    x.mapError f = .ok a ↔ x = .ok a := by
  cases x with
  | error cause => exact ⟨(nomatch ·), (nomatch ·)⟩
  | ok b => exact ⟨fun h => congrArg _ (Except.ok.inj h), fun h => congrArg _ (Except.ok.inj h)⟩

/-- What is known of the value of a result is known of a successful result. -/
theorem eq_ok_of_toOption_map {ε α β : Type} {x : Except ε α} {f : α → β} {b : β}
    (h : x.toOption.map f = some b) : ∃ a, x = .ok a ∧ f a = b := by
  cases x with
  | error cause => cases h
  | ok a => exact ⟨a, rfl, Option.some.inj h⟩

/-! ### Faults -/

section

variable {ε α β : Type}

/-- Whether a result reports the given faults: it fails with the first of them, and
succeeds if there are none. -/
def Reports (faults : List ε) (result : Except ε α) : Prop :=
  match faults with
  | [] => ∃ a, result = .ok a
  | e :: _ => result = .error e

theorem Reports.ok (a : α) : Reports ([] : List ε) (.ok a) :=
  ⟨a, rfl⟩

theorem Reports.error (e : ε) (rest : List ε) : Reports (e :: rest) (.error e : Except ε α) :=
  rfl

/-- A computation that goes on after a first part reports the faults of both. -/
theorem Reports.bind_of_ok {faults more : List ε} {x : Except ε α} {f : α → Except ε β}
    (h : Reports faults x) (hf : ∀ a, x = .ok a → Reports more (f a)) :
    Reports (faults ++ more) (x >>= f) := by
  cases faults with
  | nil =>
    obtain ⟨a, rfl⟩ := h
    exact hf a rfl
  | cons e rest =>
    obtain rfl : x = .error e := h
    exact rfl

theorem Reports.bind {faults more : List ε} {x : Except ε α} {f : α → Except ε β}
    (h : Reports faults x) (hf : ∀ a, Reports more (f a)) : Reports (faults ++ more) (x >>= f) :=
  h.bind_of_ok fun a _ => hf a

/-- A computation that goes on with what cannot fail reports the faults of its first
part. -/
theorem Reports.bind_ok {faults : List ε} {x : Except ε α} {f : α → Except ε β}
    (h : Reports faults x) (hf : ∀ a, ∃ b, f a = .ok b) : Reports faults (x >>= f) := by
  rw [← List.append_nil faults]
  exact h.bind hf

theorem Reports.map {faults : List ε} {x : Except ε α} (h : Reports faults x) (f : α → β) :
    Reports faults (x.map f) := by
  cases faults with
  | nil =>
    obtain ⟨a, rfl⟩ := h
    exact ⟨f a, rfl⟩
  | cons e rest =>
    obtain rfl : x = .error e := h
    exact rfl

/-- The faults of several items are those of the first and of the rest. -/
theorem filterMap_cons_eq_append (fault? : α → Option ε) (item : α) (rest : List α) :
    (item :: rest).filterMap fault? = (fault? item).toList ++ rest.filterMap fault? := by
  rcases e : fault? item with - | fault <;> simp [e]

/-- A computation for each of several items reports the faults of all. -/
theorem Reports.mapM {f : α → Except ε β} {fault? : α → Option ε}
    (h : ∀ item, Reports (fault? item).toList (f item)) (items : List α) :
    Reports (items.filterMap fault?) (items.mapM f) := by
  induction items with
  | nil => exact Reports.ok []
  | cons item rest ih =>
    rw [filterMap_cons_eq_append, List.mapM_cons]
    exact (h item).bind fun b => ih.bind_ok fun bs => ⟨b :: bs, rfl⟩

/-- What a result that reports faults says about them. -/
theorem Reports.iff {faults : List ε} {x : Except ε α} (h : Reports faults x) :
    ((∃ a, x = .ok a) ↔ faults = []) ∧ ∀ e, x = .error e ↔ faults.head? = some e := by
  cases faults with
  | nil =>
    obtain ⟨a, rfl⟩ := h
    exact ⟨⟨fun _ => rfl, fun _ => ⟨a, rfl⟩⟩, fun e => ⟨nofun, nofun⟩⟩
  | cons fault rest =>
    obtain rfl : x = .error fault := h
    refine ⟨⟨nofun, nofun⟩, fun e => ?_⟩
    rw [Except.error.injEq, List.head?_cons, Option.some.injEq]

end

end StructuralEditor
