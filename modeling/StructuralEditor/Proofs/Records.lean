/-
StructuralEditor/Proofs/Records.lean

Records overridden by records.

Entries are put into a record one after another.  Each either finds its key there
and only changes the value, or comes to the end.  So after all of them the keys
that were there have kept their places and those that were not follow in the order
in which they came (`overridden`).  The induction is on the overrides from the
last one back, since it is the entry put last that finds the others in place.
-/
import Mathlib.Data.List.Induction
import StructuralEditor.Data.Value

namespace StructuralEditor.Data

/-! ### Records without a repeated key -/

/-- Whether two entries have different keys. -/
def HaveDistinctKeys (a b : Data × Data) : Prop :=
  sameKey a.1 b.1 = false

theorem putEntry_of_new {key value : Data} {entries : List (Data × Data)}
    (h : ∀ e ∈ entries, sameKey e.1 key = false) :
    putEntry key value entries = entries ++ [(key, value)] := by
  induction entries with
  | nil => rfl
  | cons e entries ih =>
    obtain ⟨k, v⟩ := e
    have hfirst : sameKey k key = false := h (k, v) List.mem_cons_self
    have hrest : ∀ e ∈ entries, sameKey e.1 key = false := by
      intro e he
      exact h e (List.mem_cons_of_mem _ he)
    rw [putEntry, if_neg (by simp [hfirst]), ih hrest]
    rfl

theorem mergeEntries_of_distinct {entries overrides : List (Data × Data)}
    (h : (entries ++ overrides).Pairwise HaveDistinctKeys) :
    mergeEntries entries overrides = entries ++ overrides := by
  induction overrides generalizing entries with
  | nil => exact (List.append_nil _).symm
  | cons e overrides ih =>
    have hnew : ∀ k ∈ entries, sameKey k.1 e.1 = false := by
      intro k hk
      exact (List.pairwise_append.1 h).2.2 k hk e List.mem_cons_self
    rw [List.append_cons] at h
    show mergeEntries (putEntry e.1 e.2 entries) overrides = _
    rw [putEntry_of_new hnew, ih h, ← List.append_cons]

theorem ofEntries_of_distinct {entries : List (Data × Data)}
    (h : entries.Pairwise HaveDistinctKeys) :
    ofEntries entries = .record entries := by
  rw [ofEntries, mergeEntries_of_distinct (by simpa using h), List.nil_append]

/-! ### Keys that are texts -/

@[simp]
theorem sameKey_text_text (s t : String) : sameKey (.text s) (.text t) = (s == t) := by
  rw [sameKey]

/-- A text is the same key as itself and no other. -/
theorem sameKey_text (name : String) (key : Data) :
    sameKey (.text name) key ↔ key = .text name := by
  cases key with
  | text other => simpa using eq_comm
  | _ => simp [sameKey]

/-- Whether the keys of entries are texts, all different. -/
structure HaveNames (entries : List (Data × Data)) : Prop where
  text : ∀ e ∈ entries, ∃ name, e.1 = .text name
  distinct : entries.Pairwise HaveDistinctKeys

namespace HaveNames

variable {e : Data × Data} {entries : List (Data × Data)}

theorem of_names {names : List String} (h : entries.map Prod.fst = names.map .text)
    (hnodup : names.Nodup) : HaveNames entries where
  text e he := by
    have hkey : e.1 ∈ names.map Data.text := h ▸ List.mem_map_of_mem he
    obtain ⟨name, -, hname⟩ := List.mem_map.1 hkey
    exact ⟨name, hname.symm⟩
  distinct := by
    have hkeys : (entries.map Prod.fst).Pairwise fun a b => sameKey a b = false := by
      rw [h, List.pairwise_map]
      refine hnodup.imp fun {a b} hab => ?_
      rw [Bool.eq_false_iff, ne_eq, sameKey_text, Data.text.injEq]
      exact hab.symm
    rw [List.pairwise_map] at hkeys
    exact hkeys

theorem sameKey_iff (h : HaveNames entries) (he : e ∈ entries) (key : Data) :
    sameKey e.1 key ↔ key = e.1 := by
  obtain ⟨name, hname⟩ := h.text e he
  rw [hname]
  exact sameKey_text name key

theorem tail (h : HaveNames (e :: entries)) : HaveNames entries :=
  ⟨fun d hd => h.text d (List.mem_cons_of_mem e hd), h.distinct.of_cons⟩

theorem head_ne (h : HaveNames (e :: entries)) {d : Data × Data} (hd : d ∈ entries) :
    sameKey d.1 e.1 = false := by
  rw [Bool.eq_false_iff, ne_eq, h.tail.sameKey_iff hd]
  intro hkey
  have hdistinct : sameKey e.1 d.1 = false := List.rel_of_pairwise_cons h.distinct hd
  rw [← hkey, (h.sameKey_iff List.mem_cons_self e.1).2 rfl] at hdistinct
  cases hdistinct

end HaveNames

/-! ### Overriding -/

/-- The value of a key. -/
def value? (key : Data) (entries : List (Data × Data)) : Option Data :=
  (entries.find? fun e => sameKey key e.1).map Prod.snd

/-- Entries with the values that overrides have for their keys. -/
def revalued (entries overrides : List (Data × Data)) : List (Data × Data) :=
  entries.map fun e => (e.1, (value? e.1 overrides).getD e.2)

/-- The overrides whose keys the entries lack. -/
def added (entries overrides : List (Data × Data)) : List (Data × Data) :=
  overrides.filter fun o => entries.all fun e => !sameKey e.1 o.1

/-- Entries overridden by others: each keeps its place, and what else the others
have follows in their order. -/
def overridden (entries overrides : List (Data × Data)) : List (Data × Data) :=
  revalued entries overrides ++ added entries overrides

section

variable {entries overrides : List (Data × Data)} {o : Data × Data}

theorem value?_append_of_ne {key : Data} (h : sameKey key o.1 = false) :
    value? key (overrides ++ [o]) = value? key overrides := by
  simp [value?, List.find?_append, h]

theorem value?_append_of_new {key : Data} (hkey : sameKey key o.1)
    (hnew : ∀ a ∈ overrides, sameKey key a.1 = false) :
    value? key (overrides ++ [o]) = some o.2 := by
  have hnone : overrides.find? (fun e => sameKey key e.1) = none := by
    rw [List.find?_eq_none]
    intro a ha
    simp [hnew a ha]
  simp [value?, List.find?_append, hnone, hkey]

/-- An override of no entry leaves all values. -/
theorem revalued_append_of_ne (h : ∀ e ∈ entries, sameKey e.1 o.1 = false) :
    revalued entries (overrides ++ [o]) = revalued entries overrides := by
  refine List.map_congr_left fun e he => ?_
  rw [value?_append_of_ne (h e he)]

/-- An override of one entry changes the value of that entry alone. -/
theorem putEntry_revalued (hnames : HaveNames entries)
    (hnew : ∀ a ∈ overrides, sameKey a.1 o.1 = false) (hfound : ∃ e ∈ entries, sameKey e.1 o.1)
    (more : List (Data × Data)) :
    putEntry o.1 o.2 (revalued entries overrides ++ more) =
      revalued entries (overrides ++ [o]) ++ more := by
  induction entries with
  | nil =>
    obtain ⟨e, he, -⟩ := hfound
    cases he
  | cons e rest ih =>
    have hself : sameKey e.1 e.1 := (hnames.sameKey_iff List.mem_cons_self e.1).2 rfl
    simp only [revalued, List.map_cons, List.cons_append, putEntry]
    by_cases hkey : sameKey e.1 o.1
    · -- the entry is this one, so none of the rest is it
      have ho : o.1 = e.1 := (hnames.sameKey_iff List.mem_cons_self o.1).1 hkey
      have hrest : ∀ d ∈ rest, sameKey d.1 o.1 = false := by
        intro d hd
        rw [ho]
        exact hnames.head_ne hd
      have hbefore : ∀ a ∈ overrides, sameKey e.1 a.1 = false := by
        intro a ha
        rw [Bool.eq_false_iff, ne_eq, hnames.sameKey_iff List.mem_cons_self]
        intro hae
        have hne := hnew a ha
        rw [hae, hkey] at hne
        cases hne
      rw [if_pos hkey, value?_append_of_new hkey hbefore]
      exact congrArg (_ :: · ++ more) (revalued_append_of_ne hrest).symm
    · obtain ⟨d, hd, hdo⟩ := hfound
      have hdrest : d ∈ rest := by
        rcases List.mem_cons.1 hd with rfl | hd
        · exact absurd hdo hkey
        · exact hd
      rw [if_neg hkey, value?_append_of_ne (Bool.eq_false_iff.2 hkey)]
      exact congrArg (_ :: ·) (ih hnames.tail ⟨d, hdrest, hdo⟩)

theorem added_append (entries overrides : List (Data × Data)) (o : Data × Data) :
    added entries (overrides ++ [o]) =
      added entries overrides ++ if ∃ e ∈ entries, sameKey e.1 o.1 then [] else [o] := by
  rw [added, List.filter_append, added]
  refine congrArg _ ?_
  split
  · next hfound => simpa using hfound
  · next hfound => simpa using hfound

/-- One more override, of a key that none of the others has. -/
theorem putEntry_overridden (hnames : HaveNames entries)
    (hnew : ∀ a ∈ overrides, sameKey a.1 o.1 = false) :
    putEntry o.1 o.2 (overridden entries overrides) = overridden entries (overrides ++ [o]) := by
  rw [overridden, overridden, added_append]
  split
  · next hfound => rw [putEntry_revalued hnames hnew hfound, List.append_nil]
  · next hfound =>
    have hne : ∀ e ∈ entries, sameKey e.1 o.1 = false := by
      simpa using hfound
    rw [revalued_append_of_ne hne, ← List.append_assoc]
    refine putEntry_of_new fun d hd => ?_
    rcases List.mem_append.1 hd with hd | hd
    · obtain ⟨e, he, rfl⟩ := List.mem_map.1 hd
      exact hne e he
    · exact hnew d (List.mem_filter.1 hd).1

end

theorem mergeEntries_append (entries overrides : List (Data × Data)) (o : Data × Data) :
    mergeEntries entries (overrides ++ [o]) =
      putEntry o.1 o.2 (mergeEntries entries overrides) := by
  simp [mergeEntries]

/-- **Merging overrides.** -/
theorem mergeEntries_eq_overridden {entries overrides : List (Data × Data)}
    (hnames : HaveNames entries) (h : overrides.Pairwise HaveDistinctKeys) :
    mergeEntries entries overrides = overridden entries overrides := by
  induction overrides using List.reverseRecOn with
  | nil => simp [mergeEntries, overridden, revalued, added, value?]
  | append_singleton overrides o ih =>
    rw [List.pairwise_append] at h
    rw [mergeEntries_append, ih h.1]
    exact putEntry_overridden hnames fun a ha => h.2.2 a ha o (List.mem_singleton_self o)

theorem HaveNames.find?_eq {e : Data × Data} {entries : List (Data × Data)}
    (hnames : HaveNames entries) (he : e ∈ entries) :
    entries.find? (fun d => sameKey e.1 d.1) = some e := by
  induction entries with
  | nil => cases he
  | cons d rest ih =>
    rw [List.find?_cons]
    rcases List.mem_cons.1 he with rfl | he
    · rw [(hnames.sameKey_iff List.mem_cons_self e.1).2 rfl]
    · rw [hnames.head_ne he]
      exact ih hnames.tail he

/-- Overriding a record by itself changes nothing. -/
theorem overridden_self {entries : List (Data × Data)} (hnames : HaveNames entries) :
    overridden entries entries = entries := by
  have hrevalued : revalued entries entries = entries := by
    refine (List.map_congr_left fun e he => ?_).trans (List.map_id entries)
    rw [value?, hnames.find?_eq he]
    rfl
  have hadded : added entries entries = [] := by
    rw [added, List.filter_eq_nil_iff]
    intro e he hall
    have hself := List.all_eq_true.1 hall e he
    rw [(hnames.sameKey_iff he e.1).2 rfl] at hself
    cases hself
  rw [overridden, hrevalued, hadded, List.append_nil]

end StructuralEditor.Data
