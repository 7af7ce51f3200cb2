/-
StructuralEditor/Proofs/Location.lean

Locations and their texts.

A path splits at a slash into what its two sides split into (`splitAtSlashes_append`), so
the parts of a path are those of its pieces.  A location whose parts could have come from
a path is normal, and a normal one is what its text denotes (`Location.ofPath_text`): so to
read a path and to write it is to bring it to a normal form, and nothing changes if that is
done again.
-/
import StructuralEditor.Settings.Location
import Mathlib.Data.List.TakeWhile
import Mathlib.Tactic.Common

namespace StructuralEditor.Settings

/-! ### Splitting -/

theorem splitAtSlashes_ne_nil (cs : List Char) : splitAtSlashes cs ≠ [] := by
  induction cs with
  | nil => exact List.cons_ne_nil _ _
  | cons c cs ih =>
    unfold splitAtSlashes
    split
    · split <;> exact List.cons_ne_nil _ _
    · exact List.cons_ne_nil _ _

/-- The first part of a path goes on until a slash. -/
theorem splitAtSlashes_cons (c : Char) (cs : List Char) :
    ∃ part parts, splitAtSlashes cs = part :: parts ∧
      splitAtSlashes (c :: cs) =
        if c = '/' then [] :: part :: parts else (c :: part) :: parts := by
  obtain ⟨part, parts, h⟩ := List.exists_cons_of_ne_nil (splitAtSlashes_ne_nil cs)
  exact ⟨part, parts, h, by rw [splitAtSlashes, h]⟩

/-- The two sides of a slash are split by themselves. -/
theorem splitAtSlashes_append (cs ds : List Char) :
    splitAtSlashes (cs ++ '/' :: ds) = splitAtSlashes cs ++ splitAtSlashes ds := by
  induction cs with
  | nil =>
    obtain ⟨part, parts, h, hslash⟩ := splitAtSlashes_cons '/' ds
    rw [List.nil_append, hslash, if_pos rfl, h]
    rfl
  | cons c cs ih =>
    obtain ⟨part, parts, h, hleft⟩ := splitAtSlashes_cons c cs
    obtain ⟨part', parts', h', hboth⟩ := splitAtSlashes_cons c (cs ++ '/' :: ds)
    rw [ih, h, List.cons_append] at h'
    obtain ⟨rfl, rfl⟩ := List.cons.inj h'
    rw [List.cons_append, hboth, hleft]
    split <;> rfl

theorem splitAtSlashes_of_notMem {cs : List Char} (h : '/' ∉ cs) : splitAtSlashes cs = [cs] := by
  induction cs with
  | nil => rfl
  | cons c cs ih =>
    obtain ⟨hc, hcs⟩ := List.ne_and_not_mem_of_not_mem_cons h
    obtain ⟨part, parts, hsplit, hcons⟩ := splitAtSlashes_cons c cs
    rw [ih hcs] at hsplit
    obtain ⟨rfl, rfl⟩ := List.cons.inj hsplit
    rw [hcons, if_neg (Ne.symm hc)]

theorem notMem_of_mem_splitAtSlashes {cs part : List Char} (h : part ∈ splitAtSlashes cs) :
    '/' ∉ part := by
  induction cs generalizing part with
  | nil =>
    obtain rfl := List.mem_singleton.1 h
    exact List.not_mem_nil
  | cons c cs ih =>
    obtain ⟨first, rest, hsplit, hcons⟩ := splitAtSlashes_cons c cs
    rw [hsplit] at ih
    rw [hcons] at h
    split at h
    · rcases List.mem_cons.1 h with rfl | h
      · exact List.not_mem_nil
      · exact ih h
    · next hc =>
      rcases List.mem_cons.1 h with rfl | h
      · exact List.not_mem_cons_of_ne_of_not_mem (Ne.symm hc) (ih List.mem_cons_self)
      · exact ih (List.mem_cons_of_mem _ h)

namespace Location

/-! ### Parts -/

theorem partsOf_append (cs ds : List Char) :
    partsOf (cs ++ '/' :: ds) = partsOf cs ++ partsOf ds := by
  rw [partsOf, splitAtSlashes_append, List.map_append, List.filter_append]
  rfl

/-- **The parts of a path are those of its pieces**, wherever a slash cuts it. -/
theorem parts_ofPath_append (path below : String) :
    (ofPath (path ++ "/" ++ below)).parts = (ofPath path).parts ++ (ofPath below).parts := by
  simp only [ofPath, String.toList_append]
  rw [List.append_assoc]
  exact partsOf_append _ _

/-- Slashes in front add no parts. -/
theorem partsOf_slashes_append {slashes : List Char} (h : ∀ c ∈ slashes, c = '/')
    (cs : List Char) : partsOf (slashes ++ cs) = partsOf cs := by
  induction slashes with
  | nil => rfl
  | cons c slashes ih =>
    obtain ⟨rfl, hslashes⟩ := List.forall_mem_cons.1 h
    exact (partsOf_append [] (slashes ++ cs)).trans (ih hslashes)

/-- Slashes at the end add no parts. -/
theorem partsOf_append_slashes (cs : List Char) {slashes : List Char}
    (h : ∀ c ∈ slashes, c = '/') : partsOf (cs ++ slashes) = partsOf cs := by
  cases slashes with
  | nil => rw [List.append_nil]
  | cons c slashes =>
    obtain ⟨rfl, hslashes⟩ := List.forall_mem_cons.1 h
    have hnone : partsOf slashes = [] := by
      rw [← List.append_nil slashes]
      exact partsOf_slashes_append hslashes []
    rw [partsOf_append, hnone, List.append_nil]

/-! ### Normal locations -/

/-- What a location looks like that a path can denote. -/
structure IsNormal (l : Location) : Prop where
  root : l.root = "" ∨ l.root = "/" ∨ l.root = "//"
  part : ∀ part ∈ l.parts, part ≠ "" ∧ part ≠ "." ∧ '/' ∉ part.toList

theorem isNormal_ofPath (path : String) : (ofPath path).IsNormal where
  root := by
    unfold ofPath rootOf
    split
    · exact .inl rfl
    · exact .inr (.inr rfl)
    · exact .inr (.inl rfl)
  part := by
    intro part h
    obtain ⟨hmem, hkept⟩ := List.mem_filter.1 h
    obtain ⟨cs, hcs, rfl⟩ := List.mem_map.1 hmem
    obtain ⟨hne, hdot⟩ := of_decide_eq_true hkept
    exact ⟨hne, hdot, by simpa using notMem_of_mem_splitAtSlashes hcs⟩

theorem IsNormal.below {l : Location} (h : l.IsNormal) {name : String}
    (hname : name ≠ "" ∧ name ≠ "." ∧ '/' ∉ name.toList) : (l.below name).IsNormal where
  root := h.root
  part := List.forall_mem_append.2 ⟨h.part, List.forall_mem_singleton.2 hname⟩

/-- Parts with slashes between them are the parts of what they make up. -/
theorem parts_ofPath_intercalate {parts : List String}
    (h : ∀ part ∈ parts, part ≠ "" ∧ part ≠ "." ∧ '/' ∉ part.toList) :
    (ofPath ("/".intercalate parts)).parts = parts := by
  have hsingle {part : String} (hpart : part ≠ "" ∧ part ≠ "." ∧ '/' ∉ part.toList) :
      (ofPath part).parts = [part] := by
    rw [ofPath, partsOf, splitAtSlashes_of_notMem hpart.2.2]
    simp [hpart.1, hpart.2.1]
  induction parts with
  | nil => decide
  | cons part parts ih =>
    obtain ⟨hpart, hparts⟩ := List.forall_mem_cons.1 h
    cases parts with
    | nil => rw [String.intercalate_singleton, hsingle hpart]
    | cons next parts =>
      rw [String.intercalate_cons_cons, parts_ofPath_append, hsingle hpart, ih hparts]
      rfl

/-- What normal parts make up does not begin with a slash. -/
theorem takeWhile_intercalate {parts : List String}
    (h : ∀ part ∈ parts, part ≠ "" ∧ part ≠ "." ∧ '/' ∉ part.toList) :
    ("/".intercalate parts).toList.takeWhile (· = '/') = [] := by
  cases parts with
  | nil => rfl
  | cons part parts =>
    obtain ⟨hne, -, hslash⟩ := h part List.mem_cons_self
    have hchars : part.toList ≠ [] := fun hnil => hne (String.toList_eq_nil_iff.1 hnil)
    obtain ⟨c, cs, hpart⟩ := List.exists_cons_of_ne_nil hchars
    have hc : c ≠ '/' := by
      rintro rfl
      exact hslash (hpart ▸ List.mem_cons_self)
    cases parts with
    | nil => simp [hpart, hc]
    | cons next parts => simp [String.intercalate_cons_cons, hpart, hc]

/-- **A normal location is what its text denotes.** -/
theorem ofPath_text {l : Location} (h : l.IsNormal) : ofPath l.text = l := by
  unfold text
  split
  · next hempty =>
    cases l
    obtain ⟨rfl, rfl⟩ := hempty
    decide
  · have hslashes : ∀ c ∈ l.root.toList, c = '/' := by
      rcases h.root with hroot | hroot | hroot <;> simp [hroot]
    have hroot : rootOf (l.root.toList ++ ("/".intercalate l.parts).toList) = l.root := by
      rw [rootOf, List.takeWhile_append_of_pos (by simpa using hslashes),
        takeWhile_intercalate h.part, List.append_nil]
      rcases h.root with hroot | hroot | hroot <;> rw [hroot] <;> rfl
    have hparts : partsOf (l.root.toList ++ ("/".intercalate l.parts).toList) = l.parts :=
      (partsOf_slashes_append hslashes _).trans (parts_ofPath_intercalate h.part)
    rw [ofPath, String.toList_append, hroot, hparts]

/-- Bringing a path to its normal form once more changes nothing. -/
theorem ofPath_text_ofPath (path : String) : ofPath (ofPath path).text = ofPath path :=
  ofPath_text (isNormal_ofPath path)

example : (ofPath "//home/./user//..").text = "//home/user/.." := by decide

/-! ### The environment -/

/-- Slashes at the end of a path do not count, unless there is nothing else. -/
theorem ofPath_append_slashes {cs slashes : List Char} (hcs : ∃ c ∈ cs, c ≠ '/')
    (hslashes : ∀ c ∈ slashes, c = '/') :
    ofPath (.ofList (cs ++ slashes)) = ofPath (.ofList cs) := by
  have hroot : rootOf (cs ++ slashes) = rootOf cs := by
    rw [rootOf, List.takeWhile_append, if_neg]
    · rfl
    · intro hlength
      have hall := List.takeWhile_eq_self_iff.1 ((List.takeWhile_prefix _).eq_of_length hlength)
      obtain ⟨c, hmem, hc⟩ := hcs
      exact hc (of_decide_eq_true (hall c hmem))
  rw [ofPath, ofPath, String.toList_ofList, String.toList_ofList, hroot,
    partsOf_append_slashes cs hslashes]

/-- A path is what is left without the slashes at its end, and these slashes. -/
theorem exists_append_slashes (cs : List Char) :
    ∃ slashes, (∀ c ∈ slashes, c = '/') ∧
      cs = (cs.reverse.dropWhile (· = '/')).reverse ++ slashes := by
  refine ⟨(cs.reverse.takeWhile (· = '/')).reverse, fun c hc => ?_, ?_⟩
  · have hslash := List.mem_takeWhile_imp (p := (· = '/')) (List.mem_reverse.1 hc)
    exact of_decide_eq_true hslash
  · rw [← List.reverse_append, List.takeWhile_append_dropWhile, List.reverse_reverse]

/-- What is left, if anything, has more to it than slashes. -/
theorem exists_ne_slash {cs left : List Char}
    (h : (cs.reverse.dropWhile (· = '/')).reverse = left) (hne : left ≠ []) :
    ∃ c ∈ left, c ≠ '/' := by
  have hleft : cs.reverse.dropWhile (· = '/') ≠ [] := by
    rintro hnil
    exact hne (by rw [← h, hnil]; rfl)
  refine ⟨_, ?_, of_decide_eq_false (List.head_dropWhile_not _ hleft)⟩
  rw [← h]
  exact List.mem_reverse.2 (List.head_mem hleft)

/-- **The home directory.**  Nothing but slashes is the root directory, and a path that begins
with a tilde is none; any other one is the location that it denotes, slashes at its end or not. -/
theorem home?_eq (home : String) :
    home? home =
      if home.toList.head? = some '~' then none
      else if home.toList.all (· = '/') then some (ofPath "/")
      else some (ofPath home) := by
  obtain ⟨slashes, hslashes, hsplit⟩ := exists_append_slashes home.toList
  unfold home?
  generalize hleft : (home.toList.reverse.dropWhile (· = '/')).reverse = left at hsplit ⊢
  rcases left with - | ⟨first, rest⟩
  · rw [hsplit, List.nil_append, if_neg, if_pos (by simpa using hslashes)]
    intro htilde
    exact absurd (hslashes '~' (List.mem_of_head? htilde)) (by decide)
  · have hother := exists_ne_slash hleft (List.cons_ne_nil _ _)
    have hhome : ofPath home = ofPath (.ofList (first :: rest)) := by
      rw [← ofPath_append_slashes hother hslashes, ← hsplit, String.ofList_toList]
    have hmixed : home.toList.all (· = '/') = false := by
      obtain ⟨c, hmem, hc⟩ := hother
      exact List.all_eq_false.2 ⟨c, hsplit ▸ List.mem_append_left _ hmem, by simpa using hc⟩
    rw [hmixed, if_neg Bool.false_ne_true, hhome, hsplit, List.cons_append, List.head?_cons]
    by_cases htilde : first = '~'
    · subst htilde
      rfl
    · rw [if_neg (by simpa using htilde)]
      dsimp only
      split
      · next heq => exact absurd (List.cons.inj heq).1 htilde
      · next heq => exact absurd heq (List.cons_ne_nil _ _)
      · rfl

/-- Naming the empty directory is to name none. -/
theorem ofEnvironment?_eq (override? : Option String) (home : String) :
    ofEnvironment? override? home =
      if override?.getD "" = "" then (home? home).map (·.below ".astedit")
      else some (ofPath (override?.getD "")) := by
  rcases override? with - | path
  · rfl
  · by_cases hpath : path = ""
    · subst hpath
      rfl
    · rw [Option.getD_some, if_neg hpath]
      unfold ofEnvironment?
      split
      · next heq => cases heq
      · next heq => exact absurd (Option.some.inj heq) hpath
      · next heq => cases heq; rfl

/-- **Whether it is known where the settings are kept.**  It is not only if the environment
names no directory and the home is none. -/
theorem ofEnvironment?_eq_none_iff {override? : Option String} {home : String} :
    ofEnvironment? override? home = none ↔
      override?.getD "" = "" ∧ home.toList.head? = some '~' := by
  rw [ofEnvironment?_eq, home?_eq]
  split_ifs <;> simp [*]

/-- **Where the settings are kept.**  A known location is normal.  It is the named directory, if
there is one, and the one for settings below the home otherwise. -/
theorem ofEnvironment?_eq_some {override? : Option String} {home : String} {l : Location}
    (h : ofEnvironment? override? home = some l) :
    ofPath l.text = l ∧
      if override?.getD "" = "" then l.parts = (ofPath home).parts ++ [".astedit"]
      else l = ofPath (override?.getD "") := by
  have hname : ".astedit" ≠ "" ∧ ".astedit" ≠ "." ∧ '/' ∉ ".astedit".toList := by decide
  rw [ofEnvironment?_eq] at h
  split at h
  · next hnone =>
    rw [if_pos hnone]
    obtain ⟨directory, hhome, rfl⟩ := Option.map_eq_some_iff.1 h
    rw [home?_eq] at hhome
    split_ifs at hhome with htilde hslashes
    · obtain rfl := Option.some.inj hhome
      have hparts : (ofPath home).parts = [] :=
        partsOf_append_slashes [] fun c hc => of_decide_eq_true (List.all_eq_true.1 hslashes c hc)
      exact ⟨ofPath_text ((isNormal_ofPath "/").below hname), by rw [hparts]; decide⟩
    · obtain rfl := Option.some.inj hhome
      exact ⟨ofPath_text ((isNormal_ofPath home).below hname), rfl⟩
  · next hsome =>
    rw [if_neg hsome]
    obtain rfl := Option.some.inj h
    exact ⟨ofPath_text_ofPath _, rfl⟩

end Location

end StructuralEditor.Settings
