/-
StructuralEditor/Proofs/Sources.lean

Documents from plain values keep the rules of every grammar.

A document comes from a value, at the start of a session, or from a JSON text,
by a paste.  As long as no node is hidden in the value (`Data.IsPlain`), all of
its nodes are made by the conversion, which gives numbers their canonical texts
and properties to objects only (`fits_toNode`).  What a JSON text is read as is
always plain: the reader goes through states that hold nothing but what tokens
have brought (`isPlain_value`).
-/
import StructuralEditor.Proofs.Conformity
import StructuralEditor.Proofs.Conversion
import StructuralEditor.Proofs.Validity

namespace StructuralEditor

open Document Number

/-! ### Plain values -/

/-- Whether no node is hidden in a value.  Keys do not count: the only ones that
can be converted are texts. -/
inductive Data.IsPlain : Data → Prop
  | null : IsPlain .null
  | boolean (value : Bool) : IsPlain (.boolean value)
  | integer (value : Int) : IsPlain (.integer value)
  | decimal (value : Double) : IsPlain (.decimal value)
  | text (value : String) : IsPlain (.text value)
  | list {items : List Data} (hitems : ∀ d ∈ items, IsPlain d) : IsPlain (.list items)
  | tuple {items : List Data} (hitems : ∀ d ∈ items, IsPlain d) : IsPlain (.tuple items)
  | record {entries : List (Data × Data)} (hentries : ∀ e ∈ entries, IsPlain e.2) :
      IsPlain (.record entries)
  | foreign (kind : Foreign) : IsPlain (.foreign kind)

namespace Data

variable {g : Grammar} {d : Data} {n : Node}

/-- **The node of a plain value keeps the rules**, and is no property. -/
theorem fits_toNode (hd : d.IsPlain) (h : d.toNode = .ok n) : g.Fits false n := by
  induction hd generalizing n with
  | null =>
    obtain rfl := Except.ok.inj h
    exact Editing.fits_null
  | boolean value =>
    obtain rfl := Except.ok.inj h
    exact ⟨fun _ => rfl, .boolean value⟩
  | integer value =>
    obtain rfl := Except.ok.inj h
    exact Grammar.fits_leaf fun _ => g.number_canonicalText _
  | decimal value =>
    obtain rfl := Except.ok.inj h
    exact Grammar.fits_leaf fun _ => g.number_canonicalText _
  | text value =>
    obtain rfl := Except.ok.inj h
    exact Grammar.fits_leaf (by simp)
  | @list items _ ih | @tuple items _ ih =>
    obtain ⟨nodes, rfl, hnodes⟩ := array_of_toNodes h
    refine Grammar.fits_group_iff.2 ⟨fun _ => rfl, fun m hm => ?_⟩
    obtain ⟨d, hd, hm⟩ := exists_mem_of_forall₂ hnodes.flip hm
    exact ih d hd hm
  | @record entries _ ih =>
    obtain ⟨properties, rfl, hproperties⟩ := object_of_toProperties h
    refine Grammar.fits_group_iff.2 ⟨fun _ => rfl, fun m hm => ?_⟩
    obtain ⟨e, he, name, value, -, hvalue, rfl⟩ := exists_mem_of_forall₂ hproperties.flip hm
    exact Grammar.fits_pair_iff.2 ⟨fun _ => rfl, Grammar.fits_leaf (by simp), ih e he hvalue⟩
  | foreign kind => cases h

theorem fits_toDocument (hd : d.IsPlain) (h : d.toDocument = .ok n) : g.Fits false n := by
  unfold toDocument at h
  split at h
  · cases hd
  · obtain ⟨node, hnode, rfl⟩ := map_eq_ok.1 h
    refine Grammar.fits_group_iff.2 ⟨fun _ => rfl, fun m hm => ?_⟩
    obtain rfl := List.mem_singleton.1 hm
    exact fits_toNode hd hnode

end Data

/-- The document that a session starts from, of a plain value, keeps the
rules. -/
theorem Session.fits_readingTree {g : Grammar} {reading : Reading} {source : Data} {tree : Node}
    (hsource : source.IsPlain) (h : reading.tree source = .ok tree) : g.Fits false tree := by
  obtain ⟨given, hgiven, hdocument, hvalue⟩ : ∃ given : Data, given.IsPlain ∧
      Reading.document.tree source = given.toDocument ∧
      Reading.value.tree source = given.toNode := by
    cases hsource with
    | null => exact ⟨.record [], .record (by simp), rfl, rfl⟩
    | _ => exact ⟨_, by constructor <;> assumption, rfl, rfl⟩
  cases reading with
  | document => exact Data.fits_toDocument hgiven (hdocument ▸ h)
  | value => exact Data.fits_toNode hgiven (hvalue ▸ h)

/-! ### JSON texts -/

namespace Json

/-- Whether a token brings no node. -/
def Token.IsPlain : Token → Prop
  | .value d => d.IsPlain
  | _ => True

theorem isPlain_numberToken? {cs : List Char} {token : Token} {length : Nat}
    (h : numberToken? cs = some (token, length)) : token.IsPlain := by
  revert h
  fun_cases numberToken? cs with
  | case1 => exact (nomatch ·)
  | case2 =>
    intro h
    obtain ⟨rfl, -⟩ := Prod.mk.inj (Option.some.inj h)
    -- an integer, or one with too many digits
    show Token.IsPlain (if _ then _ else _)
    split
    · trivial
    · exact .integer _
  | case3 =>
    intro h
    obtain ⟨rfl, -⟩ := Prod.mk.inj (Option.some.inj h)
    exact .decimal _

theorem isPlain_namedValues : ∀ named ∈ namedValues, named.2.IsPlain := by
  simp only [namedValues, List.forall_mem_cons, List.not_mem_nil, false_implies, implies_true,
    and_true]
  exact ⟨.null, .boolean _, .boolean _, .decimal _, .decimal _, .decimal _⟩

theorem isPlain_markToken? {c : Char} {token : Token} (h : markToken? c = some token) :
    token.IsPlain := by
  revert h
  fun_cases markToken? c with
  | case7 => exact (nomatch ·)
  | _ =>
    intro h
    obtain rfl := Option.some.inj h
    trivial

theorem isPlain_leadingToken (position : Nat) (first : Char) (rest : List Char) :
    (leadingToken position first rest).1.IsPlain := by
  unfold leadingToken
  split
  · next token hmark => exact isPlain_markToken? hmark
  · split
    · unfold textToken
      split <;> trivial
    · split
      · next name value hnamed => exact isPlain_namedValues _ (List.mem_of_find?_eq_some hnamed)
      · split
        · next token length hnumber => exact isPlain_numberToken? hnumber
        · trivial

theorem isPlain_tokens (position : Nat) (cs : List Char) :
    ∀ placed ∈ tokens position cs, placed.token.IsPlain := by
  fun_induction tokens position cs with
  | case1 => simp
  | case2 position c rest hgap ih => exact ih
  | case3 position c rest hgap found placed hlast =>
    intro other hother
    obtain rfl := List.mem_singleton.1 hother
    exact isPlain_leadingToken position c rest
  | case4 position c rest hgap found placed hlast ih =>
    intro other hother
    rcases List.mem_cons.1 hother with rfl | hother
    · exact isPlain_leadingToken position c rest
    · exact ih other hother

/-! #### States -/

/-- Whether an open container holds no node. -/
def Frame.IsPlain : Frame → Prop
  | .list items => ∀ d ∈ items, d.IsPlain
  | .record entries _ => ∀ e ∈ entries, e.2.IsPlain

/-- Whether nothing that has been read so far is a node. -/
def State.IsPlain : State → Prop
  | .valueDue _ enclosing => ∀ frame ∈ enclosing, frame.IsPlain
  | .nameDue _ entries enclosing | .colonDue entries _ enclosing | .entryDone entries enclosing =>
    (∀ e ∈ entries, e.2.IsPlain) ∧ ∀ frame ∈ enclosing, frame.IsPlain
  | .itemDone items enclosing => (∀ d ∈ items, d.IsPlain) ∧ ∀ frame ∈ enclosing, frame.IsPlain
  | .complete d => d.IsPlain

theorem isPlain_withValue {d : Data} {enclosing : List Frame} (hd : d.IsPlain)
    (henclosing : ∀ frame ∈ enclosing, frame.IsPlain) : (State.withValue d enclosing).IsPlain := by
  cases enclosing with
  | nil => exact hd
  | cons frame enclosing =>
    obtain ⟨hframe, hrest⟩ := List.forall_mem_cons.1 henclosing
    cases frame with
    | list items => exact ⟨List.forall_mem_cons.2 ⟨hd, hframe⟩, hrest⟩
    | record entries name => exact ⟨List.forall_mem_cons.2 ⟨hd, hframe⟩, hrest⟩

/-- The values of a record are among the values of its entries. -/
theorem isPlain_putEntry {key value : Data} {entries : List (Data × Data)} (hvalue : value.IsPlain)
    (hentries : ∀ e ∈ entries, e.2.IsPlain) :
    ∀ e ∈ Data.putEntry key value entries, e.2.IsPlain := by
  induction entries with
  | nil => simpa [Data.putEntry] using hvalue
  | cons entry entries ih =>
    obtain ⟨hentry, hrest⟩ := List.forall_mem_cons.1 hentries
    rw [Data.putEntry]
    split
    · exact List.forall_mem_cons.2 ⟨hvalue, hrest⟩
    · exact List.forall_mem_cons.2 ⟨hentry, ih hrest⟩

theorem isPlain_ofEntries {entries : List (Data × Data)} (hentries : ∀ e ∈ entries, e.2.IsPlain) :
    (Data.ofEntries entries).IsPlain := by
  have hmerge : ∀ merged : List (Data × Data), (∀ e ∈ merged, e.2.IsPlain) →
      ∀ e ∈ Data.mergeEntries merged entries, e.2.IsPlain := by
    induction entries with
    | nil => exact fun merged hmerged => hmerged
    | cons entry entries ih =>
      obtain ⟨hentry, hrest⟩ := List.forall_mem_cons.1 hentries
      exact fun merged hmerged => ih hrest _ (isPlain_putEntry hentry hmerged)
  exact .record (hmerge [] (by simp))

/-- A token that brings no node leaves a plain state behind. -/
theorem isPlain_step {limit : Option Nat} {state next : State} {placed : PlacedToken}
    (hstate : state.IsPlain) (htoken : placed.token.IsPlain)
    (h : step limit state placed = .ok next) : next.IsPlain := by
  revert h
  fun_cases step limit state placed with
  | case1 fresh enclosing =>
    rintro ⟨⟩
    exact List.forall_mem_cons.2 ⟨by simp [Frame.IsPlain], hstate⟩
  | case3 fresh enclosing =>
    rintro ⟨⟩
    exact ⟨by simp, hstate⟩
  | case5 fresh enclosing s =>
    rintro ⟨⟩
    exact isPlain_withValue (.text s) hstate
  | case6 fresh enclosing d hd =>
    rintro ⟨⟩
    rw [hd] at htoken
    exact isPlain_withValue htoken hstate
  | case7 enclosing =>
    rintro ⟨⟩
    exact isPlain_withValue (.list (by simp)) (List.forall_mem_cons.1 hstate).2
  | case9 fresh entries enclosing name =>
    rintro ⟨⟩
    exact hstate
  | case10 enclosing =>
    rintro ⟨⟩
    exact isPlain_withValue (.record (by simp)) hstate.2
  | case12 entries name enclosing =>
    rintro ⟨⟩
    exact List.forall_mem_cons.2 hstate
  | case13 items enclosing =>
    rintro ⟨⟩
    exact List.forall_mem_cons.2 hstate
  | case14 items enclosing =>
    rintro ⟨⟩
    exact isPlain_withValue (.list fun d hd => hstate.1 d (List.mem_reverse.1 hd)) hstate.2
  | case15 entries enclosing =>
    rintro ⟨⟩
    exact hstate
  | case16 entries enclosing =>
    rintro ⟨⟩
    exact isPlain_withValue
      (isPlain_ofEntries fun e he => hstate.1 e (List.mem_reverse.1 he)) hstate.2
  | _ => exact (nomatch ·)

theorem isPlain_foldlM {limit : Option Nat} {placed : List PlacedToken} {state next : State}
    (hstate : state.IsPlain) (hplaced : ∀ token ∈ placed, token.token.IsPlain)
    (h : placed.foldlM (step limit) state = .ok next) : next.IsPlain := by
  induction placed generalizing state with
  | nil =>
    obtain rfl := Except.ok.inj h
    exact hstate
  | cons token placed ih =>
    obtain ⟨htoken, hrest⟩ := List.forall_mem_cons.1 hplaced
    rw [List.foldlM_cons] at h
    obtain ⟨middle, hstep, h⟩ := bind_eq_ok.1 h
    exact ih (isPlain_step hstate htoken hstep) hrest h

/-- **A JSON text is read as a plain value.** -/
theorem isPlain_value {limit : Option Nat} {s : String} {d : Data} (h : value limit s = .ok d) :
    d.IsPlain := by
  unfold value at h
  simp only at h
  split at h
  · cases h
  · obtain ⟨state, hread, h⟩ := bind_eq_ok.1 h
    have hinitial : State.initial.IsPlain := by simp [State.initial, State.IsPlain]
    have hstate := isPlain_foldlM hinitial (isPlain_tokens 0 s.toList) hread
    split at h
    · obtain rfl := Except.ok.inj h
      exact hstate
    · cases h

end Json

/-- What a paste brings keeps the rules. -/
theorem Clipboard.fits_nodeOf {g : Grammar} {limits : Limits} {content : Data} {n : Node}
    (h : nodeOf limits content = .ok n) : g.Fits false n := by
  cases content with
  | text s =>
    simp only [nodeOf, nodeOfText] at h
    split at h
    · cases h
    · next d hd =>
      split at h
      · exact Data.fits_toNode (Json.isPlain_value hd) (mapError_eq_ok.1 h)
      · cases h
  | _ => cases h

end StructuralEditor
