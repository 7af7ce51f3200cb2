/-
StructuralEditor/Proofs/RoundTrip.lean

What is copied can be pasted: the source of a node that stands for a JSON value
is read back as that node.

Reading is followed piece by piece.  A piece of text takes the reader from one
state to another (`Reads`), wherever it stands and whatever delimited text comes
after it, and pieces are put together in the order in which the source is
written: marks, blanks and tokens by one lemma each, and lists by induction over
their items.  For every node of the right shape this gives a value which its
source is read as and which is converted to it (`Means`); the number texts are
where the two halves meet, since the reader knows integers and doubles and the
node has only a text.
-/
import Mathlib.Data.List.Forall2
import StructuralEditor.Clipboard
import StructuralEditor.Document.Source
import StructuralEditor.Proofs.Notation
import StructuralEditor.Proofs.Records
import StructuralEditor.Proofs.Tokens

namespace StructuralEditor.Json

open Document Number

/-! ### Reading a piece of text -/

/-- The state after the characters from a position on, with any number of
containers open. -/
def readFrom (position : Nat) (cs : List Char) (state : State) : Except Problem State :=
  (tokens position cs).foldlM (step none) state

/-- Whether characters take the reader from one state to another, in front of
anything that could not continue a number. -/
def Reads (cs : List Char) (before after : State) : Prop :=
  ∀ position rest, IsDelimited rest →
    readFrom position (cs ++ rest) before = readFrom (position + cs.length) rest after

theorem readFrom_nil (position : Nat) (s : State) : readFrom position [] s = .ok s := by
  rw [readFrom, tokens]
  rfl

theorem tokens_gap {c : Char} (hc : isGap c = true) (position : Nat) (rest : List Char) :
    tokens position (c :: rest) = tokens (position + 1) rest := by
  rw [tokens, if_pos hc]

theorem tokens_token {token : Token} {cs : List Char} (htoken : token.IsReadFrom cs)
    (hlast : token.isLast = false) (position : Nat) {rest : List Char} (hrest : IsDelimited rest) :
    tokens position (cs ++ rest) = ⟨position, token⟩ :: tokens (position + cs.length) rest := by
  obtain ⟨first, more, rfl, hgap, hleading⟩ := htoken
  rw [List.cons_append, tokens, if_neg (by simp [hgap])]
  simp only [hleading position rest hrest, hlast, Bool.false_eq_true, if_false, List.drop_left,
    List.length_cons]
  rw [Nat.add_right_comm, Nat.add_assoc]

/-- A mark is a token of its own, whatever comes after it. -/
theorem tokens_mark {token : Token} {c : Char} (hmark : markToken? c = some token) (position : Nat)
    (rest : List Char) :
    tokens position (c :: rest) = ⟨position, token⟩ :: tokens (position + 1) rest := by
  have hmarks : isGap c = false ∧ token.isLast = false := by
    revert hmark
    fun_cases markToken? c with
    | case7 => intro hmark; cases hmark
    | _ =>
      intro hmark
      obtain rfl := Option.some.inj hmark
      subst_vars
      decide
  rw [tokens, if_neg (by simp [hmarks.1])]
  simp [leadingToken, hmark, hmarks.2]

namespace Reads

variable {cs ds : List Char} {s t u : State}

theorem gap {c : Char} (hc : isGap c = true) (h : Reads cs s t) : Reads (c :: cs) s t := by
  intro position rest hrest
  rw [List.cons_append, readFrom, tokens_gap hc]
  have hread := h (position + 1) rest hrest
  rw [List.length_cons, ← Nat.add_assoc, Nat.add_right_comm]
  exact hread

/-- The blanks in front of a line do not count. -/
theorem indentation (level : Nat) (h : Reads cs s t) :
    Reads ((Document.indentation level).toList ++ cs) s t := by
  rw [Document.indentation, String.toList_ofList]
  -- blank by blank
  generalize 2 * level = n
  induction n with
  | zero => exact h
  | succ n ih => exact ih.gap (by decide)

theorem token {token : Token} (htoken : token.IsReadFrom cs) (hlast : token.isLast = false)
    (hstep : ∀ position, step none s ⟨position, token⟩ = .ok t) : Reads cs s t := by
  intro position rest hrest
  rw [readFrom, tokens_token htoken hlast position hrest, List.foldlM_cons, hstep]
  rfl

theorem mark {token : Token} {c : Char} (hmark : markToken? c = some token)
    (hstep : ∀ position, step none s ⟨position, token⟩ = .ok t) (h : Reads cs t u) :
    Reads (c :: cs) s u := by
  intro position rest hrest
  rw [List.cons_append, readFrom, tokens_mark hmark, List.foldlM_cons, hstep]
  have hread := h (position + 1) rest hrest
  rw [List.length_cons, ← Nat.add_assoc, Nat.add_right_comm]
  exact hread

theorem nil (s : State) : Reads [] s s :=
  fun _ _ _ => rfl

theorem append (hcs : Reads cs s t) (hds : Reads ds t u) (hdelimited : IsDelimited ds) :
    Reads (cs ++ ds) s u := by
  intro position rest hrest
  rw [List.append_assoc, hcs position _ (hdelimited.append hrest), hds _ _ hrest,
    List.length_append, Nat.add_assoc]

end Reads

end StructuralEditor.Json

/-! ### Nodes of JSON values -/

namespace StructuralEditor.Document

open Json Number

/-- The property of an entry. -/
def propertyOf (entry : String × Node) : Node :=
  .property (.string entry.1) entry.2

/-- Whether a node stands for a JSON value: numbers have their canonical text,
and an object has a value for each of some distinct names. -/
inductive Node.IsJson : Node → Prop
  | null : IsJson .null
  | boolean (b : Bool) : IsJson (.boolean b)
  | string (s : String) : IsJson (.string s)
  | number {text : String} (h : IsCanonical text) : IsJson (.number text)
  | array {items : List Node} (h : ∀ n ∈ items, IsJson n) : IsJson (.array items)
  | object {entries : List (String × Node)} (h : ∀ e ∈ entries, IsJson e.2)
    (hnames : (entries.map Prod.fst).Nodup) : IsJson (.object (entries.map propertyOf))

/-- Whether a node is converted from a value that its source is read as. -/
structure Means (n : Node) (d : Data) : Prop where
  node : d.toNode = .ok n
  reads : ∀ level fresh enclosing,
    Reads (sourceAt level n).toList (.valueDue fresh enclosing) (.withValue d enclosing)

/-! #### Leaves -/

theorem Means.of_token {n : Node} {d : Data} {source : String} (hnode : d.toNode = .ok n)
    (hsource : ∀ level, sourceAt level n = source)
    (htoken : (Token.value d).IsReadFrom source.toList) :
    Means n d where
  node := hnode
  reads level fresh enclosing := by
    rw [hsource level]
    exact .token htoken rfl fun _ => rfl

theorem Means.of_name {n : Node} {d : Data} (name : String)
    (hname : (name.toList, d) ∈ namedValues) (hnode : d.toNode = .ok n)
    (hsource : ∀ level, sourceAt level n = name) : Means n d :=
  .of_token hnode hsource (isReadFrom_name hname)

theorem means_null : Means .null .null :=
  .of_name "null" (by simp [namedValues]) rfl fun _ => rfl

theorem means_boolean (b : Bool) : Means (.boolean b) (.boolean b) := by
  cases b with
  | true => exact .of_name "true" (by simp [namedValues]) rfl fun _ => rfl
  | false => exact .of_name "false" (by simp [namedValues]) rfl fun _ => rfl

theorem means_string (s : String) : Means (.string s) (.text s) where
  node := rfl
  reads _ _ _ := .token (isReadFrom_quoted s) rfl fun _ => rfl

theorem means_notANumber : Means (.number Double.notANumber.canonicalText) (.decimal .notANumber) :=
  .of_name "NaN" (by simp [namedValues]) rfl fun _ => rfl

theorem means_infinite (negative : Bool) :
    Means (.number (Double.infinite negative).canonicalText) (.decimal (.infinite negative)) := by
  cases negative with
  | true => exact .of_name "-Infinity" (by simp [namedValues]) rfl fun _ => rfl
  | false => exact .of_name "Infinity" (by simp [namedValues]) rfl fun _ => rfl

/-- An integer and a double that are spelled alike have the same canonical
text. -/
theorem toNode_valueOf (x : Spelling) :
    (valueOf x).toNode = .ok (.number x.value.canonicalText) := by
  unfold valueOf
  split
  · next hwhole => rw [Data.toNode, x.canonicalText_ofInt hwhole]
  · rfl

/-- The value that a canonical text is read as has that text again. -/
theorem exists_means_number {text : String} (h : IsCanonical text) :
    ∃ d, Means (.number text) d := by
  have htext : (Double.ofLeading text).canonicalText = text := h
  -- infinities and what is not a number have names, all other numbers are spelled
  rcases hvalue : Double.ofLeading text with - | negative | ⟨negative, m⟩
  · rw [← htext, hvalue]
    exact ⟨_, means_notANumber⟩
  · rw [← htext, hvalue]
    exact ⟨_, means_infinite negative⟩
  · obtain ⟨x, hchars, hlength, -⟩ := exists_spelling negative m
    have hspelled : text = String.ofList x.chars := by rw [← hchars, ← hvalue, htext]
    have hx : x.value.canonicalText = text := by rw [← x.ofLeading_chars, ← hspelled, htext]
    have hnode := toNode_valueOf x
    rw [hx] at hnode
    refine ⟨valueOf x, .of_token hnode (fun _ => rfl) ?_⟩
    rw [hspelled, String.toList_ofList]
    exact isReadFrom_chars x fun hwhole => Nat.le_trans (hlength hwhole) (by decide +kernel)

/-! #### Arrays -/

theorem toNodes_of_means {items : List Node} {ds : List Data} (h : List.Forall₂ Means items ds) :
    Data.toNodes ds = .ok items := by
  induction h with
  | nil => rfl
  | cons hmeans _ ih => simp [Data.toNodes, hmeans.node, ih, bind, Except.bind]

/-- The items of an array are read after the ones that have been read, up to the
closing mark. -/
theorem reads_items {n : Node} {d : Data} {items : List Node} {ds : List Data} (hd : Means n d)
    (h : List.Forall₂ Means items ds) (level : Nat) (fresh : Bool) (done : List Data)
    (enclosing : List Frame) :
    Reads ((", ".intercalate (sourcesAt level (n :: items))).toList ++ [']'])
      (.valueDue fresh (.list done :: enclosing))
      (.withValue (.list (done.reverse ++ d :: ds)) enclosing) := by
  induction h generalizing n d fresh done with
  | nil =>
    rw [sourcesAt, sourcesAt, String.intercalate_singleton]
    refine (hd.reads level fresh (.list done :: enclosing)).append ?_ (.cons (by decide))
    refine .mark rfl (fun _ => ?_) (.nil _)
    simp [step, State.withValue]
  | cons hmeans _ ih =>
    rw [sourcesAt, sourcesAt, String.intercalate_cons_cons, String.toList_append,
      String.toList_append, List.append_assoc, List.append_assoc]
    refine (hd.reads level fresh (.list done :: enclosing)).append ?_ (.cons (by decide))
    -- after the comma the item is one of those that have been read
    refine .mark (rfl : markToken? ',' = some .comma) (fun _ => rfl) (.gap (by decide) ?_)
    have hrest := ih hmeans false (d :: done)
    rw [List.reverse_cons, List.append_assoc] at hrest
    exact hrest

theorem means_array {items : List Node} {ds : List Data} (h : List.Forall₂ Means items ds) :
    Means (.array items) (.list ds) where
  node := by rw [Data.toNode, toNodes_of_means h]; rfl
  reads level fresh enclosing := by
    rw [sourceAt]
    simp only [String.toList_append, List.append_assoc]
    refine .mark (rfl : markToken? '[' = some .openList) (fun _ => rfl) ?_
    cases h with
    | nil => exact .mark rfl (fun _ => rfl) (.nil _)
    | cons hmeans hrest => exact reads_items hmeans hrest level true [] enclosing

/-! #### Objects -/

/-- Whether an entry of a record is what an entry of an object is read as. -/
def EntryMeans (entry : String × Node) (e : Data × Data) : Prop :=
  e.1 = .text entry.1 ∧ Means entry.2 e.2

/-- The lines of an object's properties. -/
def linesAt (level : Nat) (entries : List (String × Node)) : List String :=
  (sourcesAt (level + 1) (entries.map propertyOf)).map (indentation (level + 1) ++ ·)

theorem toProperties_of_means {entries : List (String × Node)} {es : List (Data × Data)}
    (h : List.Forall₂ EntryMeans entries es) :
    Data.toProperties es = .ok (entries.map propertyOf) := by
  induction h with
  | nil => rfl
  | @cons entry e _ _ hentry _ ih =>
    obtain ⟨key, d⟩ := e
    obtain ⟨rfl, hmeans⟩ := hentry
    simp [Data.toProperties, hmeans.node, ih, bind, Except.bind, propertyOf]

/-- The line of a property is read as an entry. -/
theorem reads_line {entry : String × Node} {d : Data} (h : Means entry.2 d) (level : Nat)
    (fresh : Bool) (done : List (Data × Data)) (enclosing : List Frame) :
    Reads (indentation level ++ sourceAt level (propertyOf entry)).toList
      (.nameDue fresh done enclosing) (.entryDone ((.text entry.1, d) :: done) enclosing) := by
  have hname : Reads (Text.quoted entry.1).toList (.nameDue fresh done enclosing)
      (.colonDue done entry.1 enclosing) := by
    apply Reads.token (isReadFrom_quoted entry.1) rfl
    intro position
    cases fresh <;> cases done <;> rfl
  have hvalue : Reads (' ' :: (sourceAt level entry.2).toList) (.valueDue false
      (.record done entry.1 :: enclosing)) (.entryDone ((.text entry.1, d) :: done) enclosing) :=
    .gap (by decide) (h.reads level false _)
  rw [String.toList_append, propertyOf, sourceAt]
  refine .indentation level ?_
  simp only [String.toList_append, List.append_assoc]
  refine hname.append ?_ (.cons (by decide))
  exact .mark (rfl : markToken? ':' = some .colon) (fun _ => rfl) hvalue

theorem linesAt_cons (level : Nat) (entry : String × Node) (entries : List (String × Node)) :
    linesAt level (entry :: entries) =
      (indentation (level + 1) ++ sourceAt (level + 1) (propertyOf entry)) ::
        linesAt level entries := by
  simp only [linesAt, List.map_cons, sourcesAt]

/-- The lines of an object are read after the ones that have been read, up to
the closing mark. -/
theorem reads_lines {entry : String × Node} {e : Data × Data} {entries : List (String × Node)}
    {es : List (Data × Data)} (he : EntryMeans entry e) (h : List.Forall₂ EntryMeans entries es)
    (level : Nat) (fresh : Bool) (done : List (Data × Data)) (enclosing : List Frame) :
    Reads ((",\n".intercalate (linesAt level (entry :: entries))).toList ++
        '\n' :: ((indentation level).toList ++ ['\x7d']))
      (.nameDue fresh done enclosing)
      (.withValue (.ofEntries (done.reverse ++ e :: es)) enclosing) := by
  induction h generalizing entry e fresh done with
  | nil =>
    obtain ⟨key, d⟩ := e
    obtain ⟨rfl, hmeans⟩ := he
    rw [linesAt_cons, linesAt, List.map_nil, sourcesAt, List.map_nil, String.intercalate_singleton]
    refine (reads_line hmeans (level + 1) fresh done enclosing).append ?_ (.cons (by decide))
    refine .gap (by decide) (.indentation level ?_)
    refine .mark rfl (fun _ => ?_) (.nil _)
    simp [step]
  | cons hmeans' _ ih =>
    obtain ⟨key, d⟩ := e
    obtain ⟨rfl, hmeans⟩ := he
    rw [linesAt_cons, linesAt_cons, String.intercalate_cons_cons, ← linesAt_cons,
      String.toList_append, String.toList_append, List.append_assoc, List.append_assoc]
    refine (reads_line hmeans (level + 1) fresh done enclosing).append ?_ (.cons (by decide))
    refine .mark (rfl : markToken? ',' = some .comma) (fun _ => rfl) (.gap (by decide) ?_)
    have hrest := ih hmeans' false ((.text entry.1, d) :: done)
    rw [List.reverse_cons, List.append_assoc] at hrest
    exact hrest

theorem map_fst_of_means {entries : List (String × Node)} {es : List (Data × Data)}
    (h : List.Forall₂ EntryMeans entries es) :
    es.map Prod.fst = (entries.map Prod.fst).map Data.text := by
  induction h with
  | nil => rfl
  | cons hentry _ ih => rw [List.map_cons, List.map_cons, List.map_cons, hentry.1, ih]

/-- Distinct names are distinct keys. -/
theorem distinctKeys_of_means {entries : List (String × Node)} {es : List (Data × Data)}
    (h : List.Forall₂ EntryMeans entries es) (hnames : (entries.map Prod.fst).Nodup) :
    es.Pairwise Data.HaveDistinctKeys := by
  have hkeys : (es.map Prod.fst).Pairwise fun a b => Data.sameKey a b = false := by
    rw [map_fst_of_means h, List.pairwise_map]
    refine hnames.imp fun hne => ?_
    rw [Data.sameKey, beq_eq_false_iff_ne]
    exact hne
  rw [List.pairwise_map] at hkeys
  exact hkeys

theorem means_object {entries : List (String × Node)} {es : List (Data × Data)}
    (h : List.Forall₂ EntryMeans entries es) (hnames : (entries.map Prod.fst).Nodup) :
    Means (.object (entries.map propertyOf)) (.record es) where
  node := by rw [Data.toNode, toProperties_of_means h]; rfl
  reads level fresh enclosing := by
    rw [sourceAt]
    cases h with
    | nil =>
      simp only [List.map_nil, List.isEmpty_nil, if_true]
      refine .mark (rfl : markToken? '\x7b' = some .openRecord) (fun _ => rfl) ?_
      exact .mark (rfl : markToken? '\x7d' = some .closeRecord) (fun _ => rfl) (.nil _)
    | @cons entry e entries es hentry hrest =>
      -- the entries are merged into a record, which changes nothing for distinct names
      have hdistinct := distinctKeys_of_means (.cons hentry hrest) hnames
      have hread := reads_lines hentry hrest level true [] enclosing
      rw [List.reverse_nil, List.nil_append, Data.ofEntries_of_distinct hdistinct] at hread
      simp only [List.map_cons, List.isEmpty_cons, Bool.false_eq_true, if_false,
        String.toList_append, List.append_assoc]
      refine .mark (rfl : markToken? '\x7b' = some .openRecord) (fun _ => rfl) (.gap (by decide) ?_)
      exact hread

/-! #### All nodes -/

theorem exists_forall₂ {α β : Type} {R : α → β → Prop} {as : List α}
    (h : ∀ a ∈ as, ∃ b, R a b) :
    ∃ bs, List.Forall₂ R as bs := by
  induction as with
  | nil => exact ⟨[], .nil⟩
  | cons a as ih =>
    obtain ⟨b, hb⟩ := h a List.mem_cons_self
    have hrest : ∀ a' ∈ as, ∃ b, R a' b := by
      intro a' ha'
      exact h a' (List.mem_cons_of_mem _ ha')
    obtain ⟨bs, hbs⟩ := ih hrest
    exact ⟨b :: bs, .cons hb hbs⟩

/-- Every node that stands for a JSON value is read back from its source. -/
theorem Node.IsJson.exists_means {n : Node} (h : n.IsJson) : ∃ d, Means n d := by
  induction h with
  | null => exact ⟨_, means_null⟩
  | boolean b => exact ⟨_, means_boolean b⟩
  | string s => exact ⟨_, means_string s⟩
  | number h => exact exists_means_number h
  | array _ ih =>
    obtain ⟨ds, hds⟩ := exists_forall₂ ih
    exact ⟨_, means_array hds⟩
  | @object entries _ hnames ih =>
    have hentries : ∀ entry ∈ entries, ∃ e, EntryMeans entry e := by
      intro entry hentry
      obtain ⟨d, hd⟩ := ih entry hentry
      exact ⟨(.text entry.1, d), rfl, hd⟩
    obtain ⟨es, hes⟩ := exists_forall₂ hentries
    exact ⟨_, means_object hes hnames⟩

end StructuralEditor.Document

/-! ### The clipboard -/

namespace StructuralEditor.Clipboard

open Document Json Number

/-- A text that is read begins with no byte order mark. -/
theorem head?_of_reads {cs : List Char} {fresh : Bool} {enclosing : List Frame} {after : State}
    (h : Reads cs (.valueDue fresh enclosing) after) : cs.head? ≠ some '\ufeff' := by
  intro hhead
  obtain ⟨rest, rfl⟩ : ∃ rest, cs = '\ufeff' :: rest := by
    cases cs with
    | nil => cases hhead
    | cons c rest => exact ⟨rest, by rw [Option.some.inj hhead]⟩
  -- the mark is no token, so the reader would fail at it
  have hread := h 0 [] .nil
  have hunknown : leadingToken 0 '\ufeff' rest = (.unknown, 0) := rfl
  rw [readFrom_nil, readFrom, List.append_nil, tokens, if_neg (by decide)] at hread
  simp only [hunknown] at hread
  cases hread

theorem value_of_means {n : Node} {d : Data} (h : Means n d) :
    Json.value none n.source = .ok d := by
  have hreads := h.reads 0 false []
  have hread := hreads 0 [] .nil
  rw [List.append_nil, readFrom_nil] at hread
  have hfold : (tokens 0 n.source.toList).foldlM (step none) State.initial =
      .ok (.complete d) := hread
  have hhead : n.source.toList.head? ≠ some '\ufeff' := head?_of_reads hreads
  rw [Json.value]
  simp only [if_neg hhead, hfold]
  rfl

/-- **What is copied can be pasted.**  Without limits on the nesting, the source
of a node that stands for a JSON value is turned back into that node, and so is
the source of a program with that node alone. -/
theorem nodeOf_source {n : Node} (h : n.IsJson) :
    nodeOf .unlimited (.text n.source) = .ok n ∧
      nodeOf .unlimited (.text (Node.program [n]).source) = .ok n := by
  obtain ⟨d, hd⟩ := h.exists_means
  have hnode : nodeOf .unlimited (.text n.source) = .ok n := by
    rw [nodeOf, nodeOfText, Limits.unlimited]
    simp only [value_of_means hd, Option.all_none, if_true, hd.node]
    rfl
  have hprogram : (Node.program [n]).source = n.source := by
    simp only [Node.source, sourceAt, sourcesAt, String.intercalate_singleton]
  exact ⟨hnode, by rw [hprogram, hnode]⟩

/-- An object in which names with escapes, numbers of all kinds and empty
containers occur. -/
theorem nodeOf_source_nested :
    let numbers := Node.array [.number "-1.5e-7", .number "100", .number "NaN", .number "-Infinity"]
    let n := Node.object ([("a\n\"\x01", numbers), ("", .object []), ("é", .null)].map propertyOf)
    n.IsJson ∧ nodeOf .unlimited (.text n.source) = .ok n ∧
      nodeOf .unlimited (.text (Node.program [n]).source) = .ok n := by
  intro numbers n
  have hnumbers : numbers.IsJson := by
    refine .array fun m hm => ?_
    simp only [List.mem_cons, List.not_mem_nil, or_false] at hm
    rcases hm with rfl | rfl | rfl | rfl
    · exact .number (by decide +kernel)
    · exact .number (by decide +kernel)
    · exact .number (by decide +kernel)
    · exact .number (by decide +kernel)
  have hn : n.IsJson := by
    refine .object (fun e he => ?_) (by decide)
    simp only [List.mem_cons, List.not_mem_nil, or_false] at he
    rcases he with rfl | rfl | rfl
    · exact hnumbers
    · exact @Node.IsJson.object [] (by simp) (by simp)
    · exact .null
  exact ⟨hn, nodeOf_source hn⟩

end StructuralEditor.Clipboard
