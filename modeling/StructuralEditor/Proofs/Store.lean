/-
StructuralEditor/Proofs/Store.lean

The laws of reading and writing by path.  A content has a *sort* (a node, a
list, a text or a flag) and a slot takes contents of its own sort only, so
everything here is about one question: a write succeeds exactly when the slot
is there and the sorts agree, and what it writes is what a later read finds.

The laws come in three layers, one for each recursion of the store:

* a named field of a node (`Node.field?`, `Node.withField?`), by cases on the
  slots that a node has (`Node.Rewrites`);
* one step of a path (`Content.child?`, `Content.withChild?`);
* a whole path (`Content.get?`, `Content.put?`), by induction on the path.

The last section turns them into one lemma for each operation on documents:
`set_eq_ok`, `insertAt_eq_ok` and `put?_deleteAt`.  Two writes at nested places
are one write at the outer place (`Content.put?_append`), and of two writes at
one place the second counts (`Content.put?_put?`); between them these two
compute every composite edit.
-/
import StructuralEditor.Document.Store

namespace StructuralEditor.Document

/-! ### Sorts -/

/-- What kind of slot a content belongs in. -/
inductive ContentSort where
  | node
  | items
  | text
  | flag
  deriving DecidableEq

/-- The sort of a content. -/
def Content.sort : Content → ContentSort
  | .node _ => .node
  | .items _ => .items
  | .text _ => .text
  | .flag _ => .flag

@[simp] theorem Content.sort_node (n : Node) : (Content.node n).sort = .node := rfl
@[simp] theorem Content.sort_items (ns : List Node) : (Content.items ns).sort = .items := rfl
@[simp] theorem Content.sort_text (s : String) : (Content.text s).sort = .text := rfl
@[simp] theorem Content.sort_flag (b : Bool) : (Content.flag b).sort = .flag := rfl

theorem Content.eq_node_of_sort {c : Content} (h : c.sort = .node) : ∃ n, c = .node n := by
  cases c <;> simp_all [Content.sort]

theorem Content.eq_items_of_sort {c : Content} (h : c.sort = .items) : ∃ ns, c = .items ns := by
  cases c <;> simp_all [Content.sort]

theorem Content.eq_text_of_sort {c : Content} (h : c.sort = .text) : ∃ s, c = .text s := by
  cases c <;> simp_all [Content.sort]

theorem Content.eq_flag_of_sort {c : Content} (h : c.sort = .flag) : ∃ b, c = .flag b := by
  cases c <;> simp_all [Content.sort]

theorem Content.node?_eq_some {c : Content} {n : Node} : c.node? = some n ↔ c = .node n := by
  cases c <;> simp [Content.node?]

theorem Content.items?_eq_some {c : Content} {ns : List Node} :
    c.items? = some ns ↔ c = .items ns := by
  cases c <;> simp [Content.items?]

/-! ### Fields -/

theorem PairKind.firstField_ne_secondField (k : PairKind) : k.firstField ≠ k.secondField := by
  cases k <;> decide

theorem GroupKind.field_ne_keywordField (k : GroupKind) : k.field ≠ keywordField := by
  cases k <;> simp [GroupKind.field, keywordField]

namespace Node

@[simp] theorem field?_pair_firstField (kind : PairKind) (a b : Node) :
    (Node.pair kind a b).field? kind.firstField = some (.node a) := by
  simp [field?]

@[simp] theorem field?_pair_secondField (kind : PairKind) (a b : Node) :
    (Node.pair kind a b).field? kind.secondField = some (.node b) := by
  simp [field?, kind.firstField_ne_secondField.symm]

@[simp] theorem withField?_pair_secondField (kind : PairKind) (a b n : Node) :
    (Node.pair kind a b).withField? kind.secondField (.node n) = some (.pair kind a n) := by
  simp [withField?, kind.firstField_ne_secondField.symm]

@[simp] theorem field?_group_field (kind : GroupKind) (ns : List Node) :
    (Node.group kind ns).field? kind.field = some (.items ns) := by
  simp [field?]

@[simp] theorem withField?_group_field (kind : GroupKind) (ns ms : List Node) :
    (Node.group kind ns).withField? kind.field (.items ms) = some (.group kind ms) := by
  simp [withField?]

/-- The field `name` of a node holds `old`, and with `new` there instead the
node is the last one: one constructor for each slot of a node. -/
inductive Rewrites : Node → String → Content → Content → Node → Prop
  | value (a b : Bool) : Rewrites (.boolean a) "value" (.flag a) (.flag b) (.boolean b)
  | text (kind : LeafKind) (s t : String) :
      Rewrites (.leaf kind s) kind.field (.text s) (.text t) (.leaf kind t)
  | first (kind : PairKind) (a b m : Node) :
      Rewrites (.pair kind a b) kind.firstField (.node a) (.node m) (.pair kind m b)
  | second (kind : PairKind) (a b m : Node) :
      Rewrites (.pair kind a b) kind.secondField (.node b) (.node m) (.pair kind a m)
  | items (kind : GroupKind) (ns ms : List Node) :
      Rewrites (.group kind ns) kind.field (.items ns) (.items ms) (.group kind ms)
  | keyword (s t : String) (ns : List Node) :
      Rewrites (.declaration s ns) keywordField (.text s) (.text t) (.declaration t ns)

section

variable {n n' : Node} {name : String} {old new : Content}

/-- What a field holds can be replaced by every content of its sort, … -/
theorem Rewrites.of_field? (h : n.field? name = some old) (hsort : old.sort = new.sort) :
    ∃ n', Rewrites n name old new n' := by
  cases n with
  | null => cases h
  | boolean a =>
    obtain ⟨rfl, rfl⟩ : name = "value" ∧ .flag a = old := by simpa [Node.field?] using h
    obtain ⟨b, rfl⟩ := Content.eq_flag_of_sort hsort.symm
    exact ⟨_, .value a b⟩
  | leaf kind s =>
    obtain ⟨rfl, rfl⟩ : name = kind.field ∧ .text s = old := by simpa [Node.field?] using h
    obtain ⟨t, rfl⟩ := Content.eq_text_of_sort hsort.symm
    exact ⟨_, .text kind s t⟩
  | pair kind a b =>
    simp only [Node.field?] at h
    split at h
    · next hname =>
      subst hname
      obtain rfl := Option.some.inj h
      obtain ⟨m, rfl⟩ := Content.eq_node_of_sort hsort.symm
      exact ⟨_, .first kind a b m⟩
    · rw [Option.ite_none_right_eq_some] at h
      obtain ⟨rfl, h⟩ := h
      obtain rfl := Option.some.inj h
      obtain ⟨m, rfl⟩ := Content.eq_node_of_sort hsort.symm
      exact ⟨_, .second kind a b m⟩
  | group kind ns =>
    simp only [Node.field?] at h
    split at h
    · next hname =>
      subst hname
      obtain rfl := Option.some.inj h
      obtain ⟨ms, rfl⟩ := Content.eq_items_of_sort hsort.symm
      exact ⟨_, .items kind ns ms⟩
    · -- only a declaration has another field, its keyword
      cases kind with
      | declaration s =>
        simp only [Option.ite_none_right_eq_some] at h
        obtain ⟨rfl, h⟩ := h
        obtain rfl := Option.some.inj h
        obtain ⟨t, rfl⟩ := Content.eq_text_of_sort hsort.symm
        exact ⟨_, .keyword s t ns⟩
      | _ => cases h

/-- … and whatever is written into a field replaces what it holds. -/
theorem Rewrites.of_withField? (h : n.withField? name new = some n') :
    ∃ old, Rewrites n name old new n' := by
  unfold withField? at h
  split at h
  · next a b =>
    rw [Option.ite_none_right_eq_some] at h
    obtain ⟨rfl, h⟩ := h
    obtain rfl := Option.some.inj h
    exact ⟨_, .value a b⟩
  · next kind s t =>
    rw [Option.ite_none_right_eq_some] at h
    obtain ⟨rfl, h⟩ := h
    obtain rfl := Option.some.inj h
    exact ⟨_, .text kind s t⟩
  · next kind a b m =>
    split at h
    · next hname =>
      subst hname
      obtain rfl := Option.some.inj h
      exact ⟨_, .first kind a b m⟩
    · rw [Option.ite_none_right_eq_some] at h
      obtain ⟨rfl, h⟩ := h
      obtain rfl := Option.some.inj h
      exact ⟨_, .second kind a b m⟩
  · next kind ns ms =>
    rw [Option.ite_none_right_eq_some] at h
    obtain ⟨rfl, h⟩ := h
    obtain rfl := Option.some.inj h
    exact ⟨_, .items kind ns ms⟩
  · next s ns t =>
    rw [Option.ite_none_right_eq_some] at h
    obtain ⟨rfl, h⟩ := h
    obtain rfl := Option.some.inj h
    exact ⟨_, .keyword s t ns⟩
  · cases h

theorem Rewrites.symm (h : Rewrites n name old new n') : Rewrites n' name new old n := by
  cases h <;> constructor

theorem Rewrites.eq_self (h : Rewrites n name old old n') : n' = n := by
  cases h <;> rfl

theorem Rewrites.field? (h : Rewrites n name old new n') : n.field? name = some old := by
  cases h with
  | value a b => rfl
  | text kind s t => simp [Node.field?]
  | first kind a b m => simp
  | second kind a b m => simp
  | items kind ns ms => simp
  | keyword s t ns => simp [Node.field?, Ne.symm (GroupKind.field_ne_keywordField _)]

theorem Rewrites.withField? (h : Rewrites n name old new n') :
    n.withField? name new = some n' := by
  cases h with
  | value a b => rfl
  | text kind s t => simp [Node.withField?]
  | first kind a b m => simp [Node.withField?]
  | second kind a b m => simp
  | items kind ns ms => simp
  | keyword s t ns => simp [Node.withField?]

/-- The two nodes differ in what the field holds, so a further write into it
comes to the same for both. -/
theorem Rewrites.withField?_eq (h : Rewrites n name old new n') (c : Content) :
    n'.withField? name c = n.withField? name c := by
  cases h with
  | value a b => cases c <;> rfl
  | text kind s t => cases c <;> rfl
  | first kind a b m => cases c <;> simp [Node.withField?]
  | second kind a b m => cases c <;> simp [Node.withField?, kind.firstField_ne_secondField.symm]
  | items kind ns ms => cases kind <;> cases c <;> simp [Node.withField?, GroupKind.field, keywordField]
  | keyword s t ns => cases c <;> simp [Node.withField?, GroupKind.field, keywordField]

/-- The two nodes hold the same in every other field. -/
theorem Rewrites.field?_of_ne (h : Rewrites n name old new n') {other : String}
    (hother : other ≠ name) : n'.field? other = n.field? other := by
  cases h with
  | value a b => simp [Node.field?, hother]
  | text kind s t => simp [Node.field?, hother]
  | first kind a b m => simp [Node.field?, hother]
  | second kind a b m => simp [Node.field?, hother]
  | items kind ns ms => cases kind <;> simp [Node.field?, hother]
  | keyword s t ns => simp [Node.field?, GroupKind.field, hother]

/-- A field takes every content of the sort it holds. -/
theorem exists_withField? (h : n.field? name = some old) (hsort : old.sort = new.sort) :
    ∃ n', n.withField? name new = some n' := by
  obtain ⟨n', hrewrites⟩ := Rewrites.of_field? h hsort
  exact ⟨n', hrewrites.withField?⟩

/-- What has been written into a field is what the field holds. -/
theorem field?_withField? (h : n.withField? name new = some n') : n'.field? name = some new := by
  obtain ⟨old, hrewrites⟩ := Rewrites.of_withField? h
  exact hrewrites.symm.field?

/-- Of two writes into one field the second counts. -/
theorem withField?_withField? {a b : Content} (h : n.withField? name a = some n') :
    n'.withField? name b = n.withField? name b := by
  obtain ⟨old, hrewrites⟩ := Rewrites.of_withField? h
  exact hrewrites.withField?_eq b

/-- Writing what a field holds changes nothing. -/
theorem withField?_self {c : Content} (h : n.field? name = some c) :
    n.withField? name c = some n := by
  obtain ⟨n', hrewrites⟩ := Rewrites.of_field? h rfl
  rw [hrewrites.withField?, hrewrites.eq_self]

end

end Node

/-! ### Steps -/

namespace Content

@[simp] theorem child?_field (n : Node) (name : String) :
    (Content.node n).child? (.field name) = n.field? name := rfl

@[simp] theorem child?_index (ns : List Node) (i : Nat) :
    (Content.items ns).child? (.index i) = ns[i]?.map .node := rfl

@[simp] theorem child?_afterLast (c : Content) : c.child? .afterLast = none := by
  cases c <;> rfl

theorem child?_eq_some_index {c : Content} {i : Nat} {d : Content}
    (h : c.child? (.index i) = some d) :
    ∃ ns n, c = .items ns ∧ ns[i]? = some n ∧ d = .node n := by
  cases c <;> simp only [child?, reduceCtorEq, Option.map_eq_some_iff] at h
  next ns =>
    obtain ⟨n, hn, rfl⟩ := h
    exact ⟨ns, n, rfl, hn, rfl⟩

theorem child?_eq_some_field {c : Content} {name : String} {d : Content}
    (h : c.child? (.field name) = some d) : ∃ n, c = .node n ∧ n.field? name = some d := by
  cases c <;> simp only [child?, reduceCtorEq] at h
  next n => exact ⟨n, rfl, h⟩

theorem withChild?_eq_some_index {c new c' : Content} {i : Nat}
    (h : c.withChild? (.index i) new = some c') :
    ∃ ns m, c = .items ns ∧ new = .node m ∧ c' = .items (ns.set i m) := by
  cases c <;> cases new <;> simp only [withChild?, reduceCtorEq] at h
  next ns m =>
    rw [Option.ite_none_right_eq_some] at h
    exact ⟨ns, m, rfl, rfl, (Option.some.inj h.2).symm⟩

/-- A slot takes every content of its sort. -/
theorem exists_withChild? {c old new : Content} {step : Step} (h : c.child? step = some old)
    (hsort : old.sort = new.sort) : ∃ c', c.withChild? step new = some c' := by
  cases step with
  | field name =>
    obtain ⟨n, rfl, hn⟩ := child?_eq_some_field h
    obtain ⟨n', hn'⟩ := Node.exists_withField? hn hsort
    exact ⟨.node n', by simp [withChild?, hn']⟩
  | index i =>
    obtain ⟨ns, n, rfl, hn, rfl⟩ := child?_eq_some_index h
    obtain ⟨m, rfl⟩ := eq_node_of_sort hsort.symm
    obtain ⟨hi, -⟩ := List.getElem?_eq_some_iff.1 hn
    exact ⟨.items (ns.set i m), by simp [withChild?, hi]⟩
  | afterLast => simp at h

/-- A write at a step keeps the sort of the whole. -/
theorem sort_withChild? {c c' new : Content} {step : Step} (h : c.withChild? step new = some c') :
    c'.sort = c.sort := by
  unfold withChild? at h
  split at h
  · obtain ⟨n, -, rfl⟩ := Option.map_eq_some_iff.1 h
    rfl
  · rw [Option.ite_none_right_eq_some] at h
    obtain rfl := Option.some.inj h.2
    rfl
  · cases h

/-- What has been written at a step is what stands there. -/
theorem child?_withChild? {c c' new : Content} {step : Step}
    (h : c.withChild? step new = some c') : c'.child? step = some new := by
  unfold withChild? at h
  split at h
  · obtain ⟨n, hn, rfl⟩ := Option.map_eq_some_iff.1 h
    exact Node.field?_withField? hn
  · rw [Option.ite_none_right_eq_some] at h
    obtain ⟨hi, h⟩ := h
    obtain rfl := Option.some.inj h
    simp [child?, hi]
  · cases h

/-- A write at a step does not touch what stands at another one. -/
theorem child?_withChild?_of_ne {c c' new : Content} {step other : Step}
    (h : c.withChild? step new = some c') (hother : other ≠ step) :
    c'.child? other = c.child? other := by
  unfold withChild? at h
  split at h
  · next n name =>
    obtain ⟨n', hn', rfl⟩ := Option.map_eq_some_iff.1 h
    obtain ⟨old, hrewrites⟩ := Node.Rewrites.of_withField? hn'
    cases other with
    | field name' =>
      have hname : name' ≠ name := fun heq => hother (by rw [heq])
      exact hrewrites.field?_of_ne hname
    | _ => rfl
  · next ns i m =>
    rw [Option.ite_none_right_eq_some] at h
    obtain ⟨-, h⟩ := h
    obtain rfl := Option.some.inj h
    cases other with
    | index j =>
      have hij : i ≠ j := fun heq => hother (by rw [heq])
      simp [child?, List.getElem?_set_ne hij]
    | _ => rfl
  · cases h

/-- Of two writes at one step the second counts. -/
theorem withChild?_withChild? {c c' a b : Content} {step : Step}
    (h : c.withChild? step a = some c') : c'.withChild? step b = c.withChild? step b := by
  unfold withChild? at h
  split at h
  · obtain ⟨n, hn, rfl⟩ := Option.map_eq_some_iff.1 h
    simp only [withChild?, Node.withField?_withField? hn]
  · rw [Option.ite_none_right_eq_some] at h
    obtain rfl := Option.some.inj h.2
    cases b <;> simp [withChild?]
  · cases h

/-- Writing what stands at a step changes nothing. -/
theorem withChild?_self {c d : Content} {step : Step} (h : c.child? step = some d) :
    c.withChild? step d = some c := by
  cases step with
  | field name =>
    obtain ⟨n, rfl, hn⟩ := child?_eq_some_field h
    simp [withChild?, Node.withField?_self hn]
  | index i =>
    obtain ⟨ns, n, rfl, hn, rfl⟩ := child?_eq_some_index h
    obtain ⟨hi, rfl⟩ := List.getElem?_eq_some_iff.1 hn
    simp [withChild?, hi]
  | afterLast => simp at h

/-! ### Paths -/

@[simp] theorem get?_nil (c : Content) : c.get? [] = some c := rfl

@[simp] theorem put?_nil (c new : Content) : c.put? [] new = some new := rfl

theorem get?_cons (c : Content) (step : Step) (p : Path) :
    c.get? (step :: p) = (c.child? step).bind (·.get? p) := rfl

@[simp] theorem get?_singleton (c : Content) (step : Step) : c.get? [step] = c.child? step := by
  rw [get?_cons]
  rcases c.child? step with - | d <;> rfl

/-- A path leads on from where its beginning leads. -/
theorem get?_append (c : Content) (p q : Path) :
    c.get? (p ++ q) = (c.get? p).bind (·.get? q) := by
  induction p generalizing c with
  | nil => rfl
  | cons step p ih =>
    rw [List.cons_append, get?_cons, get?_cons]
    rcases e : c.child? step with - | d
    · rfl
    · exact ih d

theorem get?_snoc (c : Content) (p : Path) (step : Step) :
    c.get? (p ++ [step]) = (c.get? p).bind (·.child? step) := by
  simp only [get?_append, get?_singleton]

/-- What a write at a path comes to, one step at a time. -/
theorem put?_cons_eq_some {c new c' : Content} {step : Step} {p : Path} :
    c.put? (step :: p) new = some c' ↔
      ∃ old rebuilt, c.child? step = some old ∧ old.put? p new = some rebuilt ∧
        c.withChild? step rebuilt = some c' := by
  simp only [put?, Option.bind_eq_some_iff]
  constructor
  · rintro ⟨old, hold, rebuilt, hput, hwith⟩
    exact ⟨old, rebuilt, hold, hput, hwith⟩
  · rintro ⟨old, rebuilt, hold, hput, hwith⟩
    exact ⟨old, hold, rebuilt, hput, hwith⟩

/-- A write keeps the sort of the whole, unless it replaces the whole. -/
theorem sort_put? {c old new c' : Content} {p : Path} (hget : c.get? p = some old)
    (hsort : old.sort = new.sort) (h : c.put? p new = some c') : c'.sort = c.sort := by
  cases p with
  | nil =>
    obtain rfl := Option.some.inj hget
    obtain rfl := Option.some.inj h
    exact hsort.symm
  | cons step p =>
    obtain ⟨_, _, -, -, hwith⟩ := put?_cons_eq_some.1 h
    exact sort_withChild? hwith

/-- A write succeeds wherever the slot is there and the sorts agree. -/
theorem exists_put? {c old new : Content} {p : Path} (h : c.get? p = some old)
    (hsort : old.sort = new.sort) : ∃ c', c.put? p new = some c' := by
  induction p generalizing c with
  | nil => exact ⟨new, rfl⟩
  | cons step p ih =>
    obtain ⟨d, hd, hget⟩ := Option.bind_eq_some_iff.1 h
    obtain ⟨rebuilt, hput⟩ := ih hget
    -- the child keeps its sort, so its slot takes it back
    obtain ⟨c', hc'⟩ := exists_withChild? hd (sort_put? hget hsort hput).symm
    exact ⟨c', put?_cons_eq_some.2 ⟨d, rebuilt, hd, hput, hc'⟩⟩

/-- What has been written at a path is what the path leads to. -/
theorem get?_put? {c new c' : Content} {p : Path} (h : c.put? p new = some c') :
    c'.get? p = some new := by
  induction p generalizing c c' with
  | nil =>
    obtain rfl := Option.some.inj h
    rfl
  | cons step p ih =>
    obtain ⟨old, rebuilt, -, hput, hwith⟩ := put?_cons_eq_some.1 h
    rw [get?_cons, child?_withChild? hwith]
    exact ih hput

/-- Of two writes at one path the second counts. -/
theorem put?_put? {c a b c' : Content} {p : Path} (h : c.put? p a = some c') :
    c'.put? p b = c.put? p b := by
  induction p generalizing c c' with
  | nil => rfl
  | cons step p ih =>
    obtain ⟨old, rebuilt, hold, hput, hwith⟩ := put?_cons_eq_some.1 h
    have hagain : rebuilt.put? p b = old.put? p b := ih hput
    simp only [put?, child?_withChild? hwith, hold, Option.bind_some, hagain]
    congr 1
    funext new
    exact withChild?_withChild? hwith

/-- A write at the end of a path is a write at any place on the way, of what
stands there with the write done in it. -/
theorem put?_append (c new : Content) (p q : Path) :
    c.put? (p ++ q) new =
      (c.get? p).bind fun old => (old.put? q new).bind fun mid => c.put? p mid := by
  induction p generalizing c with
  | nil => simp [put?]
  | cons step p ih =>
    simp only [List.cons_append, put?, get?_cons]
    rcases e : c.child? step with - | d
    · rfl
    · simp only [Option.bind_some, ih]
      rcases d.get? p with - | old
      · rfl
      · simp only [Option.bind_some]
        rcases old.put? q new with - | mid <;> rfl

/-- Writing what stands at a path changes nothing. -/
theorem put?_self {c d : Content} {p : Path} (h : c.get? p = some d) : c.put? p d = some c := by
  induction p generalizing c with
  | nil => simpa using h.symm
  | cons step p ih =>
    obtain ⟨e, he, hget⟩ := Option.bind_eq_some_iff.1 h
    exact put?_cons_eq_some.2 ⟨e, e, he, ih hget, withChild?_self he⟩

/-! ### Nodes below a content -/

/-- Whether a content has nodes in it: it is one, or a list of them. -/
def HoldsNodes (c : Content) : Prop :=
  c.sort = .node ∨ c.sort = .items

/-- Nodes stand below nodes and lists only. -/
theorem HoldsNodes.of_get? {c d : Content} {p : Path} (hd : d.HoldsNodes) (h : c.get? p = some d) :
    c.HoldsNodes := by
  cases c with
  | node m => exact .inl rfl
  | items ns => exact .inr rfl
  | _ =>
    cases p with
    | nil =>
      obtain rfl := Option.some.inj h
      exact hd
    | cons step p => simp [get?_cons, child?] at h

theorem holdsNodes_of_get? {c : Content} {p : Path} {n : Node} (h : c.get? p = some (.node n)) :
    c.HoldsNodes :=
  .of_get? (.inl rfl) h

section

variable {c : Content} {p : Path}

/-- In a list there is nothing but its items and what is in them. -/
theorem get?_items {ns : List Node} (h : (Content.items ns).get? p = some c) :
    (p = [] ∧ c = .items ns) ∨
      ∃ i n q, p = .index i :: q ∧ ns[i]? = some n ∧ (Content.node n).get? q = some c := by
  cases p with
  | nil => exact .inl ⟨rfl, (Option.some.inj h).symm⟩
  | cons step q =>
    obtain ⟨d, hd, hq⟩ := Option.bind_eq_some_iff.1 h
    cases step with
    | index i =>
      obtain ⟨_, n, hns, hn, rfl⟩ := child?_eq_some_index hd
      obtain rfl := Content.items.inj hns
      exact .inr ⟨i, n, q, rfl, hn, hq⟩
    | _ => cases hd

/-- A node whose fields are for no nodes has none in it. -/
theorem get?_of_no_nodes {n : Node} (hn : ∀ name d, n.field? name = some d → ¬ d.HoldsNodes)
    (hc : c.HoldsNodes) (h : (Content.node n).get? p = some c) : p = [] ∧ c = .node n := by
  cases p with
  | nil => exact ⟨rfl, (Option.some.inj h).symm⟩
  | cons step q =>
    obtain ⟨d, hd, hq⟩ := Option.bind_eq_some_iff.1 h
    cases step with
    | field name => exact absurd (hc.of_get? hq) (hn name d hd)
    | _ => cases hd

theorem get?_leaf {kind : LeafKind} {text : String} (hc : c.HoldsNodes)
    (h : (Content.node (.leaf kind text)).get? p = some c) : p = [] ∧ c = .node (.leaf kind text) :=
  get?_of_no_nodes (by simp +contextual [Node.field?, HoldsNodes]) hc h

/-- The nodes in a group are in its items. -/
theorem get?_group {kind : GroupKind} {ns : List Node} (hc : c.HoldsNodes)
    (h : (Content.node (.group kind ns)).get? p = some c) :
    (p = [] ∧ c = .node (.group kind ns)) ∨
      ∃ q, p = .field kind.field :: q ∧ (Content.items ns).get? q = some c := by
  cases p with
  | nil => exact .inl ⟨rfl, (Option.some.inj h).symm⟩
  | cons step q =>
    obtain ⟨d, hd, hq⟩ := Option.bind_eq_some_iff.1 h
    cases step with
    | field name =>
      rw [child?_field] at hd
      obtain ⟨n', hrewrites⟩ := Node.Rewrites.of_field? hd (rfl : d.sort = d.sort)
      cases hrewrites with
      | items => exact .inr ⟨q, rfl, hq⟩
      | keyword s => simpa [HoldsNodes] using hc.of_get? hq
    | _ => cases hd

/-- The nodes in a pair are in its two nodes. -/
theorem get?_pair {kind : PairKind} {a b : Node} (h : (Content.node (.pair kind a b)).get? p = some c) :
    (p = [] ∧ c = .node (.pair kind a b)) ∨
      ∃ q, (p = .field kind.firstField :: q ∧ (Content.node a).get? q = some c) ∨
        p = .field kind.secondField :: q ∧ (Content.node b).get? q = some c := by
  cases p with
  | nil => exact .inl ⟨rfl, (Option.some.inj h).symm⟩
  | cons step q =>
    obtain ⟨d, hd, hq⟩ := Option.bind_eq_some_iff.1 h
    cases step with
    | field name =>
      rw [child?_field] at hd
      obtain ⟨n', hrewrites⟩ := Node.Rewrites.of_field? hd (rfl : d.sort = d.sort)
      cases hrewrites with
      | first => exact .inr ⟨q, .inl ⟨rfl, hq⟩⟩
      | second => exact .inr ⟨q, .inr ⟨rfl, hq⟩⟩
    | _ => cases hd

end

/-! ### Leaves after a write -/

/-- A write below a content leaves a node, or a list of nodes. -/
theorem holdsNodes_of_withChild? {c c' new : Content} {step : Step}
    (h : c.withChild? step new = some c') : c'.HoldsNodes := by
  unfold withChild? at h
  split at h
  · obtain ⟨n, -, rfl⟩ := Option.map_eq_some_iff.1 h
    exact .inl rfl
  · rw [Option.ite_none_right_eq_some] at h
    obtain rfl := Option.some.inj h.2
    exact .inr rfl
  · cases h

theorem holdsNodes_of_put? {c c' : Content} {p : Path} {n : Node}
    (h : c.put? p (.node n) = some c') : c'.HoldsNodes := by
  cases p with
  | nil =>
    obtain rfl := Option.some.inj h
    exact .inl rfl
  | cons step p =>
    obtain ⟨_, _, -, -, hwith⟩ := put?_cons_eq_some.1 h
    exact holdsNodes_of_withChild? hwith

/-- A node around a new node is no leaf. -/
theorem withChild?_ne_leaf {c new : Content} {step : Step} {kind : LeafKind} {text : String}
    (hnew : new.HoldsNodes) : c.withChild? step new ≠ some (.node (.leaf kind text)) := by
  intro h
  unfold withChild? at h
  split at h
  · obtain ⟨n, hn, heq⟩ := Option.map_eq_some_iff.1 h
    obtain rfl := Content.node.inj heq
    obtain ⟨old, hrewrites⟩ := Node.Rewrites.of_withField? hn
    -- only a text makes a leaf
    cases hrewrites
    simp [HoldsNodes] at hnew
  · rw [Option.ite_none_right_eq_some] at h
    cases Option.some.inj h.2
  · cases h

/-- After a node has been written, every leaf is one of the new node or has been
there before. -/
theorem get?_put?_leaf {c c' : Content} {p q : Path} {new : Node} {kind : LeafKind}
    {text : String} (h : c.put? p (.node new) = some c')
    (hleaf : c'.get? q = some (.node (.leaf kind text))) :
    (∃ r, q = p ++ r ∧ (Content.node new).get? r = some (.node (.leaf kind text))) ∨
      c.get? q = some (.node (.leaf kind text)) := by
  induction p generalizing c c' q with
  | nil =>
    obtain rfl := Option.some.inj h
    exact .inl ⟨q, rfl, hleaf⟩
  | cons step p ih =>
    obtain ⟨old, rebuilt, hold, hput, hwith⟩ := put?_cons_eq_some.1 h
    cases q with
    | nil =>
      obtain rfl := Option.some.inj hleaf
      exact absurd hwith (withChild?_ne_leaf (holdsNodes_of_put? hput))
    | cons other q =>
      obtain ⟨d, hd, hq⟩ := Option.bind_eq_some_iff.1 hleaf
      by_cases hstep : other = step
      · -- the leaf lies in the direction of the write
        subst hstep
        obtain rfl := Option.some.inj ((child?_withChild? hwith).symm.trans hd)
        rcases ih hput hq with ⟨r, rfl, hr⟩ | hbefore
        · exact .inl ⟨r, rfl, hr⟩
        · exact .inr (by rw [get?_cons, hold]; exact hbefore)
      · rw [child?_withChild?_of_ne hwith hstep] at hd
        exact .inr (by rw [get?_cons, hd]; exact hq)

/-- An item of a list stands at its index. -/
theorem get?_index {ns : List Node} {i : Nat} {n : Node} (h : ns[i]? = some n) :
    (Content.items ns).get? [.index i] = some (.node n) := by
  rw [get?_singleton, child?_index, h]
  rfl

/-! ### Nested groups -/

/-- A group takes new items. -/
@[simp] theorem put?_group_field (kind : GroupKind) (ns ms : List Node) :
    (Content.node (.group kind ns)).put? [.field kind.field] (.items ms) =
      some (.node (.group kind ms)) :=
  put?_cons_eq_some.2 ⟨.items ns, .items ms, by simp, rfl, by simp [withChild?]⟩

/-- Steps from a list to the items of the group that is the second node of the
pair at position `i`. -/
def nestedItems (i : Nat) (kind : PairKind) (inner : GroupKind) : Path :=
  [.index i, .field kind.secondField, .field inner.field]

variable {ns ms : List Node} {i : Nat} {kind : PairKind} {inner : GroupKind} {first : Node}

theorem get?_nestedItems (h : ns[i]? = some (.pair kind first (.group inner ms))) :
    (Content.items ns).get? (nestedItems i kind inner) = some (.items ms) := by
  simp [nestedItems, get?_cons, h]

/-- New items for a nested group are a new pair in the outer list. -/
theorem put?_nestedItems (h : ns[i]? = some (.pair kind first (.group inner ms)))
    (ms' : List Node) :
    (Content.items ns).put? (nestedItems i kind inner) (.items ms') =
      some (.items (ns.set i (.pair kind first (.group inner ms')))) := by
  obtain ⟨hi, -⟩ := List.getElem?_eq_some_iff.1 h
  have hpair : (Content.node (.pair kind first (.group inner ms))).put?
      [.field kind.secondField, .field inner.field] (.items ms') =
        some (.node (.pair kind first (.group inner ms'))) :=
    put?_cons_eq_some.2 ⟨.node (.group inner ms), .node (.group inner ms'), by simp,
      put?_group_field inner ms ms', by simp [withChild?]⟩
  exact put?_cons_eq_some.2 ⟨.node (.pair kind first (.group inner ms)), _, by simp [h], hpair,
    by simp [withChild?, hi]⟩

end Content

/-! ### Documents -/

namespace Node

variable {tree tree' : Node} {p q list : Path}

theorem nodeAt?_eq_some {n : Node} : tree.nodeAt? p = some n ↔ tree.get? p = some (.node n) := by
  simp [nodeAt?, Option.bind_eq_some_iff, Content.node?_eq_some]

theorem itemsAt?_eq_some {ns : List Node} :
    tree.itemsAt? p = some ns ↔ tree.get? p = some (.items ns) := by
  simp [itemsAt?, Option.bind_eq_some_iff, Content.items?_eq_some]

@[simp] theorem nodeAt?_nil : tree.nodeAt? [] = some tree := rfl

theorem get?_append (tree : Node) (p q : Path) :
    tree.get? (p ++ q) = (tree.get? p).bind (·.get? q) :=
  Content.get?_append (.node tree) p q

theorem put?_eq_some {new : Content} :
    tree.put? p new = some tree' ↔ (Content.node tree).put? p new = some (.node tree') := by
  simp [put?, Option.bind_eq_some_iff, Content.node?_eq_some]

/-- A write into a document succeeds wherever the slot is there and the sorts
agree, and the result is a document again. -/
theorem exists_put? {old : Content} (new : Content) (h : tree.get? p = some old)
    (hsort : old.sort = new.sort) : ∃ tree', tree.put? p new = some tree' := by
  obtain ⟨c, hc⟩ := Content.exists_put? h hsort
  obtain ⟨n, rfl⟩ := Content.eq_node_of_sort (Content.sort_put? h hsort hc)
  exact ⟨n, put?_eq_some.2 hc⟩

theorem get?_put? {new : Content} (h : tree.put? p new = some tree') :
    tree'.get? p = some new :=
  Content.get?_put? (put?_eq_some.1 h)

theorem put?_put? {a b : Content} (h : tree.put? p a = some tree') :
    tree'.put? p b = tree.put? p b := by
  unfold put?
  rw [Content.put?_put? (put?_eq_some.1 h)]

/-- A write at the end of a path is a write at a place on the way. -/
theorem put?_append {old new mid : Content} (hget : tree.get? p = some old)
    (hmid : old.put? q new = some mid) : tree.put? (p ++ q) new = tree.put? p mid := by
  unfold put?
  rw [Content.put?_append]
  show ((tree.get? p).bind _).bind _ = _
  rw [hget, Option.bind_some, hmid, Option.bind_some]

theorem put?_self {c : Content} (h : tree.get? p = some c) : tree.put? p c = some tree :=
  put?_eq_some.2 (Content.put?_self h)

/-- The two nodes of a pair stand in its fields. -/
theorem nodeAt?_of_pair {kind : PairKind} {first second : Node}
    (h : tree.nodeAt? p = some (.pair kind first second)) :
    tree.nodeAt? (p ++ [Step.field kind.firstField]) = some first ∧
      tree.nodeAt? (p ++ [Step.field kind.secondField]) = some second := by
  simp [nodeAt?_eq_some, get?_append, nodeAt?_eq_some.1 h]

/-- A successful write is what `set` answers. -/
theorem set_eq_ok_of_put? {new : Content} (h : tree.put? p new = some tree') :
    tree.set p new = .ok tree' := by
  simp [set, h]

/-- `set` succeeds wherever the slot is there and the sorts agree. -/
theorem set_eq_ok {old : Content} (new : Content) (h : tree.get? p = some old)
    (hsort : old.sort = new.sort) :
    ∃ tree', tree.set p new = .ok tree' ∧ tree.put? p new = some tree' := by
  obtain ⟨tree', hput⟩ := exists_put? new h hsort
  exact ⟨tree', set_eq_ok_of_put? hput, hput⟩

/-! ### Items -/

/-- An item of a list stands at its index. -/
theorem nodeAt?_index {ns : List Node} {n : Node} {k : Nat} (hlist : tree.itemsAt? list = some ns)
    (hk : ns[k]? = some n) : tree.nodeAt? (list ++ [Step.index k]) = some n := by
  rw [nodeAt?_eq_some, get?_append, itemsAt?_eq_some.1 hlist, Option.bind_some]
  exact Content.get?_index hk

/-- A write at or below an item keeps the number of items. -/
theorem length_items_put? {ns ms : List Node} {below : Path} {i : Nat} {new : Content}
    (hns : tree.itemsAt? list = some ns)
    (hput : tree.put? (list ++ Step.index i :: below) new = some tree')
    (hms : tree'.itemsAt? list = some ms) : ms.length = ns.length := by
  have hcontent := put?_eq_some.1 hput
  rw [Content.put?_append, show (Content.node tree).get? list = some (.items ns) from
    itemsAt?_eq_some.1 hns, Option.bind_some] at hcontent
  obtain ⟨mid, hmid, hwrite⟩ := Option.bind_eq_some_iff.1 hcontent
  obtain ⟨_, item, -, -, hwith⟩ := Content.put?_cons_eq_some.1 hmid
  obtain ⟨_, m, hitems, -, rfl⟩ := Content.withChild?_eq_some_index hwith
  obtain rfl := Content.items.inj hitems
  -- what the list has become is what has been written there
  have hlist := itemsAt?_eq_some.1 hms
  rw [get?_put? (put?_eq_some.2 hwrite)] at hlist
  obtain rfl := Content.items.inj (Option.some.inj hlist)
  exact List.length_set

@[simp] theorem length_insertItem (items : List Node) (i : Nat) (x : Node) :
    (insertItem items i x).length = items.length + 1 := by
  simp only [insertItem, List.length_append, List.length_take, List.length_cons, List.length_drop]
  omega

/-- The item stands where it has been inserted. -/
theorem getElem?_insertItem_self (items : List Node) {i : Nat} (hi : i ≤ items.length)
    (x : Node) : (insertItem items i x)[i]? = some x := by
  have hlen : (items.take i).length = i := by simp [hi]
  rw [insertItem, List.getElem?_append_right (by omega)]
  simp [hlen]

/-- An insertion into a list succeeds, and writes the longer list.  A position beyond
the end of the list counts as its end, … -/
theorem insertAt_clamped {items : List Node} (h : tree.itemsAt? list = some items) (i : Nat)
    (x : Node) :
    ∃ tree', tree.insertAt list i x = .ok tree' ∧
      tree.put? list (.items (insertItem items (min i items.length) x)) = some tree' := by
  obtain ⟨tree', hset, hput⟩ :=
    set_eq_ok (.items (insertItem items (min i items.length) x)) (itemsAt?_eq_some.1 h) rfl
  refine ⟨tree', ?_, hput⟩
  rw [insertAt, h]
  exact hset

/-- … and any other is where the item goes. -/
theorem insertAt_eq_ok {items : List Node} (h : tree.itemsAt? list = some items) {i : Nat}
    (hi : i ≤ items.length) (x : Node) :
    ∃ tree', tree.insertAt list i x = .ok tree' ∧
      tree.put? list (.items (insertItem items i x)) = some tree' := by
  obtain ⟨tree', hok, hput⟩ := insertAt_clamped h i x
  rw [Nat.min_eq_left hi] at hput
  exact ⟨tree', hok, hput⟩

/-- A deletion writes the shorter list. -/
theorem put?_deleteAt {items : List Node} (h : tree.itemsAt? list = some items) {i : Nat}
    (hi : i < items.length) :
    tree.put? list (.items (items.eraseIdx i)) = some (tree.deleteAt (list ++ [Step.index i])) := by
  obtain ⟨tree', hput⟩ :=
    exists_put? (.items (items.eraseIdx i)) (itemsAt?_eq_some.1 h) rfl
  rw [hput, deleteAt]
  simp [h, hi, hput]

end Node

end StructuralEditor.Document
