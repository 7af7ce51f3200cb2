/-
StructuralEditor/Proofs/Independence.lean

Writes at independent places.

Two paths are independent if neither goes on where the other one ends.  Then they share
a beginning and part at two different steps (`Path.Forks`), and all that follows is by
induction on the part that they share: as long as the paths agree, both writes go into
the same child; where they part, the writes go to different slots of one content.

A write is not seen at the end of a path that forks from its own, and two writes at such
paths give the same document in either order.  Selections need less: a place keeps its
sort unless the write replaces it or something around it, so a path stays valid, or
invalid, unless it goes through the place of the write.
-/
import StructuralEditor.Proofs.Selection

namespace StructuralEditor.Document

/-! ### Paths that part -/

/-- Two paths that share a beginning and then take different steps. -/
inductive Path.Forks : Path → Path → Prop
  | here {s t : Step} (hne : s ≠ t) (p q : Path) : Forks (s :: p) (t :: q)
  | further (s : Step) {p q : Path} (h : Forks p q) : Forks (s :: p) (s :: q)

namespace Path

variable {p q : Path}

/-- Paths part if neither goes on where the other one ends. -/
theorem forks_of_not_isPrefix (hpq : ¬ p <+: q) (hqp : ¬ q <+: p) : Forks p q := by
  induction p generalizing q with
  | nil => exact absurd List.nil_prefix hpq
  | cons s p ih =>
    cases q with
    | nil => exact absurd List.nil_prefix hqp
    | cons t q =>
      by_cases hst : s = t
      · subst hst
        simp only [List.prefix_cons_inj] at hpq hqp
        exact .further s (ih hpq hqp)
      · exact .here hst p q

theorem Forks.symm (h : Forks p q) : Forks q p := by
  induction h with
  | here hne p q => exact .here hne.symm q p
  | further s _ ih => exact .further s ih

theorem Forks.ne_nil (h : Forks p q) : p ≠ [] := by
  cases h <;> exact List.cons_ne_nil _ _

end Path

/-! ### Two fields of a node -/

/-- Writes into two fields of a node can change places. -/
theorem Node.Rewrites.comm {n n₁ n₂ : Node} {name₁ name₂ : String} {old₁ new₁ old₂ new₂ : Content}
    (h₁ : n.Rewrites name₁ old₁ new₁ n₁) (h₂ : n.Rewrites name₂ old₂ new₂ n₂)
    (hne : name₁ ≠ name₂) :
    ∃ m, n₁.Rewrites name₂ old₂ new₂ m ∧ n₂.Rewrites name₁ old₁ new₁ m := by
  -- only pairs and declarations have two fields
  cases h₁ with
  | value a b =>
    cases h₂
    exact absurd rfl hne
  | text kind s t =>
    cases h₂
    exact absurd rfl hne
  | first kind a b m =>
    cases h₂ with
    | first => exact absurd rfl hne
    | second _ _ _ m' => exact ⟨_, .second kind m b m', .first kind a m' m⟩
  | second kind a b m =>
    cases h₂ with
    | first _ _ _ m' => exact ⟨_, .first kind a m m', .second kind m' b m⟩
    | second => exact absurd rfl hne
  | items kind ns ms =>
    cases h₂ with
    | items => exact absurd rfl hne
    | keyword s t _ => exact ⟨_, .keyword s t ms, .items (.declaration t) ns ms⟩
  | keyword s t ns =>
    cases h₂ with
    | items _ _ ms => exact ⟨_, .items (.declaration t) ns ms, .keyword s t ms⟩
    | keyword => exact absurd rfl hne

/-! ### Two steps from a content -/

namespace Content

variable {c c' new : Content} {step : Step}

/-- From a node a write goes into a field, … -/
theorem withChild?_node_eq_some {n : Node} (h : (Content.node n).withChild? step new = some c') :
    ∃ name old n', step = .field name ∧ n.Rewrites name old new n' ∧ c' = .node n' := by
  cases step with
  | field name =>
    obtain ⟨n', hn', rfl⟩ := Option.map_eq_some_iff.1 h
    obtain ⟨old, hrewrites⟩ := Node.Rewrites.of_withField? hn'
    exact ⟨name, old, n', rfl, hrewrites, rfl⟩
  | _ => cases h

/-- … and from a list to an item. -/
theorem withChild?_items_eq_some {ns : List Node}
    (h : (Content.items ns).withChild? step new = some c') :
    ∃ i m, step = .index i ∧ i < ns.length ∧ new = .node m ∧ c' = .items (ns.set i m) := by
  cases step with
  | index i =>
    cases new with
    | node m =>
      obtain ⟨hi, h⟩ := Option.ite_none_right_eq_some.1 h
      exact ⟨i, m, rfl, hi, rfl, (Option.some.inj h).symm⟩
    | _ => cases h
  | _ => cases h

/-- Writes at two steps can change places. -/
theorem withChild?_comm {c₁ c₂ new₁ new₂ : Content} {s t : Step}
    (h₁ : c.withChild? s new₁ = some c₁) (h₂ : c.withChild? t new₂ = some c₂) (hne : s ≠ t) :
    ∃ d, c₁.withChild? t new₂ = some d ∧ c₂.withChild? s new₁ = some d := by
  cases c with
  | node n =>
    obtain ⟨name₁, old₁, n₁, rfl, hn₁, rfl⟩ := withChild?_node_eq_some h₁
    obtain ⟨name₂, old₂, n₂, rfl, hn₂, rfl⟩ := withChild?_node_eq_some h₂
    obtain ⟨m, hm₁, hm₂⟩ := hn₁.comm hn₂ (fun heq => hne (congrArg Step.field heq))
    exact ⟨.node m, by simp [withChild?, hm₁.withField?], by simp [withChild?, hm₂.withField?]⟩
  | items ns =>
    obtain ⟨i, m, rfl, hi, rfl, rfl⟩ := withChild?_items_eq_some h₁
    obtain ⟨j, k, rfl, hj, rfl, rfl⟩ := withChild?_items_eq_some h₂
    have hij : i ≠ j := fun heq => hne (congrArg Step.index heq)
    exact ⟨.items ((ns.set i m).set j k), by simp [withChild?, hj],
      by simp [withChild?, hi, List.set_comm m k hij]⟩
  | text s => cases h₁
  | flag b => cases h₁

/-! ### Writes at two paths -/

variable {p q r : Path}

/-- A write that does not replace the whole keeps its sort. -/
theorem sort_put?_of_ne_nil (hp : p ≠ []) (h : c.put? p new = some c') : c'.sort = c.sort := by
  cases p with
  | nil => exact absurd rfl hp
  | cons step p =>
    obtain ⟨_, _, -, -, hwith⟩ := put?_cons_eq_some.1 h
    exact sort_withChild? hwith

/-- **A write is not seen at the end of a path that forks from its own.** -/
theorem get?_put?_of_forks (hforks : p.Forks q) (h : c.put? p new = some c') :
    c'.get? q = c.get? q := by
  induction hforks generalizing c c' with
  | here hne p q =>
    obtain ⟨old, rebuilt, -, -, hwith⟩ := put?_cons_eq_some.1 h
    rw [get?_cons, get?_cons, child?_withChild?_of_ne hwith hne.symm]
  | further s _ ih =>
    obtain ⟨old, rebuilt, hold, hput, hwith⟩ := put?_cons_eq_some.1 h
    rw [get?_cons, get?_cons, child?_withChild? hwith, hold, Option.bind_some, Option.bind_some]
    exact ih hput

/-- **Writes at paths that fork can change places.** -/
theorem put?_comm {c₁ c₂ new₁ new₂ : Content} (hforks : p.Forks q)
    (h₁ : c.put? p new₁ = some c₁) (h₂ : c.put? q new₂ = some c₂) :
    ∃ d, c₁.put? q new₂ = some d ∧ c₂.put? p new₁ = some d := by
  induction hforks generalizing c c₁ c₂ with
  | here hne p q =>
    obtain ⟨old₁, rebuilt₁, hold₁, hput₁, hwith₁⟩ := put?_cons_eq_some.1 h₁
    obtain ⟨old₂, rebuilt₂, hold₂, hput₂, hwith₂⟩ := put?_cons_eq_some.1 h₂
    obtain ⟨d, hd₁, hd₂⟩ := withChild?_comm hwith₁ hwith₂ hne
    refine ⟨d, put?_cons_eq_some.2 ⟨old₂, rebuilt₂, ?_, hput₂, hd₁⟩,
      put?_cons_eq_some.2 ⟨old₁, rebuilt₁, ?_, hput₁, hd₂⟩⟩
    · rw [child?_withChild?_of_ne hwith₁ hne.symm, hold₂]
    · rw [child?_withChild?_of_ne hwith₂ hne, hold₁]
  | further s hforks ih =>
    obtain ⟨old, rebuilt₁, hold, hput₁, hwith₁⟩ := put?_cons_eq_some.1 h₁
    obtain ⟨old', rebuilt₂, hold', hput₂, hwith₂⟩ := put?_cons_eq_some.1 h₂
    obtain rfl := Option.some.inj (hold.symm.trans hold')
    obtain ⟨both, hboth₁, hboth₂⟩ := ih hput₁ hput₂
    -- the child with both writes in it still fits its slot
    have hsort : old.sort = both.sort := by
      rw [sort_put?_of_ne_nil hforks.symm.ne_nil hboth₁, sort_put?_of_ne_nil hforks.ne_nil hput₁]
    obtain ⟨d, hd⟩ := exists_withChild? hold hsort
    refine ⟨d, put?_cons_eq_some.2 ⟨rebuilt₁, both, child?_withChild? hwith₁, hboth₁, ?_⟩,
      put?_cons_eq_some.2 ⟨rebuilt₂, both, child?_withChild? hwith₂, hboth₂, ?_⟩⟩
    · rw [withChild?_withChild? hwith₁, hd]
    · rw [withChild?_withChild? hwith₂, hd]

/-- A place that is not below the place of a write keeps its sort. -/
theorem map_sort_get?_put? (hpr : ¬ p <+: r) (h : c.put? p new = some c') :
    (c'.get? r).map sort = (c.get? r).map sort := by
  induction p generalizing c c' r with
  | nil => exact absurd List.nil_prefix hpr
  | cons step p ih =>
    cases r with
    | nil =>
      rw [get?_nil, get?_nil, Option.map_some, Option.map_some,
        sort_put?_of_ne_nil (List.cons_ne_nil _ _) h]
    | cons other r =>
      obtain ⟨old, rebuilt, hold, hput, hwith⟩ := put?_cons_eq_some.1 h
      rw [get?_cons, get?_cons]
      by_cases hstep : other = step
      · subst hstep
        rw [List.prefix_cons_inj] at hpr
        rw [child?_withChild? hwith, hold]
        exact ih hpr hput
      · rw [child?_withChild?_of_ne hwith hstep]

theorem map_sort_eq_node {c? : Option Content} :
    c?.map sort = some .node ↔ ∃ n, c? = some (.node n) := by
  constructor
  · intro h
    obtain ⟨d, rfl, hsort⟩ := Option.map_eq_some_iff.1 h
    obtain ⟨n, rfl⟩ := eq_node_of_sort hsort
    exact ⟨n, rfl⟩
  · rintro ⟨n, rfl⟩
    rfl

theorem map_sort_eq_items {c? : Option Content} :
    c?.map sort = some .items ↔ ∃ ns, c? = some (.items ns) := by
  constructor
  · intro h
    obtain ⟨d, rfl, hsort⟩ := Option.map_eq_some_iff.1 h
    obtain ⟨ns, rfl⟩ := eq_items_of_sort hsort
    exact ⟨ns, rfl⟩
  · rintro ⟨ns, rfl⟩
    rfl

end Content

/-! ### Documents -/

namespace Node

variable {tree tree' : Node} {p q r : Path} {new : Content}

/-- Whether a path is a valid selection is a matter of sorts. -/
theorem resolves_iff_sort : tree.resolves r = true ↔
    (tree.get? r).map Content.sort = some .node ∨
      ∃ list, r = list ++ [Step.afterLast] ∧ (tree.get? list).map Content.sort = some .items := by
  simp only [resolves_iff, Content.Resolves, Content.map_sort_eq_node, Content.map_sort_eq_items,
    exists_and_left]
  rfl

/-- A selection stays valid, or invalid, unless it goes through the place of the write. -/
theorem resolves_put?_of_not_isPrefix (hpr : ¬ p <+: r) (h : tree.put? p new = some tree') :
    tree'.resolves r = tree.resolves r := by
  have hsort : ∀ list, ¬ p <+: list →
      (tree'.get? list).map Content.sort = (tree.get? list).map Content.sort :=
    fun list hlist => Content.map_sort_get?_put? hlist (put?_eq_some.1 h)
  rw [Bool.eq_iff_iff, resolves_iff_sort, resolves_iff_sort, hsort r hpr]
  refine or_congr_right (exists_congr fun list => and_congr_right fun heq => ?_)
  rw [hsort list fun hlist => hpr (heq ▸ hlist.trans (List.prefix_append list _))]

/-- **Writes at independent places do not interfere.**  With contents that fit their
slots, neither of two writes is seen at the place of the other one, and the document with
both in it does not depend on which has come first.  At every path that is independent of
a write stands what has stood there, and the path is a valid selection if it has been one. -/
theorem sets_are_independent {old₁ old₂ v w : Content} (hp : tree.get? p = some old₁)
    (hv : old₁.sort = v.sort) (hq : tree.get? q = some old₂) (hw : old₂.sort = w.sort)
    (hpq : ¬ p <+: q) (hqp : ¬ q <+: p) :
    ∃ tree₁ tree₂ both, tree.set p v = .ok tree₁ ∧ tree.set q w = .ok tree₂ ∧
      tree₁.get? q = tree.get? q ∧ tree₂.get? p = tree.get? p ∧
      tree₁.set q w = .ok both ∧ tree₂.set p v = .ok both ∧
      ∀ r, ¬ p <+: r → ¬ r <+: p →
        tree₁.get? r = tree.get? r ∧ tree₁.resolves r = tree.resolves r := by
  have hforks := Path.forks_of_not_isPrefix hpq hqp
  obtain ⟨tree₁, hset₁, hput₁⟩ := set_eq_ok v hp hv
  obtain ⟨tree₂, hset₂, hput₂⟩ := set_eq_ok w hq hw
  have hcontent₁ := put?_eq_some.1 hput₁
  have hcontent₂ := put?_eq_some.1 hput₂
  have hunseen₁ : tree₁.get? q = tree.get? q := Content.get?_put?_of_forks hforks hcontent₁
  have hunseen₂ : tree₂.get? p = tree.get? p := Content.get?_put?_of_forks hforks.symm hcontent₂
  -- so the second write succeeds as well, and its result is a document
  obtain ⟨both, hboth, hputBoth⟩ := set_eq_ok w (hunseen₁.trans hq) hw
  obtain ⟨d, hd₁, hd₂⟩ := Content.put?_comm hforks hcontent₁ hcontent₂
  obtain rfl := Option.some.inj ((put?_eq_some.1 hputBoth).symm.trans hd₁)
  refine ⟨tree₁, tree₂, both, hset₁, hset₂, hunseen₁, hunseen₂, hboth,
    set_eq_ok_of_put? (put?_eq_some.2 hd₂), fun r hpr hrp => ⟨?_, ?_⟩⟩
  · exact Content.get?_put?_of_forks (Path.forks_of_not_isPrefix hpr hrp) hcontent₁
  · exact resolves_put?_of_not_isPrefix hpr hput₁

/-- The key of a property and an item in its value, and the end of the value's list. -/
theorem sets_are_independent_in_property :
    let tree := Node.program [.object [.property (.string "a") (.array [.number "1"])]]
    let property : Path := [.field "body", .index 0, .field "properties", .index 0]
    let key : Path := property ++ [Step.field "key", .field "value"]
    let list : Path := property ++ [Step.field "value", .field "elements"]
    let item : Path := list ++ [Step.index 0]
    tree.get? key = some (.text "a") ∧ tree.get? item = some (.node (.number "1")) ∧
      ¬ key <+: item ∧ ¬ item <+: key ∧
      ∃ tree₁ tree₂ both, tree.set item (.node .null) = .ok tree₁ ∧
        tree.set key (.text "b") = .ok tree₂ ∧ tree₁.get? key = some (.text "a") ∧
        tree₂.get? item = some (.node (.number "1")) ∧
        tree₁.set key (.text "b") = .ok both ∧ tree₂.set item (.node .null) = .ok both ∧
        tree₁.resolves (list ++ [Step.afterLast]) = true := by
  intro tree property key list item
  have hkey : tree.get? key = some (.text "a") := by decide +kernel
  have hitem : tree.get? item = some (.node (.number "1")) := by decide +kernel
  have hfork : ¬ key <+: item := by decide +kernel
  have hfork' : ¬ item <+: key := by decide +kernel
  obtain ⟨tree₁, tree₂, both, hset₁, hset₂, hget₁, hget₂, hboth₁, hboth₂, hapart⟩ :=
    sets_are_independent (v := .node .null) (w := .text "b") hitem rfl hkey rfl hfork' hfork
  obtain ⟨-, hresolves⟩ := hapart (list ++ [Step.afterLast]) (by decide +kernel) (by decide +kernel)
  refine ⟨hkey, hitem, hfork, hfork', tree₁, tree₂, both, hset₁, hset₂, hget₁.trans hkey,
    hget₂.trans hitem, hboth₁, hboth₂, ?_⟩
  rw [hresolves]
  decide +kernel

end Node

end StructuralEditor.Document
