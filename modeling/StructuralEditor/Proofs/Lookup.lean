/-
StructuralEditor/Proofs/Lookup.lean

Which leaf of a tree of rules a search finds.

A leaf is told by the way to it: through each list of rules, those that are left
behind and the one that is taken (`IsWay`).  The leaf is found if on this way
all rules taken are open and all rules left behind are passed over
(`Qualifies`).  The search goes no other way (`exists_qualifying`), and there is
one such way at most (`Qualifies.unique`): where two ways part, one of them leaves
behind what the other one takes, and a rule below which a leaf is found is not
passed over.

Where all groups are named, nothing ends a search early.  Then the leaf found is
the first one, in the order of the ways (`ways`), to which all rules are open
(`findAction_eq_first`).  A group without a name that is open and gives nothing
ends its list, as if the list had no more rules.

The guards of the rules may be of any type: what is said of a search is true of any
rules, whichever of their guards are open.
-/
import Mathlib.Tactic.Common
import StructuralEditor.Keymap.Rule

namespace StructuralEditor.Keymap

variable {γ : Type}

/-! ### Ways to a leaf -/

/-- A list of rules on the way to a leaf: the rules left behind and the one taken. -/
structure Stage (γ : Type) where
  behind : List (Rule γ)
  taken : Rule γ

/-- Whether stages are the way from a list of rules to a leaf. -/
inductive IsWay : List (Rule γ) → List (Stage γ) → Prop
  | leaf {guard : γ} {value label : Data} {rest : List (Rule γ)} :
      IsWay (.leaf guard value label :: rest) [⟨[], .leaf guard value label⟩]
  | inside {guard : γ} {value label : Data} {rules rest : List (Rule γ)} {way : List (Stage γ)} :
      IsWay rules way →
        IsWay (.group guard value label rules :: rest)
          (⟨[], .group guard value label rules⟩ :: way)
  | past {rule taken : Rule γ} {rest behind : List (Rule γ)} {way : List (Stage γ)} :
      IsWay rest (⟨behind, taken⟩ :: way) →
        IsWay (rule :: rest) (⟨rule :: behind, taken⟩ :: way)

/-- The value of a stage in an action.  A group without a value has none there. -/
def Stage.values (stage : Stage γ) : List Data :=
  match stage.taken with
  | .leaf _ value _ => [value]
  | .group _ .null _ _ => []
  | .group _ value _ _ => [value]

/-- The action of a leaf: the values of the groups on the way and its own. -/
def actionOf (way : List (Stage γ)) : List Data :=
  way.flatMap Stage.values

theorem actionOf_group (guard : γ) (value label : Data) (rules behind : List (Rule γ))
    (way : List (Stage γ)) :
    actionOf (⟨behind, .group guard value label rules⟩ :: way) =
      withValue value (actionOf way) := by
  cases value <;> rfl

/-- Whether a rule is passed over: it is not open, or it is a named group that gives nothing. -/
inductive IsPassed (isOpen : γ → Bool) : Rule γ → Prop
  | closed {rule : Rule γ} : isOpen rule.guard = false → IsPassed isOpen rule
  | fruitless {guard : γ} {value label : Data} {rules : List (Rule γ)} :
      (Rule.group guard value label rules).isNamed = true → findAction isOpen rules = none →
        IsPassed isOpen (.group guard value label rules)

/-- Whether a way is one that a search goes. -/
def Qualifies (isOpen : γ → Bool) (way : List (Stage γ)) : Prop :=
  ∀ stage ∈ way, isOpen stage.taken.guard = true ∧
    ∀ rule ∈ stage.behind, IsPassed isOpen rule

section

variable {isOpen : γ → Bool} {rule taken : Rule γ} {rules rest before : List (Rule γ)}
  {action : List Data} {way : List (Stage γ)}

theorem qualifies_cons {stage : Stage γ} :
    Qualifies isOpen (stage :: way) ↔
      (isOpen stage.taken.guard = true ∧
        ∀ rule ∈ stage.behind, IsPassed isOpen rule) ∧ Qualifies isOpen way :=
  List.forall_mem_cons

theorem qualifies_past {behind : List (Rule γ)} :
    Qualifies isOpen (⟨rule :: behind, taken⟩ :: way) ↔
      IsPassed isOpen rule ∧ Qualifies isOpen (⟨behind, taken⟩ :: way) := by
  rw [qualifies_cons, qualifies_cons, List.forall_mem_cons]
  tauto

/-! ### The steps of a search -/

theorem findAction_of_closed (h : isOpen rule.guard = false) :
    findAction isOpen (rule :: rest) = findAction isOpen rest := by
  rw [findAction, h]
  rfl

theorem findAction_of_found (hopen : isOpen rule.guard = true)
    (haction : rule.action? isOpen = some action) :
    findAction isOpen (rule :: rest) = some action := by
  rw [findAction, if_pos hopen, haction]

theorem findAction_of_fruitless (hopen : isOpen rule.guard = true)
    (haction : rule.action? isOpen = none) :
    findAction isOpen (rule :: rest) =
      if rule.isNamed then findAction isOpen rest else none := by
  rw [findAction, if_pos hopen, haction]

theorem action?_group_eq_none {guard : γ} {value label : Data}
    (h : findAction isOpen rules = none) :
    (Rule.group guard value label rules).action? isOpen = none := by
  rw [Rule.action?, h]
  rfl

theorem isPassed_of_fruitless (hnamed : rule.isNamed = true)
    (haction : rule.action? isOpen = none) : IsPassed isOpen rule := by
  cases rule with
  | leaf guard value label => cases haction
  | group guard value label rules =>
    rw [Rule.action?, Option.map_eq_none_iff] at haction
    exact .fruitless hnamed haction

/-- A search goes on behind a rule that is passed over. -/
theorem findAction_cons_of_passed (h : IsPassed isOpen rule) (rest : List (Rule γ)) :
    findAction isOpen (rule :: rest) = findAction isOpen rest := by
  cases hopen : isOpen rule.guard with
  | false => exact findAction_of_closed hopen
  | true =>
    cases h with
    | closed hclosed =>
      rw [hopen] at hclosed
      cases hclosed
    | fruitless hnamed hnone =>
      rw [findAction_of_fruitless hopen (action?_group_eq_none hnone), if_pos hnamed]

/-! ### Every search goes one way -/

/-- The leaf at the end of a way that qualifies is found. -/
theorem findAction_of_qualifies (h : IsWay rules way) :
    Qualifies isOpen way → findAction isOpen rules = some (actionOf way) := by
  induction h with
  | leaf =>
    intro hq
    obtain ⟨⟨hopen, -⟩, -⟩ := qualifies_cons.1 hq
    exact findAction_of_found hopen rfl
  | @inside guard value label rules rest way _ ih =>
    intro hq
    obtain ⟨⟨hopen, -⟩, hinner⟩ := qualifies_cons.1 hq
    rw [actionOf_group]
    apply findAction_of_found hopen
    rw [Rule.action?, ih hinner]
    rfl
  | past _ ih =>
    intro hq
    obtain ⟨hpassed, hrest⟩ := qualifies_past.1 hq
    rw [findAction_cons_of_passed hpassed, ih hrest]
    rfl

/-- A way behind a rule that is passed over is a way. -/
theorem exists_qualifying_past (hpassed : IsPassed isOpen rule)
    (h : ∃ way, IsWay rest way ∧ Qualifies isOpen way ∧ actionOf way = action) :
    ∃ way, IsWay (rule :: rest) way ∧ Qualifies isOpen way ∧
      actionOf way = action := by
  obtain ⟨way, hway, hq, haction⟩ := h
  rcases way with - | ⟨⟨behind, taken⟩, way⟩
  · cases hway
  · exact ⟨⟨rule :: behind, taken⟩ :: way, .past hway, qualifies_past.2 ⟨hpassed, hq⟩, haction⟩

mutual

/-- What a rule gives is the action of a leaf to which a way leads, … -/
theorem exists_qualifying_of_rule :
    ∀ (rule : Rule γ) {action : List Data}, isOpen rule.guard = true →
      rule.action? isOpen = some action → ∀ rest, ∃ way, IsWay (rule :: rest) way ∧
        Qualifies isOpen way ∧ actionOf way = action
  | .leaf guard value label, action, hopen, haction, rest => by
    refine ⟨[⟨[], .leaf guard value label⟩], .leaf, ?_, Option.some.inj haction⟩
    intro stage hstage
    rw [List.mem_singleton.1 hstage]
    exact ⟨hopen, List.forall_mem_nil _⟩
  | .group guard value label rules, action, hopen, haction, rest => by
    rw [Rule.action?] at haction
    obtain ⟨inner, hinner, rfl⟩ := Option.map_eq_some_iff.1 haction
    obtain ⟨way, hway, hq, rfl⟩ := exists_qualifying rules hinner
    exact ⟨⟨[], .group guard value label rules⟩ :: way, .inside hway,
      qualifies_cons.2 ⟨⟨hopen, List.forall_mem_nil _⟩, hq⟩, actionOf_group ..⟩

/-- … and so is what a list of rules gives. -/
theorem exists_qualifying :
    ∀ (rules : List (Rule γ)) {action : List Data}, findAction isOpen rules = some action →
      ∃ way, IsWay rules way ∧ Qualifies isOpen way ∧ actionOf way = action
  | [], action, h => by cases h
  | rule :: rest, action, h => by
    cases hopen : isOpen rule.guard with
    | false =>
      rw [findAction_of_closed hopen] at h
      exact exists_qualifying_past (.closed hopen) (exists_qualifying rest h)
    | true =>
      rcases haction : rule.action? isOpen with - | found
      · rw [findAction_of_fruitless hopen haction] at h
        split_ifs at h with hnamed
        exact exists_qualifying_past (isPassed_of_fruitless hnamed haction)
          (exists_qualifying rest h)
      · rw [findAction_of_found hopen haction] at h
        obtain rfl := Option.some.inj h
        exact exists_qualifying_of_rule rule hopen haction rest

end

/-- A rule that is taken on a way that qualifies is not passed over. -/
theorem Qualifies.not_isPassed (hway : IsWay [rule] (⟨[], rule⟩ :: way))
    (hq : Qualifies isOpen (⟨[], rule⟩ :: way)) : ¬ IsPassed isOpen rule := by
  intro hpassed
  obtain ⟨⟨hopen, -⟩, hinner⟩ := qualifies_cons.1 hq
  cases hpassed with
  | closed hclosed =>
    rw [hopen] at hclosed
    cases hclosed
  | fruitless hnamed hnone =>
    cases hway with
    | inside hway =>
      rw [findAction_of_qualifies hway hinner] at hnone
      cases hnone

/-- **At most one way qualifies.** -/
theorem Qualifies.unique (hway : IsWay rules way) (hq : Qualifies isOpen way) :
    ∀ other, IsWay rules other → Qualifies isOpen other → way = other := by
  induction hway with
  | leaf =>
    intro other hother hq'
    cases hother with
    | leaf => rfl
    | past hother => exact absurd (qualifies_past.1 hq').1 (hq.not_isPassed .leaf)
  | inside hway ih =>
    intro other hother hq'
    cases hother with
    | inside hother =>
      rw [ih (qualifies_cons.1 hq).2 _ hother (qualifies_cons.1 hq').2]
    | past hother => exact absurd (qualifies_past.1 hq').1 (hq.not_isPassed (.inside hway))
  | past hway ih =>
    intro other hother hq'
    obtain ⟨hpassed, hrest⟩ := qualifies_past.1 hq
    cases hother with
    | leaf => exact absurd hpassed (hq'.not_isPassed .leaf)
    | inside hother => exact absurd hpassed (hq'.not_isPassed (.inside hother))
    | past hother =>
      have hsame := ih hrest _ hother (qualifies_past.1 hq').2
      cases hsame
      rfl

/-- A search gives nothing just if no way qualifies. -/
theorem findAction_eq_none_iff :
    findAction isOpen rules = none ↔
      ∀ way, IsWay rules way → ¬ Qualifies isOpen way := by
  constructor
  · intro hnone way hway hq
    rw [findAction_of_qualifies hway hq] at hnone
    cases hnone
  · intro h
    rcases haction : findAction isOpen rules with - | action
    · rfl
    · obtain ⟨way, hway, hq, -⟩ := exists_qualifying rules haction
      exact absurd hq (h way hway)

/-! ### The order of the ways -/

/-- A way behind one more rule. -/
def past (rule : Rule γ) : List (Stage γ) → List (Stage γ)
  | [] => []
  | ⟨behind, taken⟩ :: way => ⟨rule :: behind, taken⟩ :: way

mutual

/-- The ways into a rule, depth first. -/
def Rule.ways : Rule γ → List (List (Stage γ))
  | .leaf guard value label => [[⟨[], .leaf guard value label⟩]]
  | .group guard value label rules =>
    (ways rules).map (⟨[], .group guard value label rules⟩ :: ·)

/-- The ways to the leaves of a list of rules, depth first. -/
def ways : List (Rule γ) → List (List (Stage γ))
  | [] => []
  | rule :: rest => rule.ways ++ (ways rest).map (past rule)

end

mutual

theorem isWay_of_mem_rule :
    ∀ (rule : Rule γ) {way : List (Stage γ)}, way ∈ rule.ways → ∀ rest, IsWay (rule :: rest) way
  | .leaf guard value label, way, h, rest => by
    rw [Rule.ways] at h
    obtain rfl := List.mem_singleton.1 h
    exact .leaf
  | .group guard value label rules, way, h, rest => by
    rw [Rule.ways] at h
    obtain ⟨inner, hinner, rfl⟩ := List.mem_map.1 h
    exact .inside (isWay_of_mem rules hinner)

theorem isWay_of_mem :
    ∀ (rules : List (Rule γ)) {way : List (Stage γ)}, way ∈ ways rules → IsWay rules way
  | [], way, h => by cases h
  | rule :: rest, way, h => by
    rw [ways] at h
    rcases List.mem_append.1 h with h | h
    · exact isWay_of_mem_rule rule h rest
    · obtain ⟨way, hway, rfl⟩ := List.mem_map.1 h
      have hrest := isWay_of_mem rest hway
      rcases way with - | ⟨stage, way⟩
      · cases hrest
      · exact .past hrest

end

/-- The enumeration has every way, and nothing else. -/
theorem mem_ways_iff : way ∈ ways rules ↔ IsWay rules way := by
  constructor
  · exact isWay_of_mem rules
  · intro h
    induction h with
    | leaf => exact List.mem_append_left _ (List.mem_singleton_self _)
    | inside _ ih => exact List.mem_append_left _ (List.mem_map_of_mem ih)
    | past _ ih => exact List.mem_append_right _ (List.mem_map_of_mem (f := past _) ih)

/-! ### Searches among named groups -/

mutual

/-- Whether all groups of a rule are named. -/
def Rule.isNamedThroughout : Rule γ → Bool
  | .leaf _ _ _ => true
  | .group guard value label rules =>
    (Rule.group guard value label rules).isNamed && areNamed rules

/-- Whether all groups of a list of rules are named. -/
def areNamed : List (Rule γ) → Bool
  | [] => true
  | rule :: rest => rule.isNamedThroughout && areNamed rest

end

/-- Whether all rules taken on a way are open. -/
def isOpenWay (isOpen : γ → Bool) (way : List (Stage γ)) : Bool :=
  way.all fun stage => isOpen stage.taken.guard

/-- No way into a closed rule is open. -/
theorem find?_ways_of_closed (h : isOpen rule.guard = false) :
    rule.ways.find? (isOpenWay isOpen) = none := by
  apply List.find?_eq_none.2
  intro way hway hopen
  obtain ⟨inner, rfl⟩ : ∃ inner, way = ⟨[], rule⟩ :: inner := by
    cases rule with
    | leaf guard value label => exact ⟨[], List.mem_singleton.1 hway⟩
    | group guard value label rules =>
      rw [Rule.ways] at hway
      obtain ⟨inner, -, rfl⟩ := List.mem_map.1 hway
      exact ⟨inner, rfl⟩
  have hrule : isOpen rule.guard = true := (Bool.and_eq_true_iff.1 hopen).1
  rw [h] at hrule
  cases hrule

/-- An open way behind one more rule is as open, and leads to the same leaf. -/
theorem find?_map_past (rule : Rule γ) (choices : List (List (Stage γ))) :
    ((choices.map (past rule)).find? (isOpenWay isOpen)).map actionOf =
      (choices.find? (isOpenWay isOpen)).map actionOf := by
  have hopen : isOpenWay isOpen ∘ past rule = isOpenWay isOpen := by
    funext way
    cases way <;> rfl
  have haction : actionOf ∘ past rule = actionOf := by
    funext way
    cases way <;> rfl
  rw [List.find?_map, hopen, Option.map_map, haction]

/-- The open ways into an open group are those that its rules have. -/
theorem find?_map_inside {guard : γ} {value label : Data}
    (hopen : isOpen guard = true) (choices : List (List (Stage γ))) :
    ((choices.map (⟨[], .group guard value label rules⟩ :: ·)).find? (isOpenWay isOpen)).map
        actionOf =
      ((choices.find? (isOpenWay isOpen)).map actionOf).map (withValue value) := by
  have halike : isOpenWay isOpen ∘ (⟨[], .group guard value label rules⟩ :: ·) =
      isOpenWay isOpen := by
    funext way
    show (isOpen guard && isOpenWay isOpen way) = _
    rw [hopen, Bool.true_and]
  have haction : actionOf ∘ (⟨[], .group guard value label rules⟩ :: ·) =
      withValue value ∘ actionOf := by
    funext way
    exact actionOf_group guard value label rules [] way
  rw [List.find?_map, halike, Option.map_map, Option.map_map, haction]

mutual

/-- Among named groups, an open rule gives the action of its first open leaf, … -/
theorem action?_eq_first :
    ∀ rule : Rule γ, rule.isNamedThroughout = true → isOpen rule.guard = true →
      rule.action? isOpen = (rule.ways.find? (isOpenWay isOpen)).map actionOf
  | .leaf guard value label, _, hopen => by
    have hleaf : isOpenWay isOpen [⟨[], .leaf guard value label⟩] = true := by
      show (isOpen guard && true) = true
      rw [show isOpen guard = true from hopen]
      rfl
    rw [Rule.ways, List.find?_cons_of_pos hleaf]
    rfl
  | .group guard value label rules, hnamed, hopen => by
    obtain ⟨-, hrules⟩ := Bool.and_eq_true_iff.1 hnamed
    rw [Rule.action?, findAction_eq_first rules hrules, Rule.ways]
    exact (find?_map_inside hopen (ways rules)).symm

/-- … and so does a list of rules. -/
theorem findAction_eq_first :
    ∀ rules : List (Rule γ), areNamed rules = true →
      findAction isOpen rules =
        ((ways rules).find? (isOpenWay isOpen)).map actionOf
  | [], _ => rfl
  | rule :: rest, hnamed => by
    obtain ⟨hrule, hrest⟩ := Bool.and_eq_true_iff.1 hnamed
    have hpast := findAction_eq_first rest hrest
    rw [← find?_map_past rule] at hpast
    rw [ways, List.find?_append]
    cases hopen : isOpen rule.guard with
    | false => rw [findAction_of_closed hopen, find?_ways_of_closed hopen, Option.none_or, hpast]
    | true =>
      have hfirst := action?_eq_first rule hrule hopen
      rcases hfind : rule.ways.find? (isOpenWay isOpen) with - | way
      · rw [hfind] at hfirst
        have hname : rule.isNamed = true := by
          cases rule with
          | leaf => cases hfirst
          | group => exact (Bool.and_eq_true_iff.1 hrule).1
        rw [findAction_of_fruitless hopen hfirst, if_pos hname, Option.none_or, hpast]
      · rw [hfind] at hfirst
        rw [findAction_of_found hopen hfirst, Option.some_or]
        rfl

end

/-! ### Groups that give nothing -/

/-- A group without a name that is open and gives nothing ends its list. -/
theorem findAction_append_of_cut (hopen : isOpen rule.guard = true)
    (hnamed : rule.isNamed = false) (haction : rule.action? isOpen = none) :
    findAction isOpen (before ++ rule :: rest) = findAction isOpen before := by
  induction before with
  | nil =>
    rw [List.nil_append, findAction_of_fruitless hopen haction, hnamed]
    rfl
  | cons first before ih => rw [List.cons_append, findAction, findAction, ih]

/-- A rule that is passed over could as well be left out. -/
theorem findAction_append_of_passed (h : IsPassed isOpen rule) (before : List (Rule γ)) :
    findAction isOpen (before ++ rule :: rest) = findAction isOpen (before ++ rest) := by
  induction before with
  | nil => exact findAction_cons_of_passed h rest
  | cons first before ih => rw [List.cons_append, List.cons_append, findAction, findAction, ih]

/-- Rules that are all passed over give nothing. -/
theorem findAction_eq_none_of_passed (h : ∀ rule ∈ before, IsPassed isOpen rule) :
    findAction isOpen before = none := by
  induction before with
  | nil => rfl
  | cons first before ih =>
    obtain ⟨hfirst, hbefore⟩ := List.forall_mem_cons.1 h
    rw [findAction_cons_of_passed hfirst, ih hbefore]

end

/-- **A search finds the leaf of the one way that qualifies.**  It gives the action of a leaf just
if the way to the leaf qualifies, and one way does at most; it gives nothing just if none does.
Where all groups are named, the leaf is the first one whose way is open.  An open group that gives
nothing ends its list if it has no name, so that the rules behind it do not count, and could as
well be left out if it has one. -/
theorem findAction_by_ways (isOpen : γ → Bool) (rules : List (Rule γ)) :
    (∀ action, findAction isOpen rules = some action ↔
      ∃ way, IsWay rules way ∧ Qualifies isOpen way ∧ actionOf way = action) ∧
    (∀ way other, IsWay rules way → Qualifies isOpen way → IsWay rules other →
      Qualifies isOpen other → way = other) ∧
    (findAction isOpen rules = none ↔
      ∀ way, IsWay rules way → ¬ Qualifies isOpen way) ∧
    (areNamed rules = true →
      (∀ way, way ∈ ways rules ↔ IsWay rules way) ∧
        findAction isOpen rules =
          ((ways rules).find? (isOpenWay isOpen)).map actionOf) ∧
    ∀ before rest guard value label inner, isOpen guard = true →
      findAction isOpen inner = none →
        let group := Rule.group guard value label inner
        (group.isNamed = false →
          findAction isOpen (before ++ group :: rest) = findAction isOpen before ∧
            ((∀ rule ∈ before, IsPassed isOpen rule) →
              findAction isOpen (before ++ group :: rest) = none)) ∧
        (group.isNamed = true →
          findAction isOpen (before ++ group :: rest) =
            findAction isOpen (before ++ rest)) := by
  refine ⟨fun action => ⟨exists_qualifying rules, ?_⟩, ?_, findAction_eq_none_iff, ?_, ?_⟩
  · rintro ⟨way, hway, hq, rfl⟩
    exact findAction_of_qualifies hway hq
  · intro way other hway hq hother hq'
    exact hq.unique hway other hother hq'
  · intro hnamed
    exact ⟨fun way => mem_ways_iff, findAction_eq_first rules hnamed⟩
  · intro before rest guard value label inner hopen hnone group
    constructor
    · intro hnamed
      have hcut : findAction isOpen (before ++ group :: rest) =
          findAction isOpen before :=
        findAction_append_of_cut hopen hnamed (action?_group_eq_none hnone)
      exact ⟨hcut, fun hpassed => hcut.trans (findAction_eq_none_of_passed hpassed)⟩
    · intro hnamed
      exact findAction_append_of_passed (.fruitless hnamed hnone) before

/-- A group that gives nothing in front of a leaf, with a label and without one. -/
theorem findAction_past_group :
    let press : KeyPress := ⟨"y", [], none, none⟩
    let focus : Focus := ⟨none, []⟩
    let isOpen : Guard → Bool := fun guard => guard.isOpen press focus
    let anyKey : Guard := ⟨none, none, none⟩
    let closed : Rule Guard := .leaf ⟨some ["x"], none, none⟩ (.text "A") .null
    let labelled : Rule Guard := .group anyKey .null (.text "more") [closed]
    let bare : Rule Guard := .group anyKey .null .null [closed]
    let last : Rule Guard := .leaf anyKey (.text "B") .null
    findAction isOpen [labelled, last] = some [.text "B"] ∧
      findAction isOpen [labelled, last] =
        ((ways [labelled, last]).find? (isOpenWay isOpen)).map actionOf ∧
      findAction isOpen [labelled, last] = findAction isOpen [last] ∧
      findAction isOpen [bare, last] = none := by
  intro press focus isOpen anyKey closed labelled bare last
  obtain ⟨hfound, -, -, hfirst, hfruitless⟩ := findAction_by_ways isOpen [labelled, last]
  have hinner : findAction isOpen [closed] = none := by decide
  have hpassed : IsPassed isOpen labelled := .fruitless rfl hinner
  refine ⟨?_, (hfirst rfl).2, ?_, ?_⟩
  · apply (hfound _).2
    refine ⟨[⟨[labelled], last⟩], .past .leaf, ?_, rfl⟩
    apply qualifies_past.2 ⟨hpassed, ?_⟩
    exact qualifies_cons.2 ⟨⟨rfl, List.forall_mem_nil _⟩, List.forall_mem_nil _⟩
  · exact (hfruitless [] [last] _ _ _ _ rfl hinner).2 rfl
  · exact ((hfruitless [] [last] _ _ _ _ rfl hinner).1 rfl).2 (List.forall_mem_nil _)

/-- If a list has been ended and its owner has no name either, the list of the owner ends, too. -/
theorem findAction_behind_bare_owner :
    let press : KeyPress := ⟨"y", [], none, none⟩
    let focus : Focus := ⟨none, []⟩
    let isOpen : Guard → Bool := fun guard => guard.isOpen press focus
    let anyKey : Guard := ⟨none, none, none⟩
    let closed : Rule Guard := .leaf ⟨some ["x"], none, none⟩ (.text "A") .null
    let bare : Rule Guard := .group anyKey .null .null [closed]
    let owner : Rule Guard := .group anyKey .null .null [bare]
    let last : Rule Guard := .leaf anyKey (.text "B") .null
    bare.isNamed = false ∧ isOpen bare.guard = true ∧
      findAction isOpen [closed] = none ∧
      findAction isOpen [last] = some [.text "B"] ∧
      findAction isOpen [owner, last] = none := by
  intro press focus isOpen anyKey closed bare owner last
  exact ⟨rfl, rfl, rfl, rfl, rfl⟩

end StructuralEditor.Keymap
