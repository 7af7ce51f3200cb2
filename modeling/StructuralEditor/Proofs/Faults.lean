/-
StructuralEditor/Proofs/Faults.lean

Why a keymap does not compile.

A keymap may have many faults, in its rules and in the rules below them.  Compiling
stops at one; `faults` goes on and lists all of them in the order in which they are
looked for.  Compiling reports them, which is to say that it fails with the first of
them and succeeds if there are none (`Reports`).  What reports faults may be put together
like the lists of faults themselves, so each part of the compiler is compared with the
part of `faults` that it looks for.

Not all faults are foreseen.  A field whose name is no text, modifiers or a test
that list nothing, a list or a record in place of the name of a condition, and an
integer with too many digits in a key or a name have no words of refusal, and a
keymap with such a fault in front fails in another way than a refused one.  These
faults are looked for in every rule at every depth (`strays_faults`).
-/
import StructuralEditor.Keymap.Compile
import StructuralEditor.Proofs.Results

namespace StructuralEditor

namespace Keymap

/-! ### The faults of a keymap -/

/-- The fault of a value that is to be taken as text. -/
def textFault? (item : Data) : Option CompileError :=
  if item.asText?.isSome then none else some .unwritable

/-- The keys that a value lists. -/
def keyList : Data → List Data
  | .null => []
  | .list keys => keys
  | key => [key]

/-- The faults of the keys of a rule. -/
def keysFaults (value : Data) : List CompileError :=
  (keyList value).filterMap textFault?

/-- The fault of the name of a modifier, once it is text. -/
def modifierFault? (rule item : Data) : Option CompileError :=
  item.asText?.bind fun name =>
    if (Modifier.ofName? name).isSome then none else some (.unknownModifier name rule)

/-- The fault of the name of a condition. -/
def conditionFault? (rule : Data) : Data → Option CompileError
  | .text name =>
    if (Condition.ofName? name).isSome then none else some (.unknownCondition name rule)
  | item => some (if item.isLookupKey then unknownCondition rule item else .notAName item.typeName)

/-- The faults of a value that ought to list names, given those of its members. -/
def listedFaults (faults : List Data → List CompileError) (value : Data) : List CompileError :=
  match members? value with
  | none => [.notNames value.typeName]
  | some items => faults items

/-- The faults of the names of modifiers. -/
def modifiersFaults (rule : Data) (items : List Data) : List CompileError :=
  items.filterMap textFault? ++ items.filterMap (modifierFault? rule)

/-- The faults of the modifiers of a rule. -/
def requirementFaults (rule : Data) : Data → List CompileError
  | .null => []
  | .text name =>
    if name = Requirement.ctrlIfEditableName then [] else [.unknownRequirement name rule]
  | value => listedFaults (modifiersFaults rule) value

/-- The faults of the test of a rule. -/
def testFaults (rule : Data) : Data → List CompileError
  | .null => []
  | .text name => (conditionFault? rule (.text name)).toList
  | value => listedFaults (List.filterMap (conditionFault? rule)) value

/-- The faults of the names of the fields of a rule. -/
def fieldFaults (entries : List (Data × Data)) : List CompileError :=
  match strangeFields? entries with
  | none => [.fieldNotText]
  | some [] => []
  | some names =>
    [.unknownFields (names.mergeSort fun a b => decide (a ≤ b)) (.record entries)]

/-- The faults of a rule, given those of the rules below it. -/
def entriesFaults (entries : List (Data × Data)) (nested : List CompileError) :
    List CompileError :=
  let rule := Data.record entries
  fieldFaults entries ++ (keysFaults (rule.field "keys") ++ (nested ++
    (requirementFaults rule (rule.field "modifiers") ++ testFaults rule (rule.field "test"))))

mutual

/-- The faults of a rule and of the rules below it. -/
def ruleFaults : Data → List CompileError
  | .record entries => entriesFaults entries (nestedFaults (.record entries) entries)
  | other => [.ruleNotARecord other]

/-- The faults of the rules below the rule with the given entries. -/
def nestedFaults (rule : Data) : List (Data × Data) → List CompileError
  | [] => []
  | (.text "mappings", .null) :: _ => []
  | (.text "mappings", .list items) :: _ => rulesFaults items
  | (.text "mappings", _) :: _ => [.nestedNotAList rule]
  | _ :: rest => nestedFaults rule rest

/-- The faults of several rules. -/
def rulesFaults : List Data → List CompileError
  | [] => []
  | item :: rest => ruleFaults item ++ rulesFaults rest

end

/-- The rules of a keymap, as data. -/
def rulesOf? (keymap : Data) : Option (List Data) :=
  match keymap with
  | .list items => some items
  | .record _ =>
    match keymap.field "mappings" with
    | .list items => some items
    | _ => none
  | _ => none

/-- The faults of a keymap, in the order in which they are looked for. -/
def faults (keymap : Data) : List CompileError :=
  match rulesOf? keymap with
  | none => [.notAList]
  | some items => rulesFaults items

/-! ### Compiling reports the faults -/

theorem reports_checkFields (entries : List (Data × Data)) :
    Reports (fieldFaults entries) (checkFields entries) := by
  unfold fieldFaults checkFields
  rcases strangeFields? entries with - | ⟨- | ⟨name, names⟩⟩
  · exact Reports.error _ _
  · exact Reports.ok ()
  · exact Reports.error _ _

theorem reports_textOf (item : Data) : Reports (textFault? item).toList (textOf item) := by
  unfold textFault? textOf
  rcases item.asText? with - | text
  · exact Reports.error _ _
  · exact Reports.ok text

theorem reports_compileKeys (value : Data) : Reports (keysFaults value) (compileKeys value) := by
  have hone (key : Data) : Reports ([key].filterMap textFault?)
      ((textOf key).map fun text => some [text]) := by
    have hkey := (reports_textOf key).map fun text => some [text]
    rcases e : textFault? key with - | fault <;> simpa [e] using hkey
  cases value with
  | null => exact Reports.ok none
  | list keys => exact (Reports.mapM reports_textOf keys).map some
  | _ => exact hone _

theorem textOf_eq_ok {item : Data} {name : String} :
    textOf item = .ok name ↔ item.asText? = some name := by
  unfold textOf
  rcases item.asText? with - | text <;> simp

theorem reports_compileModifier (rule : Data) {item : Data} {name : String}
    (h : item.asText? = some name) :
    Reports (modifierFault? rule item).toList (compileModifier rule name) := by
  rw [modifierFault?, h, Option.bind_some, compileModifier]
  rcases Modifier.ofName? name with - | modifier
  · exact Reports.error _ _
  · exact Reports.ok modifier

/-- Once all members have been taken as texts, they are looked up one after another. -/
theorem reports_lookups {rule : Data} {items : List Data} {names : List String}
    (h : items.mapM textOf = .ok names) :
    Reports (items.filterMap (modifierFault? rule)) (names.mapM (compileModifier rule)) := by
  induction items generalizing names with
  | nil =>
    cases h
    exact Reports.ok []
  | cons item rest ih =>
    rw [List.mapM_cons] at h
    obtain ⟨name, hname, h⟩ := bind_eq_ok.1 h
    obtain ⟨names', hnames, h⟩ := bind_eq_ok.1 h
    cases h
    have hitem := reports_compileModifier rule (textOf_eq_ok.1 hname)
    rw [filterMap_cons_eq_append, List.mapM_cons]
    exact hitem.bind fun modifier => (ih hnames).bind_ok fun modifiers => ⟨_, rfl⟩

theorem reports_compileModifiers (rule value : Data) :
    Reports (listedFaults (modifiersFaults rule) value) (compileModifiers rule value) := by
  unfold listedFaults compileModifiers listed
  rcases members? value with - | items
  · exact Reports.error _ _
  · exact (Reports.mapM reports_textOf items).bind_of_ok fun names => reports_lookups

theorem reports_compileCondition (rule item : Data) :
    Reports (conditionFault? rule item).toList (compileCondition rule item) := by
  cases item with
  | text name =>
    simp only [conditionFault?, compileCondition, Data.isLookupKey, if_true]
    rcases Condition.ofName? name with - | condition
    · exact Reports.error _ _
    · exact Reports.ok condition
  | tuple items =>
    simp only [conditionFault?, compileCondition]
    split <;> exact Reports.error _ _
  | foreign kind => cases kind <;> exact Reports.error _ _
  | _ => exact Reports.error _ _

theorem reports_compileConditions (rule value : Data) :
    Reports (listedFaults (List.filterMap (conditionFault? rule)) value)
      (compileConditions rule value) := by
  unfold listedFaults compileConditions listed
  rcases members? value with - | items
  · exact Reports.error _ _
  · exact Reports.mapM (reports_compileCondition rule) items

theorem reports_compileRequirement (rule value : Data) :
    Reports (requirementFaults rule value) (compileRequirement rule value) := by
  have hnames := (reports_compileModifiers rule value).map
    fun required => some (Requirement.modifiers required)
  cases value with
  | null => exact Reports.ok none
  | text name =>
    rw [requirementFaults, compileRequirement]
    split
    · exact Reports.ok _
    · exact Reports.error _ _
  | _ => exact hnames

theorem reports_compileTest (rule value : Data) :
    Reports (testFaults rule value) (compileTest rule value) := by
  have hnames := (reports_compileConditions rule value).map
    fun conditions => some (Test.ofConditions conditions)
  cases value with
  | null => exact Reports.ok none
  | text name => exact (reports_compileCondition rule (.text name)).map _
  | _ => exact hnames

/-- The record of a rule reports its own faults around those of the rules below. -/
theorem reports_assemble {entries : List (Data × Data)} {below : List CompileError}
    {nested : Except CompileError (Option (List (Rule Guard)))} (h : Reports below nested) :
    Reports (entriesFaults entries below) (assemble entries nested) := by
  refine (reports_checkFields entries).bind fun _ => ?_
  refine (reports_compileKeys _).bind fun keys? => h.bind fun rules? => ?_
  refine (reports_compileRequirement _ _).bind fun requirement? => ?_
  refine (reports_compileTest _ _).bind_ok fun test? => ?_
  rcases rules? with - | rules <;> exact ⟨_, rfl⟩

mutual

theorem reports_compileRule (rule : Data) : Reports (ruleFaults rule) (compileRule rule) := by
  cases rule with
  | record entries =>
    rw [ruleFaults, compileRule]
    exact reports_assemble (reports_compileNested (.record entries) entries)
  | _ => exact Reports.error _ _

theorem reports_compileNested (rule : Data) (entries : List (Data × Data)) :
    Reports (nestedFaults rule entries) (compileNested rule entries) := by
  unfold nestedFaults
  split
  · exact Reports.ok none
  · exact Reports.ok none
  · exact (reports_compileRules _).map some
  · next other rest hnull hlist =>
    rw [compileNested]
    · exact Reports.error _ _
    · exact hnull
    · exact hlist
  · next entry rest hnull hlist hother =>
    rw [compileNested]
    · exact reports_compileNested rule rest
    · exact hnull
    · exact hlist
    · exact hother

theorem reports_compileRules (items : List Data) :
    Reports (rulesFaults items) (compileRules items) := by
  cases items with
  | nil => exact Reports.ok []
  | cons item rest =>
    rw [rulesFaults, compileRules]
    exact (reports_compileRule item).bind fun rule =>
      (reports_compileRules rest).bind_ok fun rules => ⟨rule :: rules, rfl⟩

end

theorem reports_compile (keymap : Data) : Reports (faults keymap) (compile keymap) := by
  cases keymap with
  | list items => exact reports_compileRules items
  | record entries =>
    simp only [faults, rulesOf?, compile]
    rcases (Data.record entries).field "mappings" with - | - | - | - | - | items | - | - | - | -
    case list => exact reports_compileRules items
    all_goals exact Reports.error _ _
  | _ => exact Reports.error _ _

/-! ### Faults that are not foreseen -/

/-- Whether an error is a refusal of the keymap.  The others are failures on the way
to one: names that are no texts and so cannot be listed, a value that has no members
to go through, a member that cannot be looked up, a value that cannot be written. -/
def CompileError.isForeseen : CompileError → Bool
  | .fieldNotText | .notNames _ | .notAName _ | .unwritable => false
  | _ => true

/-- Whether a value is no text and has no members. -/
def listsNothing : Data → Bool
  | .boolean _ | .integer _ | .decimal _ | .node _ | .foreign _ => true
  | _ => false

/-- The faults of a rule that are not foreseen. -/
inductive HasStrayFault (entries : List (Data × Data)) : Prop where
  /-- A field whose name is no text. -/
  | field (key value : Data) : (key, value) ∈ entries → (∀ name, key ≠ .text name) →
      HasStrayFault entries
  /-- A key that cannot be written. -/
  | key (key : Data) : key ∈ keyList ((Data.record entries).field "keys") →
      key.isWritable = false → HasStrayFault entries
  /-- A number, or the like, in place of modifiers. -/
  | requirement : listsNothing ((Data.record entries).field "modifiers") → HasStrayFault entries
  /-- The name of a modifier that cannot be written. -/
  | modifier (items : List Data) (item : Data) :
      members? ((Data.record entries).field "modifiers") = some items → item ∈ items →
      item.isWritable = false → HasStrayFault entries
  /-- A number, or the like, in place of a test. -/
  | test : listsNothing ((Data.record entries).field "test") → HasStrayFault entries
  /-- A list or a record in place of the name of a condition, or something else there that
  cannot be written. -/
  | condition (items : List Data) (item : Data) :
      members? ((Data.record entries).field "test") = some items → item ∈ items →
      (item.isLookupKey = false ∨ item.isWritable = false) → HasStrayFault entries

/-- Whether entries are those of a rule among the given ones or below one of them. -/
inductive IsRuleIn : List Data → List (Data × Data) → Prop where
  | top {items : List Data} {entries : List (Data × Data)} :
      .record entries ∈ items → IsRuleIn items entries
  | nested {items subitems : List Data} {entries inner : List (Data × Data)} :
      .record entries ∈ items → (Data.record entries).field "mappings" = .list subitems →
      IsRuleIn subitems inner → IsRuleIn items inner

/-- Whether entries are those of a rule of a keymap, at any depth. -/
def IsRuleOf (keymap : Data) (entries : List (Data × Data)) : Prop :=
  ∃ items, rulesOf? keymap = some items ∧ IsRuleIn items entries

/-- Whether some of the faults are not foreseen. -/
def Strays (faults : List CompileError) : Prop :=
  ∃ e ∈ faults, e.isForeseen = false

@[simp]
theorem strays_nil : ¬ Strays [] := by
  rintro ⟨e, he, -⟩
  exact List.not_mem_nil he

@[simp]
theorem strays_singleton (e : CompileError) : Strays [e] ↔ e.isForeseen = false := by
  simp [Strays]

@[simp]
theorem strays_append (faults more : List CompileError) :
    Strays (faults ++ more) ↔ Strays faults ∨ Strays more := by
  simp [Strays, or_and_right, exists_or]

/-! ### The faults of one rule -/

theorem strangeFields?_eq_none (entries : List (Data × Data)) :
    strangeFields? entries = none ↔ ∃ entry ∈ entries, ∀ name, entry.1 ≠ .text name := by
  induction entries with
  | nil => simp [strangeFields?]
  | cons entry rest ih =>
    obtain ⟨key, value⟩ := entry
    cases key <;> simp [strangeFields?, ih]

theorem strays_fieldFaults (entries : List (Data × Data)) :
    Strays (fieldFaults entries) ↔ ∃ entry ∈ entries, ∀ name, entry.1 ≠ .text name := by
  rw [← strangeFields?_eq_none, fieldFaults]
  rcases strangeFields? entries with - | ⟨- | ⟨name, names⟩⟩ <;> simp [CompileError.isForeseen]

theorem strays_filterMap (fault? : Data → Option CompileError) (items : List Data) :
    Strays (items.filterMap fault?) ↔
      ∃ item ∈ items, ∃ e, fault? item = some e ∧ e.isForeseen = false := by
  simp only [Strays, List.mem_filterMap]
  constructor
  · rintro ⟨e, ⟨item, hitem, he⟩, hstray⟩
    exact ⟨item, hitem, e, he, hstray⟩
  · rintro ⟨item, hitem, e, he, hstray⟩
    exact ⟨e, ⟨item, hitem, he⟩, hstray⟩

/-- The faults of a value that ought to list names are as unforeseen as those of its
members, and what lists nothing is so as a whole. -/
theorem strays_listedFaults (faults : List Data → List CompileError) (value : Data) :
    Strays (listedFaults faults value) ↔ members? value = none ∨
      ∃ items, members? value = some items ∧ Strays (faults items) := by
  unfold listedFaults
  rcases members? value with - | items
  · simp [CompileError.isForeseen]
  · simp

/-- What is to be taken as text is at fault if it cannot be written, and that is not
foreseen. -/
theorem strays_textFaults (items : List Data) :
    Strays (items.filterMap textFault?) ↔ ∃ item ∈ items, item.isWritable = false := by
  have htext (item : Data) : (∃ e, textFault? item = some e ∧ e.isForeseen = false) ↔
      item.isWritable = false := by
    rw [← Data.asText?_eq_none_iff, textFault?]
    rcases item.asText? with - | text <;> simp [CompileError.isForeseen]
  simp only [strays_filterMap, htext]

theorem modifierFault?_isForeseen {rule item : Data} {e : CompileError}
    (h : modifierFault? rule item = some e) : e.isForeseen := by
  obtain ⟨name, -, h⟩ := Option.bind_eq_some_iff.1 h
  split at h
  · cases h
  · obtain rfl := Option.some.inj h
    rfl

theorem strays_modifiersFaults (rule : Data) (items : List Data) :
    Strays (modifiersFaults rule items) ↔ ∃ item ∈ items, item.isWritable = false := by
  have hlookups : ¬ Strays (items.filterMap (modifierFault? rule)) := by
    rw [strays_filterMap]
    rintro ⟨item, -, e, he, hstray⟩
    rw [modifierFault?_isForeseen he] at hstray
    cases hstray
  rw [modifiersFaults, strays_append, strays_textFaults, or_iff_left hlookups]

/-- The name of a condition is at fault in an unforeseen way if it cannot be looked
up at all, or cannot be written for the refusal. -/
theorem conditionFault?_isForeseen (rule item : Data) :
    (∃ e, conditionFault? rule item = some e ∧ e.isForeseen = false) ↔
      item.isLookupKey = false ∨ item.isWritable = false := by
  have hunknown : (unknownCondition rule item).isForeseen = false ↔ item.isWritable = false := by
    rw [← Data.asText?_eq_none_iff, unknownCondition]
    rcases item.asText? with - | name <;> simp [CompileError.isForeseen]
  have hother : (∃ e, some (if item.isLookupKey then unknownCondition rule item
      else .notAName item.typeName) = some e ∧ e.isForeseen = false) ↔
      item.isLookupKey = false ∨ item.isWritable = false := by
    simp only [Option.some.injEq, exists_eq_left']
    split
    · next hkey => simp [hunknown, hkey]
    · next hkey => simp [CompileError.isForeseen, hkey]
  cases item with
  | text name =>
    simp only [conditionFault?, Data.isLookupKey, Data.isWritable]
    split <;> simp [CompileError.isForeseen]
  | _ => exact hother

theorem strays_conditionsFaults (rule : Data) (items : List Data) :
    Strays (items.filterMap (conditionFault? rule)) ↔
      ∃ item ∈ items, item.isLookupKey = false ∨ item.isWritable = false := by
  simp only [strays_filterMap, conditionFault?_isForeseen]

theorem strays_requirementFaults (rule value : Data) :
    Strays (requirementFaults rule value) ↔ listsNothing value ∨
      ∃ items, members? value = some items ∧ ∃ item ∈ items, item.isWritable = false := by
  have hnames := strays_listedFaults (modifiersFaults rule) value
  simp only [strays_modifiersFaults] at hnames
  cases value with
  | null => simp [requirementFaults, listsNothing, members?]
  | text name =>
    rw [requirementFaults]
    split <;> simp [listsNothing, members?, CompileError.isForeseen]
  | _ => exact hnames.trans (by simp [members?, listsNothing])

theorem strays_testFaults (rule value : Data) :
    Strays (testFaults rule value) ↔ listsNothing value ∨
      ∃ items, members? value = some items ∧
        ∃ item ∈ items, item.isLookupKey = false ∨ item.isWritable = false := by
  have hnames := strays_listedFaults (List.filterMap (conditionFault? rule)) value
  simp only [strays_conditionsFaults] at hnames
  cases value with
  | null => simp [testFaults, listsNothing, members?]
  | text name =>
    simp only [testFaults, conditionFault?]
    split <;> simp [listsNothing, members?, CompileError.isForeseen]
  | _ => exact hnames.trans (by simp [members?, listsNothing])

theorem hasStrayFault_iff (entries : List (Data × Data)) :
    HasStrayFault entries ↔
      let rule := Data.record entries
      Strays (fieldFaults entries) ∨ Strays (keysFaults (rule.field "keys")) ∨
        Strays (requirementFaults rule (rule.field "modifiers")) ∨
        Strays (testFaults rule (rule.field "test")) := by
  simp only [strays_fieldFaults, keysFaults, strays_textFaults, strays_requirementFaults,
    strays_testFaults]
  constructor
  · rintro (⟨key, value, hmem, hkey⟩ | ⟨key, hmem, hkey⟩ | h | ⟨items, item, hitems, hmem, hitem⟩ |
      h | ⟨items, item, hitems, hmem, hitem⟩)
    · exact .inl ⟨(key, value), hmem, hkey⟩
    · exact .inr (.inl ⟨key, hmem, hkey⟩)
    · exact .inr (.inr (.inl (.inl h)))
    · exact .inr (.inr (.inl (.inr ⟨items, hitems, item, hmem, hitem⟩)))
    · exact .inr (.inr (.inr (.inl h)))
    · exact .inr (.inr (.inr (.inr ⟨items, hitems, item, hmem, hitem⟩)))
  · rintro (⟨⟨key, value⟩, hmem, hkey⟩ | ⟨key, hmem, hkey⟩ |
      (h | ⟨items, hitems, item, hmem, hitem⟩) | (h | ⟨items, hitems, item, hmem, hitem⟩))
    · exact .field key value hmem hkey
    · exact .key key hmem hkey
    · exact .requirement h
    · exact .modifier items item hitems hmem hitem
    · exact .test h
    · exact .condition items item hitems hmem hitem

/-- The unforeseen faults of a rule are its own and those of the rules below. -/
theorem strays_entriesFaults (entries : List (Data × Data)) (nested : List CompileError) :
    Strays (entriesFaults entries nested) ↔ HasStrayFault entries ∨ Strays nested := by
  simp only [entriesFaults, strays_append, hasStrayFault_iff, or_left_comm, or_comm]

/-! ### The faults of all rules -/

theorem nestedFaults_cons_of_ne {rule key value : Data} {rest : List (Data × Data)}
    (h : key ≠ .text "mappings") :
    nestedFaults rule ((key, value) :: rest) = nestedFaults rule rest := by
  rw [nestedFaults] <;> simp_all

theorem field_cons_of_ne {key value : Data} {rest : List (Data × Data)}
    (h : key ≠ .text "mappings") :
    (Data.record ((key, value) :: rest)).field "mappings" =
      (Data.record rest).field "mappings" := by
  cases key <;> simp_all [Data.field, Data.field?, Data.lookup?]

theorem nestedFaults_eq (rule : Data) (entries : List (Data × Data)) :
    nestedFaults rule entries =
      match (Data.record entries).field "mappings" with
      | .null => []
      | .list items => rulesFaults items
      | _ => [.nestedNotAList rule] := by
  induction entries with
  | nil => rfl
  | cons entry rest ih =>
    obtain ⟨key, value⟩ := entry
    by_cases hkey : key = .text "mappings"
    · subst hkey
      cases value <;> simp [nestedFaults, Data.field, Data.field?, Data.lookup?]
    · rw [nestedFaults_cons_of_ne hkey, field_cons_of_ne hkey, ih]

theorem rulesFaults_eq (items : List Data) : rulesFaults items = items.flatMap ruleFaults := by
  induction items with
  | nil => rfl
  | cons item rest ih => rw [rulesFaults, ih, List.flatMap_cons]

theorem IsRuleIn.mono {items more : List Data} {entries : List (Data × Data)}
    (h : IsRuleIn items entries) (hsub : items ⊆ more) : IsRuleIn more entries := by
  cases h with
  | top hmem => exact .top (hsub hmem)
  | nested hmem hfield hin => exact .nested (hsub hmem) hfield hin

theorem strays_of_mem {items : List Data} {rule : Data} (hmem : rule ∈ items)
    (h : Strays (ruleFaults rule)) : Strays (rulesFaults items) := by
  obtain ⟨e, he, hstray⟩ := h
  rw [rulesFaults_eq]
  exact ⟨e, List.mem_flatMap_of_mem hmem he, hstray⟩

theorem strays_of_isRuleIn {items : List Data} {entries : List (Data × Data)}
    (h : IsRuleIn items entries) (hstray : HasStrayFault entries) : Strays (rulesFaults items) := by
  induction h with
  | top hmem =>
    apply strays_of_mem hmem
    rw [ruleFaults, strays_entriesFaults]
    exact .inl hstray
  | nested hmem hsub _ ih =>
    apply strays_of_mem hmem
    rw [ruleFaults, strays_entriesFaults, nestedFaults_eq, hsub]
    exact .inr (ih hstray)

-- the way back goes along the data, as the faults themselves do
mutual

theorem exists_of_strays_rule (rule : Data) (h : Strays (ruleFaults rule)) :
    ∃ entries, IsRuleIn [rule] entries ∧ HasStrayFault entries := by
  cases rule with
  | record entries =>
    rw [ruleFaults, strays_entriesFaults] at h
    rcases h with h | h
    · exact ⟨entries, .top (List.mem_singleton_self _), h⟩
    · obtain ⟨subitems, hsub, inner, hin, hstray⟩ := exists_of_strays_nested _ entries h
      exact ⟨inner, .nested (List.mem_singleton_self _) hsub hin, hstray⟩
  | _ => simp [ruleFaults, CompileError.isForeseen] at h

theorem exists_of_strays_nested (rule : Data) (entries : List (Data × Data))
    (h : Strays (nestedFaults rule entries)) :
    ∃ subitems, (Data.record entries).field "mappings" = .list subitems ∧
      ∃ inner, IsRuleIn subitems inner ∧ HasStrayFault inner := by
  unfold nestedFaults at h
  split at h
  · exact absurd h strays_nil
  · exact absurd h strays_nil
  · next subitems rest => exact ⟨subitems, rfl, exists_of_strays_rules subitems h⟩
  · exact absurd ((strays_singleton _).1 h) nofun
  · next entry rest hnull hlist hother =>
    obtain ⟨subitems, hsub, hinner⟩ := exists_of_strays_nested rule rest h
    have hkey : entry.1 ≠ .text "mappings" := by
      intro hkey
      exact hother entry.2 (by rw [← hkey])
    exact ⟨subitems, (field_cons_of_ne hkey).trans hsub, hinner⟩

theorem exists_of_strays_rules (items : List Data) (h : Strays (rulesFaults items)) :
    ∃ entries, IsRuleIn items entries ∧ HasStrayFault entries := by
  cases items with
  | nil => exact absurd h strays_nil
  | cons item rest =>
    rw [rulesFaults, strays_append] at h
    rcases h with h | h
    · obtain ⟨entries, hin, hstray⟩ := exists_of_strays_rule item h
      exact ⟨entries, hin.mono (by simp), hstray⟩
    · obtain ⟨entries, hin, hstray⟩ := exists_of_strays_rules rest h
      exact ⟨entries, hin.mono (List.subset_cons_self _ _), hstray⟩

end

/-- A keymap has an unforeseen fault if one of its rules has, at whatever depth. -/
theorem strays_faults (keymap : Data) :
    Strays (faults keymap) ↔ ∃ entries, IsRuleOf keymap entries ∧ HasStrayFault entries := by
  unfold faults IsRuleOf
  rcases rulesOf? keymap with - | items
  · simp [CompileError.isForeseen]
  · simp only [Option.some.injEq, exists_eq_left']
    constructor
    · exact exists_of_strays_rules items
    · rintro ⟨entries, hin, hstray⟩
      exact strays_of_isRuleIn hin hstray

/-! ### What compiling comes to -/

/-- **Every keymap compiles or fails with its first fault.**  It compiles if it has
no faults, and else the first is what it fails with.  Only where one of its rules
has a stray fault can the failure be other than a refusal of the keymap. -/
theorem compile_outcome (keymap : Data) :
    ((∃ rules, compile keymap = .ok rules) ↔ faults keymap = []) ∧
      (∀ e, compile keymap = .error e ↔ (faults keymap).head? = some e) ∧
      ((∃ e ∈ faults keymap, e.isForeseen = false) ↔
        ∃ entries, IsRuleOf keymap entries ∧ HasStrayFault entries) :=
  ⟨(reports_compile keymap).iff.1, (reports_compile keymap).iff.2, strays_faults keymap⟩

/-- An integer with too many digits is no refused key, modifier or condition. -/
theorem compile_of_unwritable {i : Int} (h : Data.isWritableInteger i = false) :
    compile (.list [.record [(.text "keys", .list [.integer i])]]) = .error .unwritable ∧
      compile (.list [.record [(.text "modifiers", .list [.integer i])]]) = .error .unwritable ∧
      compile (.list [.record [(.text "test", .list [.integer i])]]) = .error .unwritable := by
  have hnone : (Data.integer i).asText? = none := Data.asText?_eq_none_iff.2 h
  have htext : textFault? (.integer i) = some .unwritable := by
    rw [textFault?, hnone]
    rfl
  have hcondition (rule : Data) : conditionFault? rule (.integer i) = some .unwritable := by
    show some (unknownCondition rule (.integer i)) = _
    rw [unknownCondition, hnone]
  refine ⟨((reports_compile _).iff.2 _).2 ?_, ((reports_compile _).iff.2 _).2 ?_,
    ((reports_compile _).iff.2 _).2 ?_⟩
  · show (([Data.integer i].filterMap textFault? ++ []) ++ []).head? = _
    rw [filterMap_cons_eq_append, htext]
    rfl
  · show ((([Data.integer i].filterMap textFault? ++ _) ++ []) ++ []).head? = _
    rw [filterMap_cons_eq_append, htext]
    rfl
  · show ([Data.integer i].filterMap (conditionFault? _) ++ []).head? = _
    rw [filterMap_cons_eq_append, hcondition]
    rfl

/-- A field `1`, modifiers `5`, a test `5`, a list in place of the name of a condition, and
an integer with too many digits in place of a key, a modifier or a condition are no
keymaps, and none is refused as such. -/
theorem compile_of_stray_faults :
    let many := Data.integer Number.leastOverlong
    compile (.list [.record [(.integer 1, .integer 2)]]) = .error .fieldNotText ∧
      compile (.list [.record [(.text "modifiers", .integer 5)]]) = .error (.notNames "int") ∧
      compile (.list [.record [(.text "test", .integer 5)]]) = .error (.notNames "int") ∧
      compile (.list [.record [(.text "test", .list [.list [.text "is_null"]])]]) =
        .error (.notAName "list") ∧
      (compile (.list [.record [(.text "keys", .list [many])]]) = .error .unwritable ∧
        compile (.list [.record [(.text "modifiers", .list [many])]]) = .error .unwritable ∧
        compile (.list [.record [(.text "test", .list [many])]]) = .error .unwritable) ∧
      [CompileError.fieldNotText, .notNames "int", .notAName "list", .unwritable].all
        (!·.isForeseen) :=
  ⟨rfl, rfl, rfl, rfl, compile_of_unwritable Data.isWritableInteger_leastOverlong, rfl⟩

end Keymap

end StructuralEditor
