/-
StructuralEditor/Keymap/Compile.lean

Rules from data.  A keymap is a list of records, or a record that has the list
under `mappings`; each record is a rule.  Its fields are all optional, and no
others are allowed.  What is written under `keys`, `modifiers` and `test` may
be a single name or several.

A keymap that does not compile is refused with the first problem, a rule's
keys coming before its nested rules, these before its modifiers and these
before its test.  Keys and modifiers are taken as texts, whatever they are
written as; what cannot be written is a problem of its own.
-/
import StructuralEditor.Data.Literal
import StructuralEditor.Keymap.Rule

namespace StructuralEditor.Keymap

/-- Why a keymap does not compile.  Where a rule is to blame, it is part of
the report. -/
inductive CompileError where
  | notAList
  | ruleNotARecord (rule : Data)
  | unknownFields (names : List String) (rule : Data)
  | nestedNotAList (rule : Data)
  | unknownRequirement (name : String) (rule : Data)
  | unknownModifier (name : String) (rule : Data)
  | unknownCondition (name : String) (rule : Data)
  /-- A field that is no text and so cannot be reported by name. -/
  | fieldNotText
  /-- Something that does not list modifiers or conditions. -/
  | notNames (typeName : String)
  /-- Something that cannot be the name of a condition. -/
  | notAName (typeName : String)
  /-- Something that is to be taken as text and cannot be written. -/
  | unwritable

/-- The rule that an error reports. -/
def CompileError.rule? : CompileError → Option Data
  | .ruleNotARecord rule => some (.record [(.text "value", rule)])
  | .unknownFields _ rule | .nestedNotAList rule | .unknownRequirement _ rule
  | .unknownModifier _ rule | .unknownCondition _ rule => some rule
  | _ => none

/-- The wording of a compile error, the rule aside. -/
def CompileError.summary : CompileError → String
  | .notAList => "Keymap must be a list of rules"
  | .ruleNotARecord _ => "Keymap rule must be a mapping"
  | .unknownFields names _ => "Unknown rule fields: " ++ ", ".intercalate names
  | .nestedNotAList _ => "Nested mappings must be a list"
  | .unknownRequirement name _ => "Unknown modifier predicate '" ++ name ++ "'"
  | .unknownModifier name _ => "Unknown modifier '" ++ name ++ "'"
  | .unknownCondition name _ => "Unknown test predicate '" ++ name ++ "'"
  | .fieldNotText => "Rule field is not text"
  | .notNames typeName => "Not a list of names: " ++ typeName
  | .notAName typeName => "Not a name: " ++ typeName
  | .unwritable => "Integer with too many digits"

/-- The wording of a compile error, if the rule in it can be written. -/
def CompileError.message? (e : CompileError) : Option String :=
  match e.rule? with
  | some rule => rule.literal?.map fun literal => e.summary ++ " (rule: " ++ literal ++ ")"
  | none => some e.summary

/-! ### The fields of a rule -/

/-- The fields that a rule may have. -/
def ruleFields : List String := ["keys", "modifiers", "test", "type", "name", "mappings"]

/-- The keys of the entries that are no fields of a rule, as texts; `none` if
one of them is no text. -/
def strangeFields? : List (Data × Data) → Option (List String)
  | [] => some []
  | (.text name, _) :: rest =>
    (strangeFields? rest).map fun names => if ruleFields.contains name then names else name :: names
  | _ :: _ => none

/-- Refuses fields that a rule may not have, in alphabetical order. -/
def checkFields (entries : List (Data × Data)) : Except CompileError Unit :=
  match strangeFields? entries with
  | none => .error .fieldNotText
  | some [] => .ok ()
  | some names =>
    .error (.unknownFields (names.mergeSort fun a b => decide (a ≤ b)) (.record entries))

/-- A value as text. -/
def textOf (value : Data) : Except CompileError String :=
  match value.asText? with
  | some text => .ok text
  | none => .error .unwritable

/-- The keys of a rule. -/
def compileKeys : Data → Except CompileError (Option (List String))
  | .null => .ok none
  | .list keys => (keys.mapM textOf).map some
  | key => (textOf key).map fun text => some [text]

/-- The members of a value that lists several: the items of a list, the keys
of a record. -/
def members? : Data → Option (List Data)
  | .list items | .tuple items => some items
  | .record entries => some (entries.map Prod.fst)
  | _ => none

/-- The members of a value that ought to list names. -/
def listed (value : Data) : Except CompileError (List Data) :=
  match members? value with
  | some items => .ok items
  | none => .error (.notNames value.typeName)

/-- The modifier of a given name. -/
def compileModifier (rule : Data) (name : String) : Except CompileError Modifier :=
  match Modifier.ofName? name with
  | some modifier => .ok modifier
  | none => .error (.unknownModifier name rule)

/-- The modifiers that a value lists.  All of its members are taken as texts before
any is looked up. -/
def compileModifiers (rule value : Data) : Except CompileError (List Modifier) := do
  let items ← listed value
  let names ← items.mapM textOf
  names.mapM (compileModifier rule)

/-- The modifiers that a rule requires. -/
def compileRequirement (rule : Data) : Data → Except CompileError (Option Requirement)
  | .null => .ok none
  | .text name =>
    if name = Requirement.ctrlIfEditableName then .ok (some .ctrlIfEditable)
    else .error (.unknownRequirement name rule)
  | value => (compileModifiers rule value).map fun required => some (.modifiers required)

/-- Why a value that can be looked up names no condition. -/
def unknownCondition (rule item : Data) : CompileError :=
  match item.asText? with
  | some name => .unknownCondition name rule
  | none => .unwritable

/-- The condition that a value names. -/
def compileCondition (rule item : Data) : Except CompileError Condition :=
  if item.isLookupKey then
    match item with
    | .text name =>
      match Condition.ofName? name with
      | some condition => .ok condition
      | none => .error (.unknownCondition name rule)
    | _ => .error (unknownCondition rule item)
  else .error (.notAName item.typeName)

/-- The conditions that a value lists. -/
def compileConditions (rule value : Data) : Except CompileError (List Condition) := do
  let items ← listed value
  items.mapM (compileCondition rule)

/-- The test for all of the given conditions. -/
def Test.ofConditions : List Condition → Test
  | [condition] => .one condition
  | several => .every several

/-- The test of a rule. -/
def compileTest (rule : Data) : Data → Except CompileError (Option Test)
  | .null => .ok none
  | .text name => (compileCondition rule (.text name)).map fun c => some (.one c)
  | value =>
    (compileConditions rule value).map fun conditions => some (.ofConditions conditions)

/-! ### Rules -/

/-- The rule of a record, given what its nested rules come to. -/
def assemble (entries : List (Data × Data))
    (nested : Except CompileError (Option (List (Rule Guard)))) :
    Except CompileError (Rule Guard) := do
  let rule := Data.record entries
  checkFields entries
  let keys? ← compileKeys (rule.field "keys")
  let rules? ← nested
  let requirement? ← compileRequirement rule (rule.field "modifiers")
  let test? ← compileTest rule (rule.field "test")
  let guard : Guard := ⟨keys?, requirement?, test?⟩
  match rules? with
  | none => .ok (.leaf guard (rule.field "type") (rule.field "name"))
  | some rules => .ok (.group guard (rule.field "type") (rule.field "name") rules)

mutual

/-- The rule of a value. -/
def compileRule : Data → Except CompileError (Rule Guard)
  | .record entries => assemble entries (compileNested (.record entries) entries)
  | other => .error (.ruleNotARecord other)

/-- The rules below the rule with the given entries, if it has any. -/
def compileNested (rule : Data) :
    List (Data × Data) → Except CompileError (Option (List (Rule Guard)))
  | [] => .ok none
  | (.text "mappings", .null) :: _ => .ok none
  | (.text "mappings", .list items) :: _ => (compileRules items).map some
  | (.text "mappings", _) :: _ => .error (.nestedNotAList rule)
  | _ :: rest => compileNested rule rest

/-- The rules of values. -/
def compileRules : List Data → Except CompileError (List (Rule Guard))
  | [] => .ok []
  | item :: rest => do
    let rule ← compileRule item
    let rules ← compileRules rest
    .ok (rule :: rules)

end

/-- The rules of a keymap. -/
def compile (keymap : Data) : Except CompileError (List (Rule Guard)) :=
  let rules := match keymap with
    | .record _ => keymap.field "mappings"
    | other => other
  match rules with
  | .list items => compileRules items
  | _ => .error .notAList

end StructuralEditor.Keymap
