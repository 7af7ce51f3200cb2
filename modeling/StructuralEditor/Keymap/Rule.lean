/-
StructuralEditor/Keymap/Rule.lean

A keymap is an ordered tree of rules.  A rule applies to a key press if its
guard is open; a leaf then gives its value, and a group looks among the rules
below it.  The action found is the list of the values along the way from the
top to the leaf, those of groups without a value left out.

A search only asks of a guard whether it is open, so guards may be of any type.
Those of a keymap that has been compiled are keys, modifiers and tests that have
names (`Guard`), and the press and the selection decide whether they are open.

The first rule that gives an action decides.  A group whose rules give none is
passed over, with one exception: a group with neither value nor label ends the
search of its list.
-/
import StructuralEditor.Keymap.Condition

namespace StructuralEditor.Keymap

open Document

/-- The conditions of a rule by their names.  A missing one is always met. -/
structure Guard where
  keys? : Option (List String)
  requirement? : Option Requirement
  test? : Option Test
  deriving DecidableEq

/-- Whether all conditions of a guard are met. -/
def Guard.isOpen (guard : Guard) (press : KeyPress) (focus : Focus) : Bool :=
  guard.requirement?.all (fun r => (r.required focus).all press.holds) &&
    guard.keys?.all (·.contains press.key) &&
    guard.test?.all (Test.passes focus)

/-- A rule of a keymap.  The value of a top rule names an action and the value
of a leaf below is its parameter; null means that there is none. -/
inductive Rule (γ : Type) where
  | leaf (guard : γ) (value label : Data)
  | group (guard : γ) (value label : Data) (rules : List (Rule γ))

namespace Rule

variable {γ : Type}

/-- The guard of a rule. -/
def guard : Rule γ → γ
  | .leaf guard _ _ | .group guard _ _ _ => guard

/-- The value of a rule. -/
def value : Rule γ → Data
  | .leaf _ value _ | .group _ value _ _ => value

/-- The label of a rule. -/
def label : Rule γ → Data
  | .leaf _ _ label | .group _ _ label _ => label

/-- Whether a rule has a value or a label. -/
def isNamed (rule : Rule γ) : Bool :=
  (match rule.value with
    | .null => false
    | _ => true) || rule.label.isTrue

end Rule

/-- An action below a group, with the value of the group in front. -/
def withValue (value : Data) (action : List Data) : List Data :=
  match value with
  | .null => action
  | _ => value :: action

section

variable {γ : Type} (isOpen : γ → Bool)

mutual

/-- The action that a rule gives once its guard is open. -/
def Rule.action? : Rule γ → Option (List Data)
  | .leaf _ value _ => some [value]
  | .group _ value _ rules => (findAction rules).map (withValue value)

/-- The action that a list of rules gives, where the guards are open or not. -/
def findAction : List (Rule γ) → Option (List Data)
  | [] => none
  | rule :: rest =>
    if isOpen rule.guard then
      match Rule.action? rule with
      | some action => some action
      | none => if rule.isNamed then findAction rest else none
    else findAction rest

end

end

/-- The action that the rules of a compiled keymap give for a key press. -/
def actionFor (press : KeyPress) (focus : Focus) (rules : List (Rule Guard)) :
    Option (List Data) :=
  findAction (fun guard => guard.isOpen press focus) rules

end StructuralEditor.Keymap
