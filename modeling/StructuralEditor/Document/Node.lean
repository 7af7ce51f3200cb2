/-
StructuralEditor/Document/Node.lean

Documents are trees of nodes.  Eleven kinds of node fall into five shapes:

* `null` and the two booleans;
* a leaf carrying text: a number, a string or an identifier;
* a pair: the property of an object (key and value) or a declarator
  (identifier and initial value);
* a group of nodes in order: an array, an object, a declaration or a program.

The shapes are the constructors and the kinds are their labels, so that a
fact about all groups is proved once.  Every slot of a tree holds what the
slot is for (a node, a list of nodes, a text or a flag); which *kind* of node
stands in a slot is not restricted here.

A number is kept as its text.  Outside editing that is the canonical text of
a double; while it is being typed it may be any text.
-/
namespace StructuralEditor.Document

/-! ### Kinds -/

/-- Leaves that carry text. -/
inductive LeafKind where
  | number
  | string
  | identifier
  deriving DecidableEq

/-- Nodes made of two nodes. -/
inductive PairKind where
  | property
  | declarator
  deriving DecidableEq

/-- Nodes made of a list of nodes.  A declaration also has its keyword. -/
inductive GroupKind where
  | array
  | object
  | declaration (keyword : String)
  | program
  deriving DecidableEq

/-- Name of the field that holds the text of a leaf. -/
def LeafKind.field : LeafKind → String
  | .number | .string => "value"
  | .identifier => "name"

/-- Name of the field that holds the first node of a pair. -/
def PairKind.firstField : PairKind → String
  | .property => "key"
  | .declarator => "id"

/-- Name of the field that holds the second node of a pair. -/
def PairKind.secondField : PairKind → String
  | .property => "value"
  | .declarator => "init"

/-- Name of the field that holds the nodes of a group. -/
def GroupKind.field : GroupKind → String
  | .array => "elements"
  | .object => "properties"
  | .declaration _ => "declarations"
  | .program => "body"

/-- Name of the field that holds the keyword of a declaration. -/
def keywordField : String := "kind"

/-! ### Nodes -/

/-- A node of a document, with everything below it. -/
inductive Node where
  | null
  | boolean (value : Bool)
  | leaf (kind : LeafKind) (text : String)
  | pair (kind : PairKind) (first second : Node)
  | group (kind : GroupKind) (items : List Node)

namespace Node

/-- A number, by its text. -/
@[match_pattern] abbrev number (text : String) : Node := .leaf .number text

/-- A string. -/
@[match_pattern] abbrev string (text : String) : Node := .leaf .string text

/-- An identifier. -/
@[match_pattern] abbrev identifier (name : String) : Node := .leaf .identifier name

/-- A property of an object. -/
@[match_pattern] abbrev property (key value : Node) : Node := .pair .property key value

/-- A declarator: a name and its initial value. -/
@[match_pattern] abbrev declarator (id init : Node) : Node := .pair .declarator id init

/-- An array. -/
@[match_pattern] abbrev array (elements : List Node) : Node := .group .array elements

/-- An object. -/
@[match_pattern] abbrev object (properties : List Node) : Node := .group .object properties

/-- A declaration of several names by one keyword. -/
@[match_pattern] abbrev declaration (keyword : String) (declarators : List Node) : Node :=
  .group (.declaration keyword) declarators

/-- A program: its statements. -/
@[match_pattern] abbrev program (body : List Node) : Node := .group .program body

instance : Inhabited Node := ⟨.null⟩

/-- The name of a node's kind. -/
def kindName : Node → String
  | .null => "NullLiteral"
  | .boolean _ => "BooleanLiteral"
  | .number _ => "NumericLiteral"
  | .string _ => "StringLiteral"
  | .identifier _ => "Identifier"
  | .property _ _ => "ObjectProperty"
  | .declarator _ _ => "VariableDeclarator"
  | .array _ => "ArrayExpression"
  | .object _ => "ObjectExpression"
  | .declaration _ _ => "VariableDeclaration"
  | .program _ => "Program"

/-- Whether a node is edited as text. -/
def isText : Node → Bool
  | .leaf _ _ => true
  | _ => false

/-- Whether a node is the property of an object. -/
def isProperty : Node → Bool
  | .property _ _ => true
  | _ => false

/-- The property that an object receives for a new value: its key is still
empty. -/
def unnamed (value : Node) : Node :=
  .property (.string "") value

/-! ### Equality -/

mutual

/-- Whether two nodes are the same tree. -/
def beq : Node → Node → Bool
  | .null, .null => true
  | .boolean a, .boolean b => a == b
  | .leaf k s, .leaf l t => k == l && s == t
  | .pair k a b, .pair l c d => k == l && beq a c && beq b d
  | .group k xs, .group l ys => k == l && beqAll xs ys
  | _, _ => false

/-- Whether two lists hold the same trees in the same order. -/
def beqAll : List Node → List Node → Bool
  | [], [] => true
  | x :: xs, y :: ys => beq x y && beqAll xs ys
  | _, _ => false

end

mutual

theorem beq_self : ∀ n : Node, beq n n = true
  | .null => rfl
  | .boolean _ => by simp [beq]
  | .leaf _ _ => by simp [beq]
  | .pair _ a b => by simp [beq, beq_self a, beq_self b]
  | .group _ xs => by simp [beq, beqAll_self xs]

theorem beqAll_self : ∀ ns : List Node, beqAll ns ns = true
  | [] => rfl
  | x :: xs => by simp [beqAll, beq_self x, beqAll_self xs]

end

mutual

theorem eq_of_beq : ∀ {m n : Node}, beq m n = true → m = n
  | .null, n, h => by cases n <;> simp_all [beq]
  | .boolean _, n, h => by cases n <;> simp_all [beq]
  | .leaf _ _, n, h => by cases n <;> simp_all [beq]
  | .pair _ a b, n, h => by
    cases n <;> simp only [beq, Bool.false_eq_true, Bool.and_eq_true, beq_iff_eq] at h
    rw [h.1.1, eq_of_beq h.1.2, eq_of_beq h.2]
  | .group _ xs, n, h => by
    cases n <;> simp only [beq, Bool.false_eq_true, Bool.and_eq_true, beq_iff_eq] at h
    rw [h.1, eq_of_beqAll h.2]

theorem eq_of_beqAll : ∀ {ms ns : List Node}, beqAll ms ns = true → ms = ns
  | [], ns, h => by cases ns <;> simp_all [beqAll]
  | x :: xs, ns, h => by
    cases ns <;> simp only [beqAll, Bool.false_eq_true, Bool.and_eq_true] at h
    rw [eq_of_beq h.1, eq_of_beqAll h.2]

end

instance : DecidableEq Node := fun m n =>
  decidable_of_iff (beq m n = true) ⟨eq_of_beq, fun h => h ▸ beq_self m⟩

end Node

end StructuralEditor.Document
