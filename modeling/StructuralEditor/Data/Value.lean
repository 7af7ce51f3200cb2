/-
StructuralEditor/Data/Value.lean

Dynamic values: what a document is built from, what settings hold and what an
action takes as its parameter.  A record keeps its entries in order, and its
keys may be values of any kind; two keys are one key when they are equal as
values, where a boolean counts as 0 or 1 and numbers are compared by size.

A record built from entries has each key once: at the place of its first
occurrence, with the value of its last.
-/
import StructuralEditor.Document.Node
import StructuralEditor.Number.Double

namespace StructuralEditor

open Number Document

-- the powers of the core library, whatever else is imported
attribute [local instance (2000)] instPowNat

/-- Kinds of value that are known by name only. -/
inductive Foreign where
  | bytes
  | set
  | object
  | complex
  deriving DecidableEq

/-- A dynamic value. -/
inductive Data where
  | null
  | boolean (value : Bool)
  | integer (value : Int)
  | decimal (value : Double)
  | text (value : String)
  | list (items : List Data)
  | tuple (items : List Data)
  | record (entries : List (Data × Data))
  | node (value : Node)
  | foreign (kind : Foreign)

namespace Data

instance : Inhabited Data := ⟨.null⟩

/-- The name of a value's type. -/
def typeName : Data → String
  | .null => "NoneType"
  | .boolean _ => "bool"
  | .integer _ => "int"
  | .decimal _ => "float"
  | .text _ => "str"
  | .list _ => "list"
  | .tuple _ => "tuple"
  | .record _ => "dict"
  | .node n => n.kindName
  | .foreign .bytes => "bytes"
  | .foreign .set => "set"
  | .foreign .object => "object"
  | .foreign .complex => "complex"

/-- Whether a value counts as true: null, false, zero and whatever is empty
do not. -/
def isTrue : Data → Bool
  | .null => false
  | .boolean b => b
  | .integer i => i != 0
  | .decimal x => !x.isZero
  | .text s => s != ""
  | .list items | .tuple items => !items.isEmpty
  | .record entries => !entries.isEmpty
  | .node _ | .foreign _ => true

/-! ### Equality of keys -/

/-- Whether a double is a given integer, exactly. -/
def isInteger (x : Double) (i : Int) : Bool :=
  match x with
  | .finite negative m =>
    Double.signedUnits negative m == i * 2 ^ (1074 : Nat)
  | _ => false

/-- The number that a value is when keys are compared. -/
def asInteger? : Data → Option Int
  | .boolean b => some (if b then 1 else 0)
  | .integer i => some i
  | _ => none

mutual

/-- Whether two values are the same key. -/
def sameKey : Data → Data → Bool
  | .null, .null => true
  | .text s, .text t => s == t
  | .decimal x, .decimal y => x.same y
  | .decimal x, other => other.asInteger?.any (isInteger x)
  | .boolean b, .decimal y => isInteger y (if b then 1 else 0)
  | .integer i, .decimal y => isInteger y i
  | .boolean b, other => other.asInteger? == some (if b then 1 else 0)
  | .integer i, other => other.asInteger? == some i
  | .tuple xs, .tuple ys => sameKeys xs ys
  | .node m, .node n => m == n
  | _, _ => false

/-- Whether two lists hold the same keys in the same order. -/
def sameKeys : List Data → List Data → Bool
  | [], [] => true
  | x :: xs, y :: ys => sameKey x y && sameKeys xs ys
  | _, _ => false

end

mutual

/-- Whether a value can be looked up in a table: lists and records cannot,
and neither can what holds one. -/
def isLookupKey : Data → Bool
  | .list _ | .record _ | .foreign .set => false
  | .tuple items => areLookupKeys items
  | _ => true

/-- Whether all of the values can be looked up in a table. -/
def areLookupKeys : List Data → Bool
  | [] => true
  | x :: xs => isLookupKey x && areLookupKeys xs

end

/-! ### Entries of a record -/

/-- The entries with a value under a key: in the place that the key has, or
else at the end. -/
def putEntry (key value : Data) : List (Data × Data) → List (Data × Data)
  | [] => [(key, value)]
  | (k, v) :: rest =>
    if sameKey k key then (k, value) :: rest else (k, v) :: putEntry key value rest

/-- The entries of one record overridden by those of another, key by key. -/
def mergeEntries (entries overrides : List (Data × Data)) : List (Data × Data) :=
  overrides.foldl (fun merged (key, value) => putEntry key value merged) entries

/-- The record with the given entries in order; a repeated key keeps its
first place and its last value. -/
def ofEntries (entries : List (Data × Data)) : Data :=
  .record (mergeEntries [] entries)

/-- The value under a text key. -/
def lookup? (name : String) : List (Data × Data) → Option Data
  | [] => none
  | (.text s, value) :: rest => if s = name then some value else lookup? name rest
  | _ :: rest => lookup? name rest

/-- The value under a text key of a record. -/
def field? (d : Data) (name : String) : Option Data :=
  match d with
  | .record entries => lookup? name entries
  | _ => none

/-- The value under a text key of a record, with null in place of a missing
one. -/
def field (d : Data) (name : String) : Data :=
  (d.field? name).getD .null

end Data

end StructuralEditor
