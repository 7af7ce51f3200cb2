/-
StructuralEditor/Document/Store.lean

Reading and changing a document by path.  A path leads to a *content*: a
node, a list of nodes, a text or a flag.  `Node.get?` follows a path and
`Node.put?` rebuilds the nodes along it around a new content; a slot only
takes contents of its own kind, so a rebuilt document is a document again.

Built on these two are the edits of a list: `insertAt` puts a node between
two items (the position is clamped to the list), `deleteAt` removes an item
and leaves the document alone when the path addresses none.
-/
import StructuralEditor.Document.Node
import StructuralEditor.Document.Error

namespace StructuralEditor.Document

/-- What stands at the end of a path. -/
inductive Content where
  | node (n : Node)
  | items (ns : List Node)
  | text (s : String)
  | flag (b : Bool)
  deriving DecidableEq

/-! ### Fields of a node -/

namespace Node

/-- The content of a named field. -/
def field? : Node → String → Option Content
  | .null, _ => none
  | .boolean b, name => if name = "value" then some (.flag b) else none
  | .leaf kind text, name => if name = kind.field then some (.text text) else none
  | .pair kind first second, name =>
    if name = kind.firstField then some (.node first)
    else if name = kind.secondField then some (.node second)
    else none
  | .group kind items, name =>
    if name = kind.field then some (.items items)
    else match kind with
      | .declaration keyword => if name = keywordField then some (.text keyword) else none
      | _ => none

/-- The node with a new content in a named field; `none` if it has no such
field or the content does not fit. -/
def withField? : Node → String → Content → Option Node
  | .boolean _, name, .flag b => if name = "value" then some (.boolean b) else none
  | .leaf kind _, name, .text text => if name = kind.field then some (.leaf kind text) else none
  | .pair kind first second, name, .node n =>
    if name = kind.firstField then some (.pair kind n second)
    else if name = kind.secondField then some (.pair kind first n)
    else none
  | .group kind _, name, .items items =>
    if name = kind.field then some (.group kind items) else none
  | .group (.declaration _) items, name, .text keyword =>
    if name = keywordField then some (.declaration keyword items) else none
  | _, _, _ => none

end Node

/-! ### Contents along a path -/

namespace Content

/-- The content one step further. -/
def child? : Content → Step → Option Content
  | .node n, .field name => n.field? name
  | .items ns, .index i => ns[i]?.map .node
  | _, _ => none

/-- The content with a new one in place of the one a step further. -/
def withChild? : Content → Step → Content → Option Content
  | .node n, .field name, new => (n.withField? name new).map .node
  | .items ns, .index i, .node n => if i < ns.length then some (.items (ns.set i n)) else none
  | _, _, _ => none

/-- The content at the end of a path. -/
def get? (c : Content) : Path → Option Content
  | [] => some c
  | step :: rest => (c.child? step).bind (·.get? rest)

/-- The content rebuilt around a new one at the end of a path. -/
def put? (c : Content) (p : Path) (new : Content) : Option Content :=
  match p with
  | [] => some new
  | step :: rest =>
    (c.child? step).bind fun old =>
      (old.put? rest new).bind fun rebuilt => c.withChild? step rebuilt

/-- The node that a content is. -/
def node? : Content → Option Node
  | .node n => some n
  | _ => none

/-- The list that a content is. -/
def items? : Content → Option (List Node)
  | .items ns => some ns
  | _ => none

end Content

/-! ### Documents by path -/

namespace Node

/-- The content at a path. -/
def get? (tree : Node) (p : Path) : Option Content :=
  (Content.node tree).get? p

/-- The node at a path. -/
def nodeAt? (tree : Node) (p : Path) : Option Node :=
  (tree.get? p).bind Content.node?

/-- The list at a path. -/
def itemsAt? (tree : Node) (p : Path) : Option (List Node) :=
  (tree.get? p).bind Content.items?

/-- The document rebuilt around a new content at a path. -/
def put? (tree : Node) (p : Path) (new : Content) : Option Node :=
  ((Content.node tree).put? p new).bind Content.node?

/-- The document with a new content at a path. -/
def set (tree : Node) (p : Path) (new : Content) : Except EditError Node :=
  match tree.put? p new with
  | some rebuilt => .ok rebuilt
  | none => .error (if (tree.get? p).isSome then .unfit p else .unresolved p)

/-- Whether a path is a valid selection: it leads to a node, or it is the
place after the last item of a list. -/
def resolves (tree : Node) (p : Path) : Bool :=
  if p.isAfterLast then (tree.itemsAt? p.dropLast).isSome else (tree.nodeAt? p).isSome

/-! ### Items of a list -/

/-- The items with one more at a position. -/
def insertItem (items : List Node) (position : Nat) (item : Node) : List Node :=
  items.take position ++ item :: items.drop position

/-- A position clamped to the places of a list with `size` items. -/
def clampPosition (size : Nat) (position : Int) : Nat :=
  min position.toNat size

/-- The document with one more item in the list at a path.  The position is
clamped to the list. -/
def insertAt (tree : Node) (list : Path) (position : Int) (item : Node) :
    Except EditError Node :=
  match tree.itemsAt? list with
  | some items => tree.set list (.items (insertItem items (clampPosition items.length position) item))
  | none => .error (.notACollection list)

/-- The document without the item at a path; unchanged if there is none. -/
def deleteAt (tree : Node) (p : Path) : Node :=
  match p.getLast? with
  | some (.index i) =>
    match tree.itemsAt? p.dropLast with
    | some items =>
      if i < items.length then (tree.put? p.dropLast (.items (items.eraseIdx i))).getD tree
      else tree
    | none => tree
  | _ => tree

end Node

end StructuralEditor.Document
