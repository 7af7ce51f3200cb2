/-
StructuralEditor/Document/Source.lean

The source text of a document.  Arrays stand on one line, objects have one
property to a line with two more blanks of indentation, and the statements of
a program follow each other line by line.

Rendering goes down into a document call by call, and the calls that may be
open at once are limited.  `Node.source` is the text itself; `Node.render` is
what comes of rendering within a limit.
-/
import StructuralEditor.Document.Node
import StructuralEditor.Text.Quoted

namespace StructuralEditor.Document

/-- The blanks in front of a line at a nesting level. -/
def indentation (level : Nat) : String :=
  String.ofList (List.replicate (2 * level) ' ')

mutual

/-- The source text of a node at a nesting level. -/
def sourceAt (level : Nat) : Node → String
  | .null => "null"
  | .boolean b => if b then "true" else "false"
  | .leaf kind text => match kind with
    | .string => Text.quoted text
    | .number | .identifier => text
  | .pair kind first second => match kind with
    | .property => sourceAt level first ++ ": " ++ sourceAt level second
    | .declarator => sourceAt level first ++ " = " ++ sourceAt level second
  | .group kind items => match kind with
    | .array => "[" ++ ", ".intercalate (sourcesAt level items) ++ "]"
    | .object =>
      if items.isEmpty then "\x7b\x7d"
      else
        let lines := (sourcesAt (level + 1) items).map (indentation (level + 1) ++ ·)
        "\x7b\n" ++ ",\n".intercalate lines ++ "\n" ++ indentation level ++ "\x7d"
    | .declaration keyword => keyword ++ " " ++ ", ".intercalate (sourcesAt level items) ++ ";"
    | .program => "\n".intercalate (sourcesAt level items)

/-- The source texts of nodes at a nesting level. -/
def sourcesAt (level : Nat) : List Node → List String
  | [] => []
  | item :: rest => sourceAt level item :: sourcesAt level rest

end

/-- The source text of a document. -/
def Node.source (n : Node) : String :=
  sourceAt 0 n

/-! ### Rendering within a limit -/

mutual

/-- How many calls are open at once where the rendering of a node is deepest. -/
def callDepth : Node → Nat
  | .null | .boolean _ => 1
  | .leaf kind _ => match kind with
    | .string => 3
    | .number | .identifier => 1
  | .pair _ first second => max (callDepth first) (callDepth second) + 1
  | .group kind items => match kind with
    -- the lines of an object are there before they are joined
    | .object => callDepthOfItems items + 2
    | .array | .declaration _ | .program => callDepthOfItems items + 3

/-- How many calls are open at once where the rendering of nodes is deepest. -/
def callDepthOfItems : List Node → Nat
  | [] => 0
  | item :: rest => max (callDepth item) (callDepthOfItems rest)

end

/-- Most calls that an editor has left for rendering a document. -/
def renderingLimit : Nat := 985

/-- Why a document is not rendered. -/
inductive RenderError where
  /-- It is nested too deeply. -/
  | tooDeep
  /-- What renders documents has failed for a reason of its own. -/
  | failed (reason : String)
  deriving DecidableEq

/-- The source text of a document that is not nested too deeply for a limit. -/
def Node.render (limit? : Option Nat) (n : Node) : Except RenderError String :=
  if limit?.all (callDepth n ≤ ·) then .ok n.source else .error .tooDeep

/-- What is rendered within a limit is the source text. -/
theorem Node.eq_source_of_render {limit? : Option Nat} {n : Node} {text : String}
    (h : n.render limit? = .ok text) : text = n.source := by
  unfold render at h
  split at h
  · exact (Except.ok.inj h).symm
  · cases h

end StructuralEditor.Document
