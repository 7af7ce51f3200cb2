/-
StructuralEditor/Settings/Location.lean

Where a user's settings are kept: in the directory that the environment names,
or else in a hidden one below the home directory.  A location is shown without
empty parts and without `.`; exactly two slashes in front are kept, any other
number of them counts as one, and `..` is left alone.
-/
namespace StructuralEditor.Settings

/-- The characters of a path split at slashes. -/
def splitAtSlashes : List Char → List (List Char)
  | [] => [[]]
  | c :: rest =>
    match splitAtSlashes rest with
    | part :: parts => if c = '/' then [] :: part :: parts else (c :: part) :: parts
    | [] => [[c]]

/-- A location in the file system: what stands in front of it, and its parts. -/
structure Location where
  root : String
  parts : List String
  deriving DecidableEq

namespace Location

/-- What stands in front of a path. -/
def rootOf (cs : List Char) : String :=
  match (cs.takeWhile (· = '/')).length with
  | 0 => ""
  | 2 => "//"
  | _ => "/"

/-- The parts of a path. -/
def partsOf (cs : List Char) : List String :=
  ((splitAtSlashes cs).map String.ofList).filter fun part => part ≠ "" ∧ part ≠ "."

/-- The location that a path denotes. -/
def ofPath (path : String) : Location where
  root := rootOf path.toList
  parts := partsOf path.toList

/-- A location as text. -/
def text (l : Location) : String :=
  if l.root = "" ∧ l.parts = [] then "." else l.root ++ "/".intercalate l.parts

/-- The location of a name below a location. -/
def below (l : Location) (name : String) : Location :=
  { l with parts := l.parts ++ [name] }

/-- The home directory.  Slashes at the end do not count, and a home that
starts with a tilde is none. -/
def home? (home : String) : Option Location :=
  let trimmed := (home.toList.reverse.dropWhile (· = '/')).reverse
  match trimmed with
  | '~' :: _ => none
  | [] => some (ofPath "/")
  | path => some (ofPath (.ofList path))

/-- The directory of a user's settings, given the directory that the
environment names and the home; `none` if neither is to be had. -/
def ofEnvironment? (override? : Option String) (home : String) : Option Location :=
  match override? with
  | none | some "" => (home? home).map (·.below ".astedit")
  | some path => some (ofPath path)

end Location

end StructuralEditor.Settings
