/-
StructuralEditor/Json/Reader.lean

The value of a JSON text.  The tokens are read one after the other by a
machine whose state says which token is due and which containers are open;
the value is complete when the state is `complete` at the end of the text.

The number of open containers may be limited.  A repeated name in a record
keeps its first place and its last value.
-/
import StructuralEditor.Json.Token

namespace StructuralEditor.Json

/-- A container whose next item is being read: what it holds so far, latest
first, and for a record the name under which the next item goes. -/
inductive Frame where
  | list (items : List Data)
  | record (entries : List (Data × Data)) (name : String)

/-- What is due, inside which open containers (innermost first).  The flag
`fresh` says that a container has just been opened and may be closed. -/
inductive State where
  | valueDue (fresh : Bool) (enclosing : List Frame)
  | nameDue (fresh : Bool) (entries : List (Data × Data)) (enclosing : List Frame)
  | colonDue (entries : List (Data × Data)) (name : String) (enclosing : List Frame)
  | itemDone (items : List Data) (enclosing : List Frame)
  | entryDone (entries : List (Data × Data)) (enclosing : List Frame)
  | complete (value : Data)

namespace State

/-- The state before the first token. -/
def initial : State := .valueDue false []

/-- The state after a value. -/
def withValue (value : Data) : List Frame → State
  | [] => .complete value
  | .list items :: enclosing => .itemDone (value :: items) enclosing
  | .record entries name :: enclosing => .entryDone ((.text name, value) :: entries) enclosing

/-- What is wrong with anything but the token that is due. -/
def dueFault : State → Fault
  | .valueDue _ _ => .valueExpected
  | .nameDue _ _ _ => .nameExpected
  | .colonDue _ _ _ => .colonExpected
  | .itemDone _ _ | .entryDone _ _ => .commaExpected
  | .complete _ => .extraData

end State

/-- Whether one more container may be opened inside `enclosing`. -/
def mayNest (limit : Option Nat) (enclosing : List Frame) : Bool :=
  limit.all (enclosing.length < ·)

/-- The state after a token. -/
def step (limit : Option Nat) (state : State) (next : PlacedToken) : Except Problem State :=
  match state, next.token with
  | .valueDue _ enclosing, .openList =>
    if mayNest limit enclosing then .ok (.valueDue true (.list [] :: enclosing))
    else .error .listTooDeep
  | .valueDue _ enclosing, .openRecord =>
    if mayNest limit enclosing then .ok (.nameDue true [] enclosing)
    else .error .recordTooDeep
  | .valueDue _ enclosing, .text s => .ok (.withValue (.text s) enclosing)
  | .valueDue _ enclosing, .value d => .ok (.withValue d enclosing)
  | .valueDue true (.list [] :: enclosing), .closeList => .ok (.withValue (.list []) enclosing)
  | .valueDue _ _, .broken problem => .error problem
  | .nameDue _ entries enclosing, .text name => .ok (.colonDue entries name enclosing)
  | .nameDue true [] enclosing, .closeRecord => .ok (.withValue (.record []) enclosing)
  | .nameDue _ _ _, .broken (.syntaxFault fault position) => .error (.syntaxFault fault position)
  | .colonDue entries name enclosing, .colon =>
    .ok (.valueDue false (.record entries name :: enclosing))
  | .itemDone items enclosing, .comma => .ok (.valueDue false (.list items :: enclosing))
  | .itemDone items enclosing, .closeList => .ok (.withValue (.list items.reverse) enclosing)
  | .entryDone entries enclosing, .comma => .ok (.nameDue false entries enclosing)
  | .entryDone entries enclosing, .closeRecord =>
    .ok (.withValue (.ofEntries entries.reverse) enclosing)
  | due, _ => .error (.syntaxFault due.dueFault next.position)

/-- The value of a JSON text, in which at most `limit` containers are open at
once. -/
def value (limit : Option Nat) (s : String) : Except Problem Data :=
  let cs := s.toList
  if cs.head? = some '\ufeff' then .error (.syntaxFault .byteOrderMark 0)
  else
    ((tokens 0 cs).foldlM (step limit) State.initial).bind fun
      | .complete d => .ok d
      | unfinished => .error (.syntaxFault unfinished.dueFault cs.length)

end StructuralEditor.Json
