import ChatDialect.Json.Basic

/-!
JSON text as a tree that keeps the faults of the text where they stand. A consumer that walks the
tree from left to right meets the first fault of the text in reading order, and the faults of
strings and numbers only where it asks for their values.
-/
namespace ChatDialect.Json

/-- What is wrong with a text: it breaks the grammar, it ends too early, or its value does not
have the form asked for. -/
inductive Fault where
  | malformed
  | truncated
  | mismatch
  deriving DecidableEq, Repr

/-- A string or number: its value, and the fault met if it is only passed over. -/
structure Leaf (α : Type) where
  value : Except Fault α
  skipped : Option Fault

/-- A leaf without faults. -/
def Leaf.clean {α : Type} (x : α) : Leaf α := ⟨.ok x, none⟩

/-- How the list of items or fields ends: with its bracket, with something else where a comma or
the bracket belongs, with something else after a comma, or with a first key that is no string
(with the fault met by a consumer that takes any value for a name). -/
inductive Close where
  | closed
  | cut (f : Fault)
  | comma (f : Fault)
  | oddKey (asName : Fault)
  deriving DecidableEq, Repr

/-- The fault met by a consumer that would take more. -/
def Close.fault? : Close → Option Fault
  | .closed => none
  | .cut f => some f
  | .comma f => some f
  | .oddKey _ => some .malformed

inductive Tree where
  /-- No value stands here. -/
  | missing (f : Fault)
  | null (broken : Option Fault)
  | bool (b : Bool) (broken : Option Fault)
  | number (n : Leaf Number)
  | text (s : Leaf String)
  | array (items : List Tree) (close : Close)
  | object (fields : List (Leaf String × Tree)) (close : Close)

/-- Ends with a fault if there is one. -/
def check : Option Fault → Except Fault Unit
  | none => .ok ()
  | some f => .error f

/-- Where a value is read from: from text, with room for that many arrays and objects one in
another, or from a buffer that was read before. -/
inductive Source where
  | text (room : Nat)
  | buffer
  deriving DecidableEq, Repr

/-- Goes into an array or object. -/
def Source.enter : Source → Except Fault Source
  | .text 0 => .error .malformed
  | .text (room + 1) => .ok (.text room)
  | .buffer => .ok .buffer

/-- The fault of a list that goes on after its last use. -/
def Source.surplus : Source → Fault
  | .text _ => .malformed
  | .buffer => .mismatch

namespace Tree

mutual
/-- Passes over a value. -/
def skip : Tree → Except Fault Unit
  | .missing f => .error f
  | .null broken => check broken
  | .bool _ broken => check broken
  | .number n => check n.skipped
  | .text s => check s.skipped
  | .array items close => do
    skipItems items
    check close.fault?
  | .object fields close => do
    skipFields fields
    check close.fault?

def skipItems : List Tree → Except Fault Unit
  | [] => .ok ()
  | t :: ts => do
    t.skip
    skipItems ts

def skipFields : List (Leaf String × Tree) → Except Fault Unit
  | [] => .ok ()
  | (key, t) :: ts => do
    check key.skipped
    t.skip
    skipFields ts
end

mutual
/-- Reads any value; the fields of objects stay as written. -/
def buffer (src : Source) : Tree → Except Fault Json
  | .missing f => .error f
  | .null broken => do
    check broken
    return .null
  | .bool b broken => do
    check broken
    return .bool b
  | .number n => do
    let n ← n.value
    return .num n
  | .text s => do
    let s ← s.value
    return .str s
  | .array items close => do
    let src ← src.enter
    let items ← bufferItems src items
    check close.fault?
    return .arr items
  | .object fields close => do
    let src ← src.enter
    let fields ← bufferFields src fields
    check close.fault?
    return .obj fields

def bufferItems (src : Source) : List Tree → Except Fault (List Json)
  | [] => .ok []
  | t :: ts => do
    let x ← t.buffer src
    let xs ← bufferItems src ts
    return x :: xs

def bufferFields (src : Source) : List (Leaf String × Tree) → Except Fault (List (String × Json))
  | [] => .ok []
  | (key, t) :: ts => do
    let k ← key.value
    let x ← t.buffer src
    let xs ← bufferFields src ts
    return (k, x) :: xs
end

/-- The fault of a value whose kind is not the one asked for: a scalar is read to its end first. -/
def reject : Tree → Fault
  | .missing f => f
  | .null broken => broken.getD .mismatch
  | .bool _ broken => broken.getD .mismatch
  | .number n => match n.value with
    | .error f => f
    | .ok _ => .mismatch
  | .text s => match s.value with
    | .error f => f
    | .ok _ => .mismatch
  | .array _ _ => .mismatch
  | .object _ _ => .mismatch

end Tree

mutual
/-- The tree of a text that has no faults. -/
def tree : Json → Tree
  | .null => .null none
  | .bool b => .bool b none
  | .num n => .number (.clean n)
  | .str s => .text (.clean s)
  | .arr items => .array (treeItems items) .closed
  | .obj fields => .object (treeFields fields) .closed

def treeItems : List Json → List Tree
  | [] => []
  | x :: xs => x.tree :: treeItems xs

def treeFields : List (String × Json) → List (Leaf String × Tree)
  | [] => []
  | (k, x) :: xs => (.clean k, x.tree) :: treeFields xs
end

end ChatDialect.Json
