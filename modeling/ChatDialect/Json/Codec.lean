import ChatDialect.Json.Printer
import ChatDialect.Json.Reader

/-! Codecs: the written forms of a type, and the one that is written. -/
namespace ChatDialect.Json

/-- How the values of a type are read and written. Reading may accept more forms than writing
produces; a value without a written form has none. -/
structure Codec (α : Type) where
  decode : Source → Tree → Except Fault α
  encode : α → Option Json

namespace Codec

variable {α β : Type}

/-- Reads a whole text. -/
def read (c : Codec α) (bs : List UInt8) : Except Fault α := do
  let (t, trailing) := readDocument bs
  let x ← c.decode (.text nestingLimit) t
  check trailing
  return x

/-- Reads a value that was read before as plain JSON. -/
def ofJson? (c : Codec α) (j : Json) : Option α := (c.decode .buffer j.tree).toOption

/-- The compact text of a value. -/
def write (c : Codec α) (x : α) : Option (List UInt8) := (c.encode x).map Json.bytes

def string : Codec String where
  decode _ t := match t with
    | .text s => s.value
    | _ => .error t.reject
  encode s := some (.str s)

def bool : Codec Bool where
  decode _ t := match t with
    | .bool b broken => do
      check broken
      return b
    | _ => .error t.reject
  encode b := some (.bool b)

/-- A number in the range that `pick` accepts. -/
def number (pick : Number → Option α) (put : α → Number) : Codec α where
  decode _ t := match t with
    | .number n => do
      let n ← n.value
      match pick n with
      | some x => return x
      | none => .error .mismatch
    | _ => .error t.reject
  encode x := some (.num (put x))

def uint64 : Codec UInt64 := number Number.toUInt64? (.int <| .ofUInt64 ·)

def uint32 : Codec UInt32 := number Number.toUInt32? (.int <| .ofUInt32 ·)

def int64 : Codec Int64 := number Number.toInt64? (.int <| .ofInt64 ·)

/-- A binary64 number; an integer stands for the nearest one. -/
def double : Codec Double := number (fun n => some n.toDouble) .float

/-- Any value; the fields of its objects carry no order. -/
def value : Codec Json where
  decode src t := do
    let j ← t.buffer src
    return j.normalize
  encode j := some j

/-- A value or `null`. -/
def option (c : Codec α) : Codec (Option α) where
  decode src t := match t with
    | .null broken => do
      check broken
      return none
    | _ => do
      let x ← c.decode src t
      return some x
  encode
    | none => some .null
    | some x => c.encode x

def decodeItems (c : Codec α) (src : Source) : List Tree → Except Fault (List α)
  | [] => .ok []
  | t :: ts => do
    let x ← c.decode src t
    let xs ← decodeItems c src ts
    return x :: xs

def encodeItems (c : Codec α) : List α → Option (List Json)
  | [] => some []
  | x :: xs => do
    let j ← c.encode x
    let js ← encodeItems c xs
    return j :: js

/-- An array of values. -/
def list (c : Codec α) : Codec (List α) where
  decode src t := match t with
    | .array items close => do
      let src ← src.enter
      let xs ← decodeItems c src items
      check close.fault?
      return xs
    | _ => .error t.reject
  encode xs := do
    let items ← encodeItems c xs
    return .arr items

def decodeEntries (c : Codec α) (src : Source) :
    List (Leaf String × Tree) → Except Fault (List (String × α))
  | [] => .ok []
  | (key, t) :: ts => do
    let k ← key.value
    let x ← c.decode src t
    let xs ← decodeEntries c src ts
    return (k, x) :: xs

def encodeEntries (c : Codec α) : List (String × α) → Option (List (String × Json))
  | [] => some []
  | (k, x) :: xs => do
    let j ← c.encode x
    let js ← encodeEntries c xs
    return (k, j) :: js

/-- An object whose keys are free, in ascending order of the keys. -/
def keyed (c : Codec α) : Codec (List (String × α)) where
  decode src t := match t with
    | .object fields close => do
      let src ← src.enter
      let xs ← decodeEntries c src fields
      check close.fault?
      return Keyed.ofList xs
    | _ => .error t.reject
  encode xs := do
    let fields ← encodeEntries c xs
    return .obj fields

/-- Reads plain JSON first, then takes the value from it. -/
def buffered (take : Json → Option α) (put : α → Option Json) : Codec α where
  decode src t := do
    let j ← t.buffer src
    match take j with
    | some x => return x
    | none => .error .mismatch
  encode := put

/-- The fault of a value that is neither a name nor an object around one. -/
def nameFault (src : Source) : Tree → Fault
  | .missing f => f
  | t => match src with
    | .text _ => .malformed
    | .buffer => t.reject

/-- One of a few names: a string, or an object with the name as its only key and `null` under it. -/
def name (pick : String → Option α) (put : α → String) : Codec α where
  decode src t := match t with
    | .text s => do
      let s ← s.value
      match pick s with
      | some x => return x
      | none => .error .mismatch
    | .object [] close => do
      let _ ← src.enter
      match close with
      | .closed => .error src.surplus
      | .cut f => .error f
      | .comma f => .error f
      | .oddKey asName => .error asName
    | .object ((key, t) :: others) close => do
      let _ ← src.enter
      let s ← key.value
      match pick s with
      | none => .error .mismatch
      | some x =>
        match t with
        | .null broken => do
          check broken
          match others, close with
          | [], .closed => return x
          | [], .cut f => .error f
          | _, _ => .error src.surplus
        | _ => .error t.reject
    | _ => .error (nameFault src t)
  encode x := some (.str (put x))

end Codec
end ChatDialect.Json
