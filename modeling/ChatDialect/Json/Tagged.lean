import ChatDialect.Json.Record

/-! Tagged values: objects whose field `type` names the variant that the other fields belong to. -/
namespace ChatDialect.Json

/-- A variant: its tag, its fields, and the values that belong to it. -/
structure Variant (α : Type) where
  tag : String
  ofFields : List (Leaf String × Tree) → Except Fault α
  ofItems : List Tree → Except Fault α
  encode? : α → Option (Option (List (String × Json)))

/-- The variant with given fields; `row?` takes apart the values that belong to it. -/
def Variant.of {α ρ σ : Type} (tag : String) (fs : Fields ρ σ) (build : ρ → α)
    (row? : α → Option ρ) : Variant α where
  tag := tag
  ofFields fields := do
    let slots ← fs.putAll .buffer fields fs.empty
    match fs.row? slots with
    | some r => return build r
    | none => .error .mismatch
  ofItems items := do
    let r ← fs.rowOfItems .buffer items .closed
    return build r
  encode? x := (row? x).map fs.encode

/-- The variant without fields that stands for one value. -/
def Variant.unit {α : Type} (tag : String) (x : α) (isIt : α → Bool) : Variant α :=
  .of tag .nil (fun _ => x) fun y => if isIt y then some () else none

namespace Tagged

variable {α : Type}

/-- The variant with a tag, else the catch-all. -/
def find (variants : List (Variant α)) (other : Option (Variant α)) (tag : String) :
    Except Fault (Variant α) :=
  match (variants.find? (·.tag == tag)).or other with
  | some v => .ok v
  | none => .error .mismatch

/-- The variant at a position, which a value in a buffer may give instead of a tag. -/
def at? (variants : List (Variant α)) (other : Option (Variant α)) (n : UInt64) :
    Except Fault (Variant α) :=
  match variants[n.toNat]?.or other with
  | some v => .ok v
  | none => .error .mismatch

/-- Reads a tag. -/
def readTag (variants : List (Variant α)) (other : Option (Variant α)) (src : Source) (t : Tree) :
    Except Fault (Variant α) :=
  match t with
  | .text s => do
    let tag ← s.value
    find variants other tag
  | .number n => do
    let n ← n.value
    match src, n.toUInt64? with
    | .buffer, some i => at? variants other i
    | _, _ => .error .mismatch
  | _ => .error t.reject

/-- Reads the fields of an object, setting the tag apart and keeping the others. -/
def gather (variants : List (Variant α)) (other : Option (Variant α)) (src : Source) :
    List (Leaf String × Tree) → Option (Variant α) →
      Except Fault (Option (Variant α) × List (String × Json))
  | [], tag => .ok (tag, [])
  | (key, t) :: ts, tag => do
    let k ← key.value
    if k == "type" then
      match tag with
      | some _ => .error .mismatch
      | none => do
        let v ← readTag variants other src t
        gather variants other src ts (some v)
    else do
      let x ← t.buffer src
      let (tag, xs) ← gather variants other src ts tag
      return (tag, (k, x) :: xs)

def encodeAs (x : α) : List (Variant α) → Option Json
  | [] => none
  | v :: vs =>
    match v.encode? x with
    | some fields => do
      let fields ← fields
      return .obj (("type", .str v.tag) :: fields)
    | none => encodeAs x vs

end Tagged

/-- Values told apart by their tag. Their fields are read as plain JSON before the variant sees
them, since the tag may come last; `other` takes every tag that no variant has. -/
def Codec.tagged {α : Type} (variants : List (Variant α)) (other : Option (Variant α)) :
    Codec α where
  decode src t := match t with
    | .object fields close => do
      let src ← src.enter
      let (tag, xs) ← Tagged.gather variants other src fields none
      check close.fault?
      match tag with
      | some v => v.ofFields (treeFields xs)
      | none => .error .mismatch
    | .array [] close => do
      let _ ← src.enter
      check close.fault?
      .error .mismatch
    | .array (t :: ts) close => do
      let src ← src.enter
      let v ← Tagged.readTag variants other src t
      let xs ← Tree.bufferItems src ts
      check close.fault?
      v.ofItems (treeItems xs)
    | _ => .error t.reject
  encode x := Tagged.encodeAs x (variants ++ other.toList)

end ChatDialect.Json
