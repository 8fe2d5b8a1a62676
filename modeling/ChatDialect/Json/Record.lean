import ChatDialect.Json.Codec

/-! Records: objects whose fields are known, which may also be written as arrays. -/
namespace ChatDialect.Json

/-- A field of a record: its names, the first of which is written; its values; what stands for it
when it is missing from an object, or from the end of an array; and the values not written. -/
structure Field (α : Type) where
  name : String
  aliases : List String
  codec : Codec α
  absent : Option α
  absentAtEnd : Option α
  omitted : α → Bool

namespace Field

variable {α : Type}

def answersTo (f : Field α) (key : String) : Bool := f.name == key || f.aliases.contains key

/-- A field that must be there. -/
def required (name : String) (c : Codec α) : Field α := ⟨name, [], c, none, none, fun _ => false⟩

/-- A field that stands for `x` when missing. -/
def withDefault (name : String) (x : α) (c : Codec α) : Field α :=
  ⟨name, [], c, some x, some x, fun _ => false⟩

/-- A field that may be missing, and is not written then. -/
def optional (name : String) (c : Codec α) : Field (Option α) :=
  ⟨name, [], c.option, some none, some none, Option.isNone⟩

/-- An optional field that an array must not leave out. -/
def optionalInPlace (name : String) (c : Codec α) : Field (Option α) :=
  ⟨name, [], c.option, some none, none, Option.isNone⟩

/-- An optional field that is written as `null`. -/
def nullable (name : String) (c : Codec α) : Field (Option α) :=
  ⟨name, [], c.option, some none, some none, fun _ => false⟩

/-- A nullable field that an array must not leave out. -/
def nullableInPlace (name : String) (c : Codec α) : Field (Option α) :=
  ⟨name, [], c.option, some none, none, fun _ => false⟩

/-- A further name under which the field is read. -/
def orNamed (f : Field α) (other : String) : Field α := { f with aliases := other :: f.aliases }

end Field

/-- The fields of a record in order, with the types of the row of their values and of the slots
that hold them while they are read. -/
inductive Fields : (row slots : Type) → Type 1 where
  | nil : Fields Unit Unit
  | cons {α ρ σ : Type} (f : Field α) (rest : Fields ρ σ) : Fields (α × ρ) (Option α × σ)

namespace Fields

def empty : {ρ σ : Type} → Fields ρ σ → σ
  | _, _, .nil => ()
  | _, _, .cons _ rest => (none, rest.empty)

/-- Reads the field of a name into its slot, which must be empty; `none` if no field has it. -/
def put (src : Source) (key : String) (t : Tree) :
    {ρ σ : Type} → Fields ρ σ → σ → Option (Except Fault σ)
  | _, _, .nil, _ => none
  | _, _, .cons f rest, (slot, slots) =>
    if f.answersTo key then
      match slot with
      | some _ => some (.error .mismatch)
      | none => some (do
        let x ← f.codec.decode src t
        return (some x, slots))
    else
      match rest.put src key t slots with
      | none => none
      | some (.error e) => some (.error e)
      | some (.ok slots) => some (.ok (slot, slots))

/-- Reads the fields of an object; others are passed over. -/
def putAll {ρ σ : Type} (fs : Fields ρ σ) (src : Source) :
    List (Leaf String × Tree) → σ → Except Fault σ
  | [], slots => .ok slots
  | (key, t) :: ts, slots => do
    let k ← key.value
    match fs.put src k t slots with
    | none => do
      t.skip
      putAll fs src ts slots
    | some result => do
      let slots ← result
      putAll fs src ts slots

/-- The row of a record, what is missing filled in. -/
def row? : {ρ σ : Type} → Fields ρ σ → σ → Option ρ
  | _, _, .nil, _ => some ()
  | _, _, .cons f rest, (slot, slots) => do
    let x ← slot.or f.absent
    let r ← rest.row? slots
    return (x, r)

/-- The row of a record written as an array: its items stand for the fields in order. -/
def rowOfItems (src : Source) :
    {ρ σ : Type} → Fields ρ σ → List Tree → Close → Except Fault ρ
  | _, _, .nil, [], .closed => .ok ()
  | _, _, .nil, [], .cut f => .error f
  | _, _, .nil, _, _ => .error src.surplus
  | _, _, .cons f rest, [], close => do
    check close.fault?
    match f.absentAtEnd with
    | none => .error .mismatch
    | some x => do
      let r ← rowOfItems src rest [] close
      return (x, r)
  | _, _, .cons f rest, t :: ts, close => do
    let x ← f.codec.decode src t
    let r ← rowOfItems src rest ts close
    return (x, r)

/-- The fields that are written. -/
def encode : {ρ σ : Type} → Fields ρ σ → ρ → Option (List (String × Json))
  | _, _, .nil, _ => some []
  | _, _, .cons f rest, (x, r) =>
    if f.omitted x then rest.encode r
    else do
      let j ← f.codec.encode x
      let js ← rest.encode r
      return (f.name, j) :: js

end Fields

/-- A record with known fields; `build` and `row` go between its row and its type. -/
def Codec.record {α ρ σ : Type} (fs : Fields ρ σ) (build : ρ → α) (row : α → ρ) : Codec α where
  decode src t := match t with
    | .object fields close => do
      let src ← src.enter
      let slots ← fs.putAll src fields fs.empty
      check close.fault?
      match fs.row? slots with
      | some r => return build r
      | none => .error .mismatch
    | .array items close => do
      let src ← src.enter
      let r ← fs.rowOfItems src items close
      return build r
    | _ => .error t.reject
  encode x := do
    let fields ← fs.encode (row x)
    return .obj fields

/-- Reads the fields of an object, keeping those that the record does not know. -/
def Fields.putKeeping {ρ σ : Type} (fs : Fields ρ σ) (src : Source) :
    List (Leaf String × Tree) → σ → Except Fault (σ × List (String × Json))
  | [], slots => .ok (slots, [])
  | (key, t) :: ts, slots => do
    let k ← key.value
    match fs.put src k t slots with
    | none => do
      let x ← t.buffer src
      let (slots, xs) ← putKeeping fs src ts slots
      return (slots, (k, x.normalize) :: xs)
    | some result => do
      let slots ← result
      putKeeping fs src ts slots

/-- A record that keeps the fields it does not know; it is never an array. -/
def Codec.openRecord {α ρ σ : Type} (fs : Fields ρ σ)
    (build : ρ → List (String × Json) → α) (row : α → ρ × List (String × Json)) : Codec α where
  decode src t := match t with
    | .object fields close => do
      let src ← src.enter
      let (slots, others) ← fs.putKeeping src fields fs.empty
      check close.fault?
      match fs.row? slots with
      | some r => return build r (Keyed.ofList others)
      | none => .error .mismatch
    | _ => .error t.reject
  encode x := do
    let fields ← fs.encode (row x).1
    return .obj (fields ++ (row x).2)

end ChatDialect.Json
