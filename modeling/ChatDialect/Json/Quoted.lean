import ChatDialect.Json.Tree
import ChatDialect.Text.Utf8

/-! Strings in JSON text. -/
namespace ChatDialect.Json.Quoted

/-- A piece of a string as written: a byte, a short escape, or an escaped code unit. -/
inductive Piece where
  | byte (b : UInt8)
  | short (b : UInt8)
  | unit (n : Nat)
  deriving DecidableEq, Repr

/-- How the string ends: with its quote, then the rest, or with a fault. -/
inductive Ending where
  | closed (rest : List UInt8)
  | fault (f : Fault)
  deriving DecidableEq, Repr

def hex? (b : UInt8) : Option Nat :=
  let n := b.toNat
  if 0x30 ≤ n ∧ n ≤ 0x39 then some (n - 0x30)
  else if 0x41 ≤ n ∧ n ≤ 0x46 then some (n - 0x37)
  else if 0x61 ≤ n ∧ n ≤ 0x66 then some (n - 0x57)
  else none

def unit? (a b c d : UInt8) : Option Nat := do
  let x ← hex? a
  let y ← hex? b
  let z ← hex? c
  let w ← hex? d
  return ((x * 16 + y) * 16 + z) * 16 + w

/-- The byte that a short escape stands for. -/
def short? (b : UInt8) : Option UInt8 :=
  if b = 0x22 then some 0x22
  else if b = 0x5C then some 0x5C
  else if b = 0x2F then some 0x2F
  else if b = 0x62 then some 0x08
  else if b = 0x66 then some 0x0C
  else if b = 0x6E then some 0x0A
  else if b = 0x72 then some 0x0D
  else if b = 0x74 then some 0x09
  else none

/-- The pieces of a string after its opening quote. -/
def pieces : List UInt8 → List Piece × Ending
  | [] => ([], .fault .truncated)
  | 0x22 :: r => ([], .closed r)
  | [0x5C] => ([], .fault .truncated)
  | 0x5C :: 0x75 :: a :: b :: c :: d :: r =>
    match unit? a b c d with
    | some n => let (ps, e) := pieces r; (.unit n :: ps, e)
    | none => ([], .fault .malformed)
  | 0x5C :: b :: r =>
    if b = 0x75 then ([], .fault .truncated)
    else match short? b with
      | some s => let (ps, e) := pieces r; (.short s :: ps, e)
      | none => ([], .fault .malformed)
  | b :: r =>
    if b < 0x20 then ([], .fault .malformed)
    else let (ps, e) := pieces r; (.byte b :: ps, e)

/-- The bytes that pieces stand for: an escaped high surrogate needs a low one after it. The
ending is the fault met there. -/
def bytes (ending : Option Fault) : List Piece → Except Fault (List UInt8)
  | [] => match ending with
    | none => .ok []
    | some f => .error f
  | .byte b :: ps => do
    let r ← bytes ending ps
    return b :: r
  | .short b :: ps => do
    let r ← bytes ending ps
    return b :: r
  | .unit n :: ps =>
    if n < 0xD800 ∨ 0xDFFF < n then do
      let r ← bytes ending ps
      return Utf8.encodeChar (Char.ofNat n) ++ r
    else if n < 0xDC00 then
      match ps with
      | .unit m :: ps' =>
        if 0xDC00 ≤ m ∧ m ≤ 0xDFFF then do
          let r ← bytes ending ps'
          return Utf8.encodeChar (Char.ofNat (0x10000 + (n - 0xD800) * 1024 + (m - 0xDC00))) ++ r
        else .error .malformed
      | [] => .error (ending.getD .malformed)
      | _ => .error .malformed
    else .error .malformed

def Ending.fault? : Ending → Option Fault
  | .closed _ => none
  | .fault f => some f

def Ending.rest? : Ending → Option (List UInt8)
  | .closed rest => some rest
  | .fault _ => none

/-- The text of a string: well-formed UTF-8, seen only after its last quote. -/
def value (ps : List Piece) (ending : Option Fault) : Except Fault String := do
  let bs ← bytes ending ps
  match Utf8.toString? bs with
  | some s => return s
  | none => .error .malformed

/-- Reads a string after its opening quote; what follows, unless it breaks off. -/
def read (bs : List UInt8) : Leaf String × Option (List UInt8) :=
  let (ps, ending) := pieces bs
  (⟨value ps ending.fault?, ending.fault?⟩, ending.rest?)

end ChatDialect.Json.Quoted
