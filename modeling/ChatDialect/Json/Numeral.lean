import ChatDialect.Json.Tree

/-! Numbers in JSON text: their grammar, and the value of their digits. -/
namespace ChatDialect.Json

/-- A number as written. -/
structure Numeral where
  negative : Bool
  whole : List Nat
  fraction : List Nat
  exponent : Option (Bool × List Nat)
  deriving DecidableEq, Repr

namespace Numeral

def digit? (b : UInt8) : Option Nat :=
  if 0x30 ≤ b.toNat ∧ b.toNat ≤ 0x39 then some (b.toNat - 0x30) else none

/-- The digits at the front, and the rest. -/
def digits : List UInt8 → List Nat × List UInt8
  | [] => ([], [])
  | b :: r =>
    match digit? b with
    | some d => let (ds, rest) := digits r; (d :: ds, rest)
    | none => ([], b :: r)

/-- Digits of which there must be one. -/
def someDigits (bs : List UInt8) : Except Fault (List Nat × List UInt8) :=
  match digits bs, bs with
  | ([], _), [] => .error .truncated
  | ([], _), _ :: _ => .error .malformed
  | found, _ => .ok found

/-- The digits before the point: no zero in front of another digit. -/
def wholePart (bs : List UInt8) : Except Fault (List Nat × List UInt8) := do
  let (ds, rest) ← someDigits bs
  match ds with
  | 0 :: _ :: _ => .error .malformed
  | _ => .ok (ds, rest)

def fractionPart (bs : List UInt8) : Except Fault (List Nat × List UInt8) :=
  match bs with
  | 0x2E :: r => someDigits r
  | _ => .ok ([], bs)

def exponentPart (bs : List UInt8) : Except Fault (Option (Bool × List Nat) × List UInt8) :=
  match bs with
  | b :: r =>
    if b = 0x65 ∨ b = 0x45 then do
      let (negative, r) := match r with
        | 0x2B :: r' => (false, r')
        | 0x2D :: r' => (true, r')
        | _ => (false, r)
      let (ds, rest) ← someDigits r
      .ok (some (negative, ds), rest)
    else .ok (none, bs)
  | [] => .ok (none, [])

def scan (bs : List UInt8) : Except Fault (Numeral × List UInt8) := do
  let (negative, bs) := match bs with
    | 0x2D :: r => (true, r)
    | _ => (false, bs)
  let (whole, bs) ← wholePart bs
  let (fraction, bs) ← fractionPart bs
  let (exponent, bs) ← exponentPart bs
  .ok (⟨negative, whole, fraction, exponent⟩, bs)

/-- Takes digits into a significand of 64 bits up
to the first that does not fit: the digits left. -/
def absorb : Nat → List Nat → Nat × List Nat
  | acc, [] => (acc, [])
  | acc, d :: ds => if acc * 10 + d < UInt64.size then absorb (acc * 10 + d) ds else (acc, d :: ds)

def ofDigits (ds : List Nat) : Nat := ds.foldl (fun acc d => acc * 10 + d) 0

/-- The power of ten that the exponent part gives. -/
def scale (n : Numeral) : Int :=
  match n.exponent with
  | none => 0
  | some (negative, ds) => if negative then -(ofDigits ds : Int) else ofDigits ds

def signed (negative : Bool) (x : Double) : Double := if negative then x.negate else x

/-- The value as binary64: digits beyond the significand count before the point and are dropped
after it. -/
def toDouble? (n : Numeral) : Option Double :=
  let (sig, left) := absorb 0 n.whole
  let (sig, dropped) := absorb sig n.fraction
  let exponent : Int := left.length - (n.fraction.length - dropped.length : Nat) + n.scale
  (Double.ofDecimal? sig exponent).map (signed n.negative)

/-- The value as an integer: without point and exponent, within 64 bits, and not minus zero. -/
def toWhole? (n : Numeral) : Option Whole :=
  if n.fraction.isEmpty ∧ n.exponent.isNone then
    let m := ofDigits n.whole
    if n.negative then (if m = 0 then none else Whole.ofInt? (-(m : Int))) else Whole.ofInt? m
  else none

/-- The value of a number; one beyond the finite numbers is malformed. -/
def value (n : Numeral) : Except Fault Number :=
  match n.toWhole? with
  | some w => .ok (.int w)
  | none => match n.toDouble? with
    | some x => .ok (.float x)
    | none => .error .malformed

/-- Reads a number; what follows, unless it breaks off. -/
def read (bs : List UInt8) : Leaf Number × Option (List UInt8) :=
  match scan bs with
  | .ok (n, rest) => (⟨n.value, none⟩, some rest)
  | .error f => (⟨.error f, some .malformed⟩, none)

end Numeral
end ChatDialect.Json
