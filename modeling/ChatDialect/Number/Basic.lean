import ChatDialect.Number.Shortest

/-! Numbers as JSON carries them: integers of 64 bits exactly, all others as binary64. -/
namespace ChatDialect

/-- An integer that fits a signed or an unsigned word of 64 bits. -/
structure Whole where
  val : Int
  lower : -0x8000000000000000 ≤ val
  upper : val < 0x10000000000000000
  deriving DecidableEq

namespace Whole

def ofInt? (n : Int) : Option Whole :=
  if h : -0x8000000000000000 ≤ n ∧ n < 0x10000000000000000 then some ⟨n, h.1, h.2⟩ else none

def ofUInt64 (n : UInt64) : Whole :=
  ⟨n.toNat, by omega, by have := n.toNat_lt; omega⟩

def ofUInt32 (n : UInt32) : Whole :=
  ⟨n.toNat, by omega, by have := n.toNat_lt; omega⟩

def ofInt64 (n : Int64) : Whole :=
  ⟨n.toInt, by have := n.le_toInt; omega, by have := n.toInt_lt; omega⟩

def toUInt64? (n : Whole) : Option UInt64 := if 0 ≤ n.val then some n.val.toNat.toUInt64 else none

def toUInt32? (n : Whole) : Option UInt32 :=
  if 0 ≤ n.val ∧ n.val < 0x100000000 then some n.val.toNat.toUInt32 else none

def toInt64? (n : Whole) : Option Int64 :=
  if n.val < 0x8000000000000000 then some (Int64.ofInt n.val) else none

end Whole

inductive Number where
  | int (n : Whole)
  | float (x : Double)
  deriving DecidableEq

namespace Number

/-- The text of a number. -/
def chars : Number → List Char
  | .int n =>
    let digits := Nat.toDigits 10 n.val.natAbs
    if n.val < 0 then '-' :: digits else digits
  | .float x => x.chars

def toUInt64? : Number → Option UInt64
  | .int n => n.toUInt64?
  | .float _ => none

def toUInt32? : Number → Option UInt32
  | .int n => n.toUInt32?
  | .float _ => none

def toInt64? : Number → Option Int64
  | .int n => n.toInt64?
  | .float _ => none

/-- The nearest binary64 number. -/
def toDouble : Number → Double
  | .int n => .ofInt n.val
  | .float x => x

end Number
end ChatDialect
