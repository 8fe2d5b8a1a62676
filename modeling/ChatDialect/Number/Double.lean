/-! Binary64 numbers by their bit pattern, with exact rational rounding. -/
namespace ChatDialect

/-- A binary64 number. -/
structure Double where
  bits : UInt64
  deriving DecidableEq, Repr

namespace Double

/-- The weight of the sign bit. -/
abbrev signBit : Nat := 0x8000000000000000

/-- The weight of the bit in front of the fraction, which normal numbers do not store. -/
abbrev hiddenBit : Nat := 0x10000000000000

/-- Whether the sign bit is set. -/
def isNegative (x : Double) : Bool := signBit ≤ x.bits.toNat

def magnitudeBits (x : Double) : Nat := x.bits.toNat % signBit

/-- Significand and exponent of two of the magnitude. -/
def parts (x : Double) : Nat × Int :=
  let field : Nat := x.magnitudeBits / hiddenBit
  let fraction : Nat := x.magnitudeBits % hiddenBit
  if field = 0 then (fraction, -1074) else (fraction + hiddenBit, (field : Int) - 1075)

def isZero (x : Double) : Bool := x.magnitudeBits == 0

def negate (x : Double) : Double :=
  if x.isNegative then ⟨x.magnitudeBits.toUInt64⟩ else ⟨(x.magnitudeBits + signBit).toUInt64⟩

/-- The quotient of two numbers, to nearest, a tie to the even neighbour. -/
def roundQuotient (num den : Nat) : Nat :=
  let q := num / den
  let r := num % den
  if 2 * r < den then q else if den < 2 * r then q + 1 else q + q % 2

/-- Numerator and denominator of `num / den` over `2 ^ e`. -/
def scaled (num den : Nat) (e : Int) : Nat × Nat :=
  if 0 ≤ e then (num, den <<< e.toNat) else (num <<< (-e).toNat, den)

/-- The exponent of the last place of `num / den`, subnormal numbers included. -/
def lastPlace (num den : Nat) : Int :=
  let e : Int := (Nat.log2 num : Int) - Nat.log2 den - 52
  let (n, d) := scaled num den e
  max (if n / d < hiddenBit then e - 1 else e) (-1074)

/-- The number nearest to a nonnegative quotient, a tie to the even neighbour; `none` when that is
beyond the finite numbers. -/
def ofRatio? (num den : Nat) : Option Double :=
  if num = 0 then some ⟨0⟩
  else
    let e := lastPlace num den
    let (n, d) := scaled num den e
    let bits := (e + 1074).toNat * hiddenBit + roundQuotient n d
    if bits < 0x7FF * hiddenBit then some ⟨bits.toUInt64⟩ else none

/-- The product of two magnitudes, rounded. -/
def mul? (x y : Double) : Option Double :=
  let (m, e) := x.parts
  let (n, f) := y.parts
  if 0 ≤ e + f then ofRatio? ((m * n) <<< (e + f).toNat) 1
  else ofRatio? (m * n) (1 <<< (-(e + f)).toNat)

/-- The quotient of two magnitudes, rounded; the divisor is not zero. -/
def div? (x y : Double) : Option Double :=
  let (m, e) := x.parts
  let (n, f) := y.parts
  if 0 ≤ e - f then ofRatio? (m <<< (e - f).toNat) n
  else ofRatio? m (n <<< (f - e).toNat)

/-- The number nearest to an integer of at most 64 bits. -/
def ofInt (n : Int) : Double :=
  let magnitude := (ofRatio? n.natAbs 1).getD ⟨0⟩
  if n < 0 then magnitude.negate else magnitude

/-- The number nearest to a power of ten up to 308. -/
def pow10 (k : Nat) : Double := (ofRatio? (Nat.pow 10 k) 1).getD ⟨0⟩

/-- `x` over `10 ^ n`, in steps that divide by a power of ten that is itself a number. -/
def shiftDown (x : Double) (n : Nat) : Double :=
  if n ≤ 308 then (x.div? (pow10 n)).getD ⟨0⟩
  else if x.isZero then x
  else shiftDown ((x.div? (pow10 308)).getD ⟨0⟩) (n - 308)
termination_by n

/-- `significand * 10 ^ exponent` by one multiplication or by divisions, each rounded; `none` when
beyond the finite numbers. -/
def ofDecimal? (significand : Nat) (exponent : Int) : Option Double :=
  let x := (ofRatio? significand 1).getD ⟨0⟩
  if exponent < 0 then some (x.shiftDown exponent.natAbs)
  else if exponent ≤ 308 then x.mul? (pow10 exponent.toNat)
  else if x.isZero then some x
  else none

end Double
end ChatDialect
