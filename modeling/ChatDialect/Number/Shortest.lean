import ChatDialect.Number.Double

/-! The shortest decimal that reads back as a given binary64 number. -/
namespace ChatDialect.Double

/-- Whether `k / 4` units of `2 ^ e` around the significand `m` round to it: the closed interval
for an even `m`, the open one for an odd `m`. Below a power of two the gap is half as wide. -/
structure Interval where
  lo : Nat
  hi : Nat
  closed : Bool

/-- The bounds in quarter units. -/
def interval (m : Nat) (e : Int) : Interval :=
  ⟨4 * m - (if m = hiddenBit ∧ -1074 < e then 1 else 2), 4 * m + 2, m % 2 = 0⟩

def Interval.covers (i : Interval) (num den : Nat) : Bool :=
  if i.closed then i.lo * den ≤ num && num ≤ i.hi * den
  else i.lo * den < num && num < i.hi * den

/-- The least `j ≤ fuel` with `den ≤ num * 10 ^ j`. -/
def leadingZeros (den : Nat) : Nat → Nat → Nat
  | 0, _ => 0
  | fuel + 1, num => if den ≤ num then 0 else leadingZeros den fuel (num * 10) + 1

/-- The exponent of the first decimal digit of a positive quotient. -/
def decimalExponent (num den : Nat) : Int :=
  if den ≤ num then ((Nat.toDigits 10 (num / den)).length : Int) - 1
  else -(leadingZeros den 400 num : Int)

/-- The choice between the two neighbours `c` and `c + 1` of `num / den` on a decimal grid. -/
def chooseNeighbour (num den c : Nat) (low high : Bool) : Option Nat :=
  match low, high with
  | true, true =>
    let r := 2 * (num - c * den)
    if r < den then some c else if den < r then some (c + 1) else some (c + c % 2)
  | true, false => some c
  | false, true => some (c + 1)
  | false, false => none

/-- The first grid, by digits, that has a point in the interval of `m * 2 ^ e`; the nearest such
point and the exponent of its last digit. -/
def searchGrid (m : Nat) (e k : Int) : (grids digits : Nat) → Nat × Int
  | 0, _ => (m, 0)
  | grids + 1, digits =>
    let step : Int := k - digits + 1
    let num := m <<< e.toNat * Nat.pow 10 (-step).toNat
    let den := 1 <<< (-e).toNat * Nat.pow 10 step.toNat
    let c := num / den
    let unit := 1 <<< e.toNat * Nat.pow 10 (-step).toNat
    let i := interval m e
    let covers (c : Nat) : Bool := i.covers (4 * c * den) unit
    match chooseNeighbour num den c (covers c) (covers (c + 1)) with
    | some d => (d, step)
    | none => searchGrid m e k grids (digits + 1)

/-- Digits without zeros at the end, each zero dropped raising the exponent. -/
def dropZeros : (fuel n : Nat) → Int → Nat × Int
  | 0, n, x => (n, x)
  | fuel + 1, n, x => if n % 10 = 0 ∧ n ≠ 0 then dropZeros fuel (n / 10) (x + 1) else (n, x)

/-- The digits of the shortest decimal, as a number, and the exponent of its last digit. -/
def shortest (x : Double) : Nat × Int :=
  let (m, e) := x.parts
  if m = 0 then (0, 0)
  else
    let k := decimalExponent (m <<< e.toNat) (1 <<< (-e).toNat)
    let (d, s) := searchGrid m e k 17 1
    dropZeros 20 d s

def zeros (n : Nat) : List Char := List.replicate n '0'

/-- Positional form, with one digit after the point at least. -/
def positional (digits : List Char) (exponent : Int) : List Char :=
  let point := (digits.length : Int) + exponent
  if 0 ≤ exponent then digits ++ zeros exponent.toNat ++ ['.', '0']
  else if 0 < point then digits.take point.toNat ++ '.' :: digits.drop point.toNat
  else '0' :: '.' :: zeros (-point).toNat ++ digits

/-- Form with an exponent, which carries its sign. -/
def scientific (digits : List Char) (exponent : Int) : List Char :=
  let mantissa := match digits with
    | [] => []
    | [d] => [d]
    | d :: ds => d :: '.' :: ds
  mantissa ++ 'e' :: (if exponent < 0 then '-' else '+') :: Nat.toDigits 10 exponent.natAbs

/-- The text of a number: the fewest digits that read back, positional when the exponent of the
first digit lies between `-5` and `15`. -/
def chars (x : Double) : List Char :=
  let (n, e) := x.shortest
  let digits := Nat.toDigits 10 n
  let first := (digits.length : Int) - 1 + e
  let body := if -5 ≤ first ∧ first ≤ 15 then positional digits e else scientific digits first
  if x.isNegative then '-' :: body else body

end ChatDialect.Double
