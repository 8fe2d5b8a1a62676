/-! The standard base64 alphabet, read strictly: padded or not padded, with no spare bits set. -/
namespace ChatDialect.Base64

/-- The value of a symbol. -/
def sextet? (c : Char) : Option Nat :=
  let n := c.toNat
  if 65 ≤ n ∧ n ≤ 90 then some (n - 65)
  else if 97 ≤ n ∧ n ≤ 122 then some (n - 71)
  else if 48 ≤ n ∧ n ≤ 57 then some (n + 4)
  else if n = 43 then some 62
  else if n = 47 then some 63
  else none

/-- The symbol of a value below 64. -/
def symbol (v : Nat) : Char :=
  if v < 26 then Char.ofNat (v + 65)
  else if v < 52 then Char.ofNat (v + 71)
  else if v < 62 then Char.ofNat (v - 4)
  else if v = 62 then '+'
  else '/'

/-- The text of the bytes; `fill` closes a last group that is not full. -/
def write (fill : Nat → List Char) : List UInt8 → List Char
  | [] => []
  | [a] => symbol (a.toNat / 4) :: symbol (a.toNat % 4 * 16) :: fill 2
  | [a, b] =>
    symbol (a.toNat / 4) :: symbol (a.toNat % 4 * 16 + b.toNat / 16) ::
      symbol (b.toNat % 16 * 4) :: fill 1
  | a :: b :: c :: r =>
    symbol (a.toNat / 4) :: symbol (a.toNat % 4 * 16 + b.toNat / 16) ::
      symbol (b.toNat % 16 * 4 + c.toNat / 64) :: symbol (c.toNat % 64) :: write fill r

def padded (n : Nat) : List Char := List.replicate n '='

def unpadded (_ : Nat) : List Char := []

def encode (bs : List UInt8) : List Char := write padded bs

/-- One byte from a last group of two symbols; the four bits left over must be clear. -/
def tailOne (a b : Char) : Option (List UInt8) := do
  let x ← sextet? a
  let y ← sextet? b
  if y % 16 = 0 then some [(x * 4 + y / 16).toUInt8] else none

/-- Two bytes from a last group of three symbols; the two bits left over must be clear. -/
def tailTwo (a b c : Char) : Option (List UInt8) := do
  let x ← sextet? a
  let y ← sextet? b
  let z ← sextet? c
  if z % 4 = 0 then some [(x * 4 + y / 16).toUInt8, (y % 16 * 16 + z / 4).toUInt8] else none

def fullGroup (a b c d : Char) : Option (List UInt8) := do
  let x ← sextet? a
  let y ← sextet? b
  let z ← sextet? c
  let w ← sextet? d
  some [(x * 4 + y / 16).toUInt8, (y % 16 * 16 + z / 4).toUInt8, (z % 4 * 64 + w).toUInt8]

/-- Text in groups of four symbols, the last one padded. -/
def readPadded : List Char → Option (List UInt8)
  | [] => some []
  | [a, b, '=', '='] => tailOne a b
  | [a, b, c, '='] => tailTwo a b c
  | a :: b :: c :: d :: r => do
    let g ← fullGroup a b c d
    let bs ← readPadded r
    some (g ++ bs)
  | _ => none

/-- Text in groups of four symbols, the last one as short as its bytes allow. -/
def readUnpadded : List Char → Option (List UInt8)
  | [] => some []
  | [a, b] => tailOne a b
  | [a, b, c] => tailTwo a b c
  | a :: b :: c :: d :: r => do
    let g ← fullGroup a b c d
    let bs ← readUnpadded r
    some (g ++ bs)
  | _ => none

def decode? (cs : List Char) : Option (List UInt8) := (readPadded cs).or (readUnpadded cs)

end ChatDialect.Base64
