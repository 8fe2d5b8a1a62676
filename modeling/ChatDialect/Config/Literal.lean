import ChatDialect.Number.Double
import ChatDialect.Text.Ascii

/-! Numbers, dates and times of TOML, each matched as a whole. -/
namespace ChatDialect.Toml

open Text

/-- Digits with single underscores between them. -/
def isDigits (ok : Char → Bool) : List Char → Bool
  | [] => false
  | [c] => ok c
  | c :: '_' :: d :: rest => ok c && isDigits ok (d :: rest)
  | c :: d :: rest => ok c && isDigits ok (d :: rest)

def unsigned : List Char → Bool × List Char
  | '+' :: cs => (false, cs)
  | '-' :: cs => (true, cs)
  | cs => (false, cs)

/-- A number without a sign: no zero in front of another digit. -/
def isPlain (cs : List Char) : Bool :=
  isDigits Char.isDigit cs && (cs.head? != some '0' || cs.length == 1)

def digitValue (c : Char) : Nat :=
  if c.isDigit then c.toNat - 48 else c.toLower.toNat - 87

def valueIn (base : Nat) (cs : List Char) : Nat :=
  (cs.filter (· != '_')).foldl (fun acc c => acc * base + digitValue c) 0

def isHex (c : Char) : Bool :=
  c.isDigit || ('a'.toNat ≤ c.toLower.toNat && c.toLower.toNat ≤ 'f'.toNat)

/-- An integer of 64 bits. -/
def bounded? (n : Int) : Option Int :=
  if -0x8000000000000000 ≤ n ∧ n < 0x8000000000000000 then some n else none

def integer? (cs : List Char) : Option Int :=
  match cs with
  | '0' :: 'x' :: ds => if isDigits isHex ds then bounded? (valueIn 16 ds) else none
  | '0' :: 'o' :: ds =>
    if isDigits (fun c => c.isDigit && c.toNat < 56) ds then bounded? (valueIn 8 ds) else none
  | '0' :: 'b' :: ds =>
    if isDigits (fun c => c == '0' || c == '1') ds then bounded? (valueIn 2 ds) else none
  | _ =>
    let (negative, ds) := unsigned cs
    if isPlain ds then
      let n : Int := valueIn 10 ds
      bounded? (if negative then -n else n)
    else none

def isExponent (cs : List Char) : Bool := isDigits Char.isDigit (unsigned cs).2

/-- The parts of a number with a fraction, an exponent or both, without its sign: the digits before
and after the point, and the exponent. -/
def floatParts? (body : List Char) : Option (List Char × List Char × List Char) :=
  match splitFirst (fun c => c == 'e' || c == 'E') body with
  | some (mantissa, e) =>
    match splitFirst (· == '.') mantissa with
    | some (whole, fraction) =>
      if isPlain whole && isDigits Char.isDigit fraction && isExponent e then
        some (whole, fraction, e)
      else none
    | none => if isPlain mantissa && isExponent e then some (mantissa, [], e) else none
  | none =>
    match splitFirst (· == '.') body with
    | some (whole, fraction) =>
      if isPlain whole && isDigits Char.isDigit fraction then some (whole, fraction, []) else none
    | none => none

/-- Whether a number is at least as large as the first one that has no nearest binary64 number. -/
def isHuge (whole fraction e : List Char) : Bool :=
  let digits := (whole ++ fraction).filter Char.isDigit
  let significand := valueIn 10 digits
  let (negative, e) := unsigned e
  let e : Int := if negative then -(valueIn 10 e : Int) else valueIn 10 e
  let place : Int := e - (fraction.filter Char.isDigit).length
  if significand = 0 ∨ place + digits.length < 300 then false
  else if 310 + (digits.length : Int) < place + digits.length then true
  else if place < 0 then
    (Double.ofRatio? significand (Nat.pow 10 (-place).toNat)).isNone
  else (Double.ofRatio? (significand * Nat.pow 10 place.toNat) 1).isNone

/-- A number that is no integer. A positive one beyond the finite numbers is refused. -/
def isFloat (cs : List Char) : Bool :=
  let (negative, body) := unsigned cs
  if body == "inf".toList || body == "nan".toList then true
  else match floatParts? body with
    | some (whole, fraction, e) => negative || !isHuge whole fraction e
    | none => false

/-- A number of exactly so many digits within bounds. -/
def fixed? (count lo hi : Nat) (cs : List Char) : Option (Nat × List Char) :=
  let ds := cs.take count
  if ds.length = count ∧ ds.all Char.isDigit then
    let n := valueIn 10 ds
    if lo ≤ n ∧ n ≤ hi then some (n, cs.drop count) else none
  else none

def expect? (c : Char) : List Char → Option (List Char)
  | d :: cs => if c = d then some cs else none
  | [] => none

def daysIn (year month : Nat) : Nat :=
  if month = 2 then
    if year % 4 = 0 ∧ (year % 100 ≠ 0 ∨ year % 400 = 0) then 29 else 28
  else if month = 4 ∨ month = 6 ∨ month = 9 ∨ month = 11 then 30
  else 31

/-- What follows a date. -/
def afterDate? (cs : List Char) : Option (List Char) := do
  let (year, cs) ← fixed? 4 0 9999 cs
  let cs ← expect? '-' cs
  let (month, cs) ← fixed? 2 1 12 cs
  let cs ← expect? '-' cs
  let (_, cs) ← fixed? 2 1 (daysIn year month) cs
  return cs

/-- What follows a time of day. -/
def afterClock? (cs : List Char) : Option (List Char) := do
  let (_, cs) ← fixed? 2 0 23 cs
  let cs ← expect? ':' cs
  let (_, cs) ← fixed? 2 0 59 cs
  let cs ← expect? ':' cs
  let (_, cs) ← fixed? 2 0 60 cs
  match cs with
  | '.' :: ds =>
    let rest := ds.dropWhile Char.isDigit
    if rest.length < ds.length then some rest else none
  | _ => some cs

/-- A distance from universal time, or nothing. -/
def isOffset (cs : List Char) : Bool :=
  match cs with
  | [] => true
  | ['Z'] => true
  | ['z'] => true
  | c :: cs =>
    (c == '+' || c == '-') && (match (do
      let (_, cs) ← fixed? 2 0 23 cs
      let cs ← expect? ':' cs
      fixed? 2 0 59 cs) with
      | some (_, []) => true
      | _ => false)

/-- Puts the marks of a date with a time in upper case, and one between the two. -/
def timeChar (c : Char) : Char := if c = ' ' then 'T' else c.toUpper

def time? (cs : List Char) : Option String :=
  let whole : Bool := match afterDate? cs with
    | some [] => true
    | some (mark :: rest) =>
      (mark == 'T' || mark == 't' || mark == ' ') &&
        (match afterClock? rest with
          | some rest => isOffset rest
          | none => false)
    | none => afterClock? cs == some []
  if whole then some (String.ofList (cs.map timeChar)) else none

/-- The characters of numbers, dates and times. -/
def isLiteralChar (c : Char) : Bool :=
  c.isAlphanum || c == '_' || c == '+' || c == '-' || c == '.' || c == ':'

/-- The literal at the front: a date may have a blank before its time. -/
def takeLiteral (cs : List Char) : List Char × List Char :=
  let token := cs.takeWhile isLiteralChar
  let rest := cs.dropWhile isLiteralChar
  match rest with
  | ' ' :: after =>
    if afterDate? token == some [] && (afterClock? (after.takeWhile isLiteralChar)).isSome then
      (token ++ ' ' :: after.takeWhile isLiteralChar, after.dropWhile isLiteralChar)
    else (token, rest)
  | _ => (token, rest)

end ChatDialect.Toml
