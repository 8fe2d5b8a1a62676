/-! Letter case and cutting of texts. Only the ASCII letters have a case here. -/
namespace ChatDialect.Text

def lower (s : String) : String := String.ofList (s.toList.map Char.toLower)

def upper (s : String) : String := String.ofList (s.toList.map Char.toUpper)

/-- A text, unless it is empty. -/
def nonEmpty? (s : String) : Option String := if s = "" then none else some s

def sameLetters (s t : String) : Bool := lower s == lower t

/-- What follows `head` in `cs`, letter case ignored; `head` is in lower case. -/
def afterIgnoringCase? : (head cs : List Char) → Option (List Char)
  | [], cs => some cs
  | _ :: _, [] => none
  | h :: hs, c :: cs => if c.toLower = h then afterIgnoringCase? hs cs else none

/-- What follows `head` in `cs`. -/
def after? : (head cs : List Char) → Option (List Char)
  | [], cs => some cs
  | _ :: _, [] => none
  | h :: hs, c :: cs => if c = h then after? hs cs else none

/-- The parts before and after the first character that satisfies `p`. -/
def splitFirst (p : Char → Bool) : List Char → Option (List Char × List Char)
  | [] => none
  | c :: cs => if p c then some ([], cs) else (splitFirst p cs).map fun (a, b) => (c :: a, b)

/-- The parts before and after the last character that satisfies `p`. -/
def splitLast (p : Char → Bool) : List Char → Option (List Char × List Char)
  | [] => none
  | c :: cs =>
    match splitLast p cs with
    | some (a, b) => some (c :: a, b)
    | none => if p c then some ([], cs) else none

/-- The parts between the characters that satisfy `p`; there is always at least one. -/
def splitAll (p : Char → Bool) : List Char → List (List Char)
  | [] => [[]]
  | c :: cs =>
    if p c then [] :: splitAll p cs
    else match splitAll p cs with
      | [] => [[c]]
      | part :: parts => (c :: part) :: parts

def contains (s : String) (c : Char) : Bool := s.toList.any (· == c)

/-- Whether `part` occurs in `cs`. -/
def hasInfix (part : List Char) : List Char → Bool
  | [] => part.isEmpty
  | c :: cs => (after? part (c :: cs)).isSome || hasInfix part cs

/-- A number in decimal digits, with an optional plus sign, below `bound`. -/
def natBelow? (bound : Nat) (cs : List Char) : Option Nat :=
  let digits := match cs with
    | '+' :: rest => rest
    | _ => cs
  if digits.isEmpty || !digits.all Char.isDigit then none
  else
    let n := Nat.ofDigitChars 10 digits 0
    if n < bound then some n else none

end ChatDialect.Text
