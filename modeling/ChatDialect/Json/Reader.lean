import ChatDialect.Json.Numeral
import ChatDialect.Json.Quoted

/-! From the bytes of a JSON text to its tree. -/
namespace ChatDialect.Json

def isSpace (b : UInt8) : Bool := b == 0x20 || b == 0x09 || b == 0x0A || b == 0x0D

def skipSpace (bs : List UInt8) : List UInt8 := bs.dropWhile isSpace

/-- The rest of a word whose letters must follow. -/
def readLetters : (letters bs : List UInt8) → Except Fault (List UInt8)
  | [], bs => .ok bs
  | _ :: _, [] => .error .truncated
  | c :: cs, b :: bs => if b = c then readLetters cs bs else .error .malformed

/-- A word of the grammar after its first letter. -/
def readWord (word : Option Fault → Tree) (letters bs : List UInt8) : Tree × Option (List UInt8) :=
  match readLetters letters bs with
  | .ok rest => (word none, some rest)
  | .error f => (word (some f), none)

/-- A value that is neither string, array nor object. -/
def readPlain (bs : List UInt8) : Tree × Option (List UInt8) :=
  match bs with
  | [] => (.missing .truncated, none)
  | 0x6E :: r => readWord .null [0x75, 0x6C, 0x6C] r
  | 0x74 :: r => readWord (.bool true) [0x72, 0x75, 0x65] r
  | 0x66 :: r => readWord (.bool false) [0x61, 0x6C, 0x73, 0x65] r
  | b :: _ =>
    if b = 0x2D ∨ (Numeral.digit? b).isSome then
      let (leaf, rest) := Numeral.read bs
      (.number leaf, rest)
    else (.missing .malformed, none)

/-- What stands where the first key of an object belongs, taken for a name. -/
def strayName (bs : List UInt8) : Fault :=
  match bs with
  | 0x5B :: _ => .mismatch
  | 0x7B :: _ => .mismatch
  | _ => (readPlain bs).1.reject

mutual
/-- Reads a value; what follows, unless it breaks off. -/
def readTree : Nat → List UInt8 → Tree × Option (List UInt8)
  | 0, _ => (.missing .malformed, none)
  | fuel + 1, bs =>
    match skipSpace bs with
    | 0x22 :: r =>
      let (leaf, rest) := Quoted.read r
      (.text leaf, rest)
    | 0x5B :: r =>
      match skipSpace r with
      | [] => (.array [] (.cut .truncated), none)
      | 0x5D :: r' => (.array [] .closed, some r')
      | b :: r' =>
        let (items, close, rest) := readItems fuel (b :: r')
        (.array items close, rest)
    | 0x7B :: r =>
      match skipSpace r with
      | [] => (.object [] (.cut .truncated), none)
      | 0x7D :: r' => (.object [] .closed, some r')
      | 0x22 :: r' =>
        let (fields, close, rest) := readFields fuel r'
        (.object fields close, rest)
      | b :: r' => (.object [] (.oddKey (strayName (b :: r'))), none)
    | bs' => readPlain bs'

/-- Reads the items of an array from the first one that is left. -/
def readItems : Nat → List UInt8 → List Tree × Close × Option (List UInt8)
  | 0, _ => ([], .cut .malformed, none)
  | fuel + 1, bs =>
    match readTree fuel bs with
    | (t, none) => ([t], .cut .malformed, none)
    | (t, some r) =>
      match skipSpace r with
      | [] => ([t], .cut .truncated, none)
      | 0x5D :: r' => ([t], .closed, some r')
      | 0x2C :: r' =>
        match skipSpace r' with
        | [] => ([t], .comma .truncated, none)
        | 0x5D :: _ => ([t], .comma .malformed, none)
        | b :: r'' =>
          let (ts, close, rest) := readItems fuel (b :: r'')
          (t :: ts, close, rest)
      | _ => ([t], .cut .malformed, none)

/-- Reads the fields of an object, after the opening quote of the first key that is left. -/
def readFields : Nat → List UInt8 → List (Leaf String × Tree) × Close × Option (List UInt8)
  | 0, _ => ([], .cut .malformed, none)
  | fuel + 1, bs =>
    match Quoted.read bs with
    | (key, none) => ([(key, .missing .malformed)], .cut .malformed, none)
    | (key, some r) =>
      match skipSpace r with
      | [] => ([(key, .missing .truncated)], .cut .malformed, none)
      | 0x3A :: r' =>
        match readTree fuel r' with
        | (t, none) => ([(key, t)], .cut .malformed, none)
        | (t, some r'') =>
          match skipSpace r'' with
          | [] => ([(key, t)], .cut .truncated, none)
          | 0x7D :: s => ([(key, t)], .closed, some s)
          | 0x2C :: s =>
            match skipSpace s with
            | [] => ([(key, t)], .comma .truncated, none)
            | 0x22 :: s' =>
              let (ts, close, rest) := readFields fuel s'
              ((key, t) :: ts, close, rest)
            | _ => ([(key, t)], .comma .malformed, none)
          | _ => ([(key, t)], .cut .malformed, none)
      | _ => ([(key, .missing .malformed)], .cut .malformed, none)
end

/-- How many arrays and objects one in another a text may hold where its values are read. -/
def nestingLimit : Nat := 127

/-- The tree of a text, and the fault of what follows it: nothing but blanks may. -/
def readDocument (bs : List UInt8) : Tree × Option Fault :=
  match readTree (2 * bs.length + 2) bs with
  | (t, none) => (t, some .malformed)
  | (t, some rest) => (t, if (skipSpace rest).isEmpty then none else some .malformed)

end ChatDialect.Json
