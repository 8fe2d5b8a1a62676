import ChatDialect.Json.Basic
import ChatDialect.Text.Utf8

/-! The compact text of JSON values: no blanks, and only what must be escaped is. -/
namespace ChatDialect.Json

def hexDigit (n : Nat) : Char := Char.ofNat (if n < 10 then n + 48 else n + 87)

/-- A character within a string: quote, backslash and the control characters are escaped. -/
def escape (c : Char) : List Char :=
  let n := c.toNat
  if n = 0x22 then ['\\', '"']
  else if n = 0x5C then ['\\', '\\']
  else if n < 0x20 then
    if n = 0x08 then ['\\', 'b']
    else if n = 0x09 then ['\\', 't']
    else if n = 0x0A then ['\\', 'n']
    else if n = 0x0C then ['\\', 'f']
    else if n = 0x0D then ['\\', 'r']
    else ['\\', 'u', '0', '0', hexDigit (n / 16), hexDigit (n % 16)]
  else [c]

def quote (s : String) : List Char := '"' :: (s.toList.flatMap escape ++ ['"'])

def wordChars (b : Bool) : List Char :=
  if b then ['t', 'r', 'u', 'e'] else ['f', 'a', 'l', 's', 'e']

mutual
def chars : Json → List Char
  | .null => ['n', 'u', 'l', 'l']
  | .bool b => wordChars b
  | .num n => n.chars
  | .str s => quote s
  | .arr items => '[' :: (itemChars items ++ [']'])
  | .obj fields => '\x7b' :: (fieldChars fields ++ ['\x7d'])

/-- Items with commas between them. -/
def itemChars : List Json → List Char
  | [] => []
  | [x] => x.chars
  | x :: y :: rest => x.chars ++ ',' :: itemChars (y :: rest)

/-- Fields with commas between them. -/
def fieldChars : List (String × Json) → List Char
  | [] => []
  | [(k, x)] => quote k ++ ':' :: x.chars
  | (k, x) :: y :: rest => quote k ++ ':' :: (x.chars ++ ',' :: fieldChars (y :: rest))
end

def text (j : Json) : String := String.ofList j.chars

def bytes (j : Json) : List UInt8 := Utf8.encode j.chars

end ChatDialect.Json
