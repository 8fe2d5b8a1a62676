import ChatDialect.Config.Literal
import ChatDialect.Config.Table

/-! Reading TOML documents. A reader answers what it finds at the front, and what follows. -/
namespace ChatDialect.Toml

def skipBlanks (cs : List Char) : List Char := cs.dropWhile fun c => c == ' ' || c == '\t'

def newline? : List Char → Option (List Char)
  | '\n' :: cs => some cs
  | '\r' :: '\n' :: cs => some cs
  | _ => none

/-- Control characters, of which only the tab may stand in comments and strings. -/
def isControl (c : Char) : Bool := (c.toNat < 0x20 && c != '\t') || c.toNat == 0x7F

/-- What follows a comment, if one begins here. -/
def skipComment (cs : List Char) : List Char :=
  match cs with
  | '#' :: rest => rest.dropWhile fun c => !isControl c
  | _ => cs

/-- The end of a line: blanks, a comment, and a line break unless the text ends. -/
def lineEnd? (cs : List Char) : Option (List Char) :=
  match skipComment (skipBlanks cs) with
  | [] => some []
  | rest => newline? rest

/-- Skips blanks, comments and line breaks. -/
def skipLines : Nat → List Char → List Char
  | 0, cs => cs
  | fuel + 1, cs =>
    let rest := skipComment (skipBlanks cs)
    match newline? rest with
    | some rest => skipLines fuel rest
    | none => rest

def hexValue? (ds : List Char) : Option Nat := if ds.all isHex then some (valueIn 16 ds) else none

def scalar? (n : Nat) : Option Char := if n.isValidChar then some (Char.ofNat n) else none

/-- An escape after its backslash. -/
def escape? : List Char → Option (Char × List Char)
  | 'b' :: cs => some ('\x08', cs)
  | 't' :: cs => some ('\t', cs)
  | 'n' :: cs => some ('\n', cs)
  | 'f' :: cs => some ('\x0c', cs)
  | 'r' :: cs => some ('\r', cs)
  | '"' :: cs => some ('"', cs)
  | '\\' :: cs => some ('\\', cs)
  | 'u' :: a :: b :: c :: d :: cs => do
    let n ← hexValue? [a, b, c, d]
    let x ← scalar? n
    return (x, cs)
  | 'U' :: a :: b :: c :: d :: e :: f :: g :: h :: cs => do
    let n ← hexValue? [a, b, c, d, e, f, g, h]
    let x ← scalar? n
    return (x, cs)
  | _ => none

/-- A string on one line after its opening mark; in a literal one nothing is escaped. -/
def line? (mark : Char) : Nat → List Char → Option (List Char × List Char)
  | 0, _ => none
  | _ + 1, [] => none
  | fuel + 1, c :: cs =>
    if c = mark then some ([], cs)
    else if c = '\\' ∧ mark = '"' then do
      let (x, cs) ← escape? cs
      let (s, cs) ← line? mark fuel cs
      return (x :: s, cs)
    else if isControl c then none
    else do
      let (s, cs) ← line? mark fuel cs
      return (c :: s, cs)

/-- Skips all blanks and line breaks. -/
def skipSpace : Nat → List Char → List Char
  | 0, cs => cs
  | fuel + 1, cs =>
    let rest := skipBlanks cs
    match newline? rest with
    | some rest => skipSpace fuel rest
    | none => rest

/-- A string over several lines after its opening marks. Three marks close it; two more may stand
before them. A backslash at the end of a line swallows the space up to the next text. -/
def block? (mark : Char) : Nat → List Char → Option (List Char × List Char)
  | 0, _ => none
  | _ + 1, [] => none
  | fuel + 1, c :: cs =>
    if c = mark then
      let marks := (c :: cs).takeWhile (· == mark)
      let rest := (c :: cs).dropWhile (· == mark)
      if marks.length < 3 then do
        let (s, rest) ← block? mark fuel rest
        return (marks ++ s, rest)
      else if marks.length < 6 then some (marks.drop 3, rest)
      else none
    else if c = '\\' ∧ mark = '"' then
      match newline? (skipBlanks cs) with
      | some rest => block? mark fuel (skipSpace rest.length rest)
      | none => do
        let (x, cs) ← escape? cs
        let (s, cs) ← block? mark fuel cs
        return (x :: s, cs)
    else match newline? (c :: cs) with
      | some rest => do
        let (s, rest) ← block? mark fuel rest
        return ('\n' :: s, rest)
      | none =>
        if isControl c then none
        else do
          let (s, cs) ← block? mark fuel cs
          return (c :: s, cs)

def text? (cs : List Char) : Option (String × List Char) := do
  let (s, rest) ← match cs with
    | '"' :: '"' :: '"' :: rest => block? '"' (rest.length + 1) ((newline? rest).getD rest)
    | '\'' :: '\'' :: '\'' :: rest => block? '\'' (rest.length + 1) ((newline? rest).getD rest)
    | '"' :: rest => line? '"' (rest.length + 1) rest
    | '\'' :: rest => line? '\'' (rest.length + 1) rest
    | _ => none
  return (String.ofList s, rest)

def isBare (c : Char) : Bool := c.isAlphanum || c == '-' || c == '_'

/-- One part of a key. -/
def keyPart? (cs : List Char) : Option (String × List Char) :=
  match cs with
  | '"' :: rest => (line? '"' (rest.length + 1) rest).map fun (s, r) => (String.ofList s, r)
  | '\'' :: rest => (line? '\'' (rest.length + 1) rest).map fun (s, r) => (String.ofList s, r)
  | _ =>
    let name := cs.takeWhile isBare
    if name.isEmpty then none else some (String.ofList name, cs.dropWhile isBare)

/-- How many parts a key may have. -/
def partsLimit : Nat := 79

/-- The last part of a key of so many parts at most, after the parts before it. -/
def key? : Nat → List Char → Option ((List String × String) × List Char)
  | 0, _ => none
  | parts + 1, cs => do
    let (part, rest) ← keyPart? (skipBlanks cs)
    match skipBlanks rest with
    | '.' :: rest => do
      let ((path, last), rest) ← key? parts rest
      return ((part :: path, last), rest)
    | rest => return (([], part), rest)

/-- A key with its sign of equality. -/
def keySign? (cs : List Char) : Option ((List String × String) × List Char) := do
  let (key, rest) ← key? partsLimit cs
  match rest with
  | '=' :: rest => return (key, skipBlanks rest)
  | _ => none

/-- A value that holds no others. -/
def simple? (cs : List Char) : Option (Item × List Char) :=
  match cs with
  | '"' :: _ => (text? cs).map fun (s, r) => (.str s, r)
  | '\'' :: _ => (text? cs).map fun (s, r) => (.str s, r)
  | _ =>
    let (token, rest) := takeLiteral cs
    if token == "true".toList then some (.bool true, rest)
    else if token == "false".toList then some (.bool false, rest)
    else match time? token with
      | some t => some (.time t, rest)
      | none => match integer? token with
        | some n => some (.integer n, rest)
        | none => if isFloat token then some (.float (String.ofList token), rest) else none

mutual
/-- A value; arrays and inline tables may lie `depth` deep in it. -/
def value? : Nat → (depth : Nat) → List Char → Option (Item × List Char)
  | 0, _, _ => none
  | fuel + 1, depth, cs =>
    match cs, depth with
    | '[' :: _, 0 => none
    | '\x7b' :: _, 0 => none
    | '[' :: rest, depth + 1 => do
      let (items, rest) ← items? fuel depth (skipLines rest.length rest)
      return (.array items, rest)
    | '\x7b' :: rest, depth + 1 =>
      match skipBlanks rest with
      | '\x7d' :: rest => some (.table .inline [], rest)
      | rest => do
        let (entries, rest) ← entries? fuel depth [] rest
        return (.table .inline entries, rest)
    | _, _ => simple? cs

/-- The items of an array up to its bracket. -/
def items? : Nat → (depth : Nat) → List Char → Option (List Item × List Char)
  | 0, _, _ => none
  | fuel + 1, depth, cs =>
    match cs with
    | ']' :: rest => some ([], rest)
    | _ => do
      let (item, rest) ← value? fuel depth cs
      match skipLines rest.length rest with
      | ',' :: rest => do
        let (items, rest) ← items? fuel depth (skipLines rest.length rest)
        return (item :: items, rest)
      | ']' :: rest => return ([item], rest)
      | _ => none

/-- The entries of an inline table from the next one on, up to its brace. -/
def entries? : Nat → (depth : Nat) → Entries → List Char → Option (Entries × List Char)
  | 0, _, _, _ => none
  | fuel + 1, depth, es, cs => do
    let ((path, key), rest) ← keySign? cs
    let (item, rest) ← value? fuel depth rest
    let es ← es.define path key item
    match skipBlanks rest with
    | ',' :: rest => entries? fuel depth es rest
    | '\x7d' :: rest => return (es, rest)
    | _ => none
end

/-- How deep arrays and inline tables may lie in a document. -/
def nestingLimit : Nat := 79

/-- A header after its first bracket. -/
def header? (listed : Bool) (cs : List Char) : Option ((List String × String) × List Char) := do
  let (key, rest) ← key? partsLimit cs
  match listed, rest with
  | false, ']' :: rest => return (key, rest)
  | true, ']' :: ']' :: rest => return (key, rest)
  | _, _ => none

/-- An entry of the table at a path. -/
def defineAt (table : List String) (path : List String) (key : String) (item : Item)
    (root : Entries) : Option Entries :=
  root.alter false (fun _ es => es.define path key item) table .header

/-- The lines of a document, the table of the last header being open. -/
def lines? : Nat → (current : List String) → Entries → List Char → Option Entries
  | 0, _, _, _ => none
  | fuel + 1, current, root, cs =>
    match skipBlanks cs with
    | [] => some root
    | '[' :: '[' :: rest => do
      let ((path, key), rest) ← header? true rest
      let root ← root.openListed path key
      let rest ← lineEnd? rest
      lines? fuel (path ++ [key]) root rest
    | '[' :: rest => do
      let ((path, key), rest) ← header? false rest
      let root ← root.openTable path key
      let rest ← lineEnd? rest
      lines? fuel (path ++ [key]) root rest
    | rest =>
      match lineEnd? rest with
      | some rest => lines? fuel current root rest
      | none => do
        let ((path, key), rest) ← keySign? rest
        let (item, rest) ← value? (2 * rest.length + 2) nestingLimit rest
        let root ← defineAt current path key item root
        let rest ← lineEnd? rest
        lines? fuel current root rest

/-- Reads a document, a byte order mark in front ignored. -/
def parse? (s : String) : Option Entries :=
  let cs := match s.toList with
    | '\uFEFF' :: cs => cs
    | cs => cs
  lines? (cs.length + 1) [] [] cs

end ChatDialect.Toml
