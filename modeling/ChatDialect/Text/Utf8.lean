/-! UTF-8 over lists of bytes: writing, strict reading, and reading that marks ill-formed parts. -/
namespace ChatDialect.Utf8

/-- The shortest form of one scalar value. -/
def encodeChar (c : Char) : List UInt8 :=
  let n := c.toNat
  if n < 0x80 then [n.toUInt8]
  else if n < 0x800 then [(0xC0 + n / 64).toUInt8, (0x80 + n % 64).toUInt8]
  else if n < 0x10000 then
    [(0xE0 + n / 4096).toUInt8, (0x80 + n / 64 % 64).toUInt8, (0x80 + n % 64).toUInt8]
  else
    [(0xF0 + n / 262144).toUInt8, (0x80 + n / 4096 % 64).toUInt8, (0x80 + n / 64 % 64).toUInt8,
      (0x80 + n % 64).toUInt8]

def encode (cs : List Char) : List UInt8 := cs.flatMap encodeChar

/-- The bytes of a text. -/
def ofString (s : String) : List UInt8 := encode s.toList

/-- A scalar value that has begun: the bits so far, the bytes owed after the next one, and the
range of the next one. -/
structure Pending where
  bits : Nat
  owed : Nat
  lo : Nat
  hi : Nat
  deriving DecidableEq, Repr

/-- What a first byte gives: a scalar value at once, one that has begun, or nothing. -/
inductive Start where
  | whole (c : Char)
  | begun (p : Pending)
  | stray
  deriving DecidableEq, Repr

def start (b : UInt8) : Start :=
  let n := b.toNat
  if n < 0x80 then .whole (Char.ofNat n)
  else if n < 0xC2 then .stray
  else if n < 0xE0 then .begun ⟨n - 0xC0, 0, 0x80, 0xBF⟩
  else if n = 0xE0 then .begun ⟨0, 1, 0xA0, 0xBF⟩
  else if n = 0xED then .begun ⟨0xD, 1, 0x80, 0x9F⟩
  else if n < 0xF0 then .begun ⟨n - 0xE0, 1, 0x80, 0xBF⟩
  else if n = 0xF0 then .begun ⟨0, 2, 0x90, 0xBF⟩
  else if n < 0xF4 then .begun ⟨n - 0xF0, 2, 0x80, 0xBF⟩
  else if n = 0xF4 then .begun ⟨4, 2, 0x80, 0x8F⟩
  else .stray

/-- The scalar values of the bytes in order, after what is pending. Each longest run of bytes that
begins a scalar value and breaks off, and each byte that begins none, stands as one `none`. -/
def scanFrom : Option Pending → List UInt8 → List (Option Char)
  | none, [] => []
  | some _, [] => [none]
  | none, b :: r =>
    match start b with
    | .whole c => some c :: scanFrom none r
    | .begun p => scanFrom (some p) r
    | .stray => none :: scanFrom none r
  | some p, b :: r =>
    if p.lo ≤ b.toNat ∧ b.toNat ≤ p.hi then
      match p.owed with
      | 0 => some (Char.ofNat (p.bits * 64 + b.toNat % 64)) :: scanFrom none r
      | k + 1 => scanFrom (some ⟨p.bits * 64 + b.toNat % 64, k, 0x80, 0xBF⟩) r
    else
      match start b with
      | .whole c => none :: some c :: scanFrom none r
      | .begun q => none :: scanFrom (some q) r
      | .stray => none :: none :: scanFrom none r

def scan (bs : List UInt8) : List (Option Char) := scanFrom none bs

/-- Strict reading: `none` if any byte is out of place. -/
def decode? (bs : List UInt8) : Option (List Char) := (scan bs).mapM id

def toString? (bs : List UInt8) : Option String := (decode? bs).map String.ofList

/-- Reading that puts a replacement character where the bytes are ill-formed. -/
def lossy (bs : List UInt8) : String := String.ofList ((scan bs).map (·.getD '\uFFFD'))

end ChatDialect.Utf8
