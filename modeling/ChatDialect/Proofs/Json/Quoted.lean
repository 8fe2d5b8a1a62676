import ChatDialect.Json.Printer
import ChatDialect.Json.Quoted
import ChatDialect.Proofs.Text.Utf8

/-! Strings that were written read back as they were: each character is one escape, or the bytes
that stand for themselves. -/
namespace ChatDialect.Json.Quoted

/-- A byte that stands for itself within a string. -/
def IsPlain (b : UInt8) : Prop := 0x20 ≤ b.toNat ∧ b.toNat ≠ 0x22 ∧ b.toNat ≠ 0x5C

theorem pieces_of_plain {b : UInt8} (h : IsPlain b) (r : List UInt8) :
    pieces (b :: r) = (.byte b :: (pieces r).1, (pieces r).2) := by
  obtain ⟨hcontrol, hquote, hslash⟩ := h
  have hq : b ≠ 0x22 := fun hb => hquote (by rw [hb]; rfl)
  have hs : b ≠ 0x5C := fun hb => hslash (by rw [hb]; rfl)
  have hlt : ¬b < 0x20 := by
    rw [UInt8.lt_iff_toNat_lt]
    exact Nat.not_lt.mpr hcontrol
  rw [pieces]
  · rw [if_neg hlt]
  · exact hq
  · intro hb _
    exact hs hb
  · intro _ _ _ _ _ hb _
    exact hs hb
  · intro _ _ hb _
    exact hs hb

theorem pieces_append_of_plain {bs : List UInt8} (h : ∀ b ∈ bs, IsPlain b) (r : List UInt8) :
    pieces (bs ++ r) = (bs.map .byte ++ (pieces r).1, (pieces r).2) := by
  induction bs with
  | nil => rfl
  | cons b bs ih =>
    have hb := h b List.mem_cons_self
    have hbs := ih fun b hb => h b (List.mem_cons_of_mem _ hb)
    rw [List.cons_append, pieces_of_plain hb, hbs]
    rfl

theorem bytes_append_of_plain (ending : Option Fault) (bs : List UInt8) (ps : List Piece) :
    bytes ending (bs.map .byte ++ ps) = (bytes ending ps).map (bs ++ ·) := by
  induction bs with
  | nil =>
    rw [List.map_nil, List.nil_append]
    cases bytes ending ps <;> rfl
  | cons b bs ih =>
    rw [List.map_cons, List.cons_append, bytes, ih]
    cases bytes ending ps <;> rfl

/-- The pieces `ps` are read where `written` stands, and stand for `meant`. -/
structure Reads (written : List UInt8) (ps : List Piece) (meant : List UInt8) : Prop where
  pieces (r : List UInt8) : pieces (written ++ r) = (ps ++ (pieces r).1, (pieces r).2)
  bytes (more : List Piece) : bytes none (ps ++ more) = (bytes none more).map (meant ++ ·)

theorem Reads.append {w w' : List UInt8} {ps ps' : List Piece} {m m' : List UInt8}
    (h : Reads w ps m) (h' : Reads w' ps' m') : Reads (w ++ w') (ps ++ ps') (m ++ m') where
  pieces r := by
    rw [List.append_assoc, h.pieces, h'.pieces, List.append_assoc]
  bytes more := by
    rw [List.append_assoc, h.bytes, h'.bytes]
    cases Quoted.bytes none more <;> simp [Except.map]

theorem reads_of_plain {bs : List UInt8} (h : ∀ b ∈ bs, IsPlain b) :
    Reads bs (bs.map .byte) bs :=
  ⟨pieces_append_of_plain h, bytes_append_of_plain none bs⟩

theorem reads_short {b s : UInt8} (hunit : b ≠ 0x75) (hshort : short? b = some s) :
    Reads [0x5C, b] [.short s] [s] where
  pieces r := by
    rw [List.cons_append, List.singleton_append, Quoted.pieces]
    · rw [if_neg hunit, hshort]
      rfl
    · intro _ _ _ _ _ hb _
      exact hunit hb
  bytes more := by
    rw [List.singleton_append, Quoted.bytes]
    cases Quoted.bytes none more <;> rfl

theorem reads_unit {a b c d : UInt8} {n : Nat} (hn : n < 0x80) (hunit : unit? a b c d = some n) :
    Reads [0x5C, 0x75, a, b, c, d] [.unit n] (Utf8.encodeChar (Char.ofNat n)) where
  pieces r := by
    simp only [List.cons_append, List.nil_append, Quoted.pieces, hunit]
  bytes more := by
    have hscalar : n < 0xD800 ∨ 0xDFFF < n := by omega
    rw [List.singleton_append, Quoted.bytes.eq_def]
    simp only [if_pos hscalar]
    cases Quoted.bytes none more <;> rfl

/-- A digit of an escaped code unit. -/
def hexByte (n : Nat) : UInt8 := (hexDigit n).toNat.toUInt8

/-- The control characters without a short escape are escaped code units. -/
theorem escape_control : ∀ n < 0x20, n ∉ [0x08, 0x09, 0x0A, 0x0C, 0x0D] →
    Utf8.encode (escape (Char.ofNat n)) =
        [0x5C, 0x75, 0x30, 0x30, hexByte (n / 16), hexByte (n % 16)] ∧
      unit? 0x30 0x30 (hexByte (n / 16)) (hexByte (n % 16)) = some n := by
  decide

theorem reads_control {n : Nat} (h : n < 0x20) :
    ∃ ps, Reads (Utf8.encode (escape (Char.ofNat n))) ps (Utf8.encodeChar (Char.ofNat n)) := by
  by_cases hshort : n ∈ [0x08, 0x09, 0x0A, 0x0C, 0x0D]
  · simp only [List.mem_cons, List.not_mem_nil, or_false] at hshort
    rcases hshort with rfl | rfl | rfl | rfl | rfl
    · exact ⟨_, reads_short (b := 0x62) (by decide) rfl⟩
    · exact ⟨_, reads_short (b := 0x74) (by decide) rfl⟩
    · exact ⟨_, reads_short (b := 0x6E) (by decide) rfl⟩
    · exact ⟨_, reads_short (b := 0x66) (by decide) rfl⟩
    · exact ⟨_, reads_short (b := 0x72) (by decide) rfl⟩
  · obtain ⟨hwritten, hunit⟩ := escape_control n h hshort
    rw [hwritten]
    exact ⟨_, reads_unit (by omega) hunit⟩

/-- What is written for a character reads as that character. -/
theorem reads_escape (c : Char) :
    ∃ ps, Reads (Utf8.encode (escape c)) ps (Utf8.encodeChar c) := by
  have hchar : Char.ofNat c.toNat = c := Char.ofNat_toNat c
  by_cases hcontrol : c.toNat < 0x20
  · rw [← hchar]
    exact reads_control hcontrol
  · by_cases hquote : c.toNat = 0x22
    · rw [← hchar, hquote]
      exact ⟨_, reads_short (b := 0x22) (by decide) rfl⟩
    · by_cases hslash : c.toNat = 0x5C
      · rw [← hchar, hslash]
        exact ⟨_, reads_short (b := 0x5C) (by decide) rfl⟩
      · have hescape : escape c = [c] := by
          unfold escape
          simp only [hquote, hslash, hcontrol, if_false]
        have hencode : Utf8.encode (escape c) = Utf8.encodeChar c := by
          rw [hescape]
          exact List.append_nil _
        rw [hencode]
        refine ⟨_, reads_of_plain ?_⟩
        intro b hb
        by_cases hascii : c.toNat < 0x80
        · rw [Utf8.encodeChar_of_lt hascii, List.mem_singleton] at hb
          have hnat : b.toNat = c.toNat := by
            rw [hb]
            exact Utf8.toNat_toUInt8 (by omega)
          unfold IsPlain
          omega
        · have hle := Utf8.le_of_mem_encodeChar (by omega) hb
          unfold IsPlain
          omega

/-- Reading what was written for characters gives them back, and goes on behind the quote. -/
theorem reads_escapes (cs : List Char) :
    ∃ ps, Reads (Utf8.encode (cs.flatMap escape)) ps (Utf8.encode cs) := by
  induction cs with
  | nil => exact ⟨[], reads_of_plain (by simp [Utf8.encode])⟩
  | cons c cs ih =>
    obtain ⟨ps, hc⟩ := reads_escape c
    obtain ⟨qs, hcs⟩ := ih
    refine ⟨ps ++ qs, ?_⟩
    rw [List.flatMap_cons, Utf8.encode_append]
    exact hc.append hcs

theorem read_quote (s : String) (rest : List UInt8) :
    read (Utf8.encode (s.toList.flatMap escape) ++ 0x22 :: rest) = (.clean s, some rest) := by
  obtain ⟨ps, hpieces, hbytes⟩ := reads_escapes s.toList
  have hclosed : pieces (0x22 :: rest) = ([], .closed rest) := by rw [pieces]
  have hmeant : bytes none ps = .ok (Utf8.ofString s) := by
    have h := hbytes []
    rw [List.append_nil] at h
    rw [h]
    exact congrArg Except.ok (List.append_nil _)
  have hvalue : value ps none = .ok s := by
    unfold value
    rw [hmeant]
    have htext := Utf8.toString?_ofString s
    simp only [bind, Except.bind, htext]
    rfl
  unfold read
  rw [hpieces, hclosed, List.append_nil]
  simp only [Ending.fault?, Ending.rest?, hvalue]
  rfl

end ChatDialect.Json.Quoted
