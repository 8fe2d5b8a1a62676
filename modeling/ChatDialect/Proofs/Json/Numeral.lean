import ChatDialect.Json.Numeral
import ChatDialect.Proofs.Text.Utf8

/-! Integers that were written read back as they were. -/
namespace ChatDialect.Json.Numeral

/-- Bytes that do not go on with a number. -/
def Ends : List UInt8 → Prop
  | [] => True
  | b :: _ => digit? b = none ∧ b ≠ 0x2E ∧ b ≠ 0x65 ∧ b ≠ 0x45

/-- The value of a digit. -/
def digitOf (c : Char) : Nat := c.toNat - 48

theorem range_of_isDigit {c : Char} (h : c.isDigit = true) : 48 ≤ c.toNat ∧ c.toNat ≤ 57 := by
  unfold Char.isDigit at h
  rw [Bool.and_eq_true, decide_eq_true_eq, decide_eq_true_eq] at h
  exact h

theorem isDigit_of_mem {c : Char} {n : Nat} (h : c ∈ Nat.toDigits 10 n) : c.isDigit = true :=
  Nat.isDigit_of_mem_toDigits (by omega) (by omega) h

theorem digit?_of_isDigit {c : Char} (h : c.isDigit = true) :
    digit? c.toNat.toUInt8 = some (digitOf c) := by
  obtain ⟨hlo, hhi⟩ := range_of_isDigit h
  have hbyte : c.toNat.toUInt8.toNat = c.toNat := Utf8.toNat_toUInt8 (by omega)
  unfold digit?
  rw [hbyte]
  exact if_pos ⟨hlo, hhi⟩

theorem encode_cons_of_isDigit {c : Char} (h : c.isDigit = true) (cs : List Char) :
    Utf8.encode (c :: cs) = c.toNat.toUInt8 :: Utf8.encode cs := by
  obtain ⟨-, hhi⟩ := range_of_isDigit h
  have hbyte : Utf8.encodeChar c = [c.toNat.toUInt8] := Utf8.encodeChar_of_lt (by omega)
  unfold Utf8.encode
  rw [List.flatMap_cons, hbyte, List.singleton_append]

theorem digits_of_ends {rest : List UInt8} (h : Ends rest) : digits rest = ([], rest) := by
  cases rest with
  | nil => rfl
  | cons b r =>
    rw [digits, h.1]

theorem digits_encode {cs : List Char} (h : ∀ c ∈ cs, c.isDigit = true) {rest : List UInt8}
    (hrest : Ends rest) : digits (Utf8.encode cs ++ rest) = (cs.map digitOf, rest) := by
  induction cs with
  | nil => exact digits_of_ends hrest
  | cons c cs ih =>
    have hc := h c List.mem_cons_self
    have hcs := ih fun c hc => h c (List.mem_cons_of_mem _ hc)
    rw [encode_cons_of_isDigit hc, List.cons_append, digits, digit?_of_isDigit hc]
    simp only [hcs, List.map_cons]

theorem ofDigits_map (cs : List Char) : ofDigits (cs.map digitOf) = Nat.ofDigitChars 10 cs 0 := by
  have hzero : '0'.toNat = 48 := rfl
  rw [Nat.ofDigitChars_eq_foldl, ofDigits, List.foldl_map]
  simp only [digitOf, hzero, Nat.mul_comm]

theorem ofDigits_toDigits (n : Nat) : ofDigits ((Nat.toDigits 10 n).map digitOf) = n := by
  rw [ofDigits_map, Nat.ofDigitChars_ten_toDigits]

/-- No zero stands in front of other digits. -/
theorem toDigits_head (n : Nat) :
    ∃ c cs, Nat.toDigits 10 n = c :: cs ∧ (cs = [] ∨ digitOf c ≠ 0) := by
  induction n using Nat.strongRecOn with
  | ind n ih =>
    by_cases hlt : n < 10
    · exact ⟨_, _, Nat.toDigits_of_lt_base hlt, .inl rfl⟩
    · obtain ⟨c, cs, hdigits, hhead⟩ := ih (n / 10) (by omega)
      refine ⟨c, cs ++ [(n % 10).digitChar], ?_, .inr ?_⟩
      · rw [Nat.toDigits_of_base_le (by omega) (by omega), hdigits, List.cons_append]
      · rcases hhead with rfl | hhead
        · -- a single digit in front stands for `n / 10`, which is not zero
          have hvalue := ofDigits_toDigits (n / 10)
          rw [hdigits] at hvalue
          simp only [List.map_cons, List.map_nil, ofDigits, List.foldl_cons,
            List.foldl_nil] at hvalue
          omega
        · exact hhead

theorem wholePart_toDigits (n : Nat) {rest : List UInt8} (hrest : Ends rest) :
    wholePart (Utf8.encode (Nat.toDigits 10 n) ++ rest) =
      .ok ((Nat.toDigits 10 n).map digitOf, rest) := by
  have hall : ∀ c ∈ Nat.toDigits 10 n, c.isDigit = true := by
    intro c hc
    exact isDigit_of_mem hc
  have hdigits := digits_encode hall hrest
  obtain ⟨c, cs, hcs, hhead⟩ := toDigits_head n
  rw [hcs] at hdigits ⊢
  unfold wholePart someDigits
  rw [hdigits]
  simp only [List.map_cons, bind, Except.bind]
  rcases hhead with rfl | hhead
  · cases digitOf c <;> rfl
  · obtain ⟨k, hk⟩ := Nat.exists_eq_succ_of_ne_zero hhead
    rw [hk]
    cases cs <;> rfl

theorem fractionPart_of_ends {rest : List UInt8} (h : Ends rest) :
    fractionPart rest = .ok ([], rest) := by
  unfold fractionPart
  split
  · next r => exact absurd rfl h.2.1
  · rfl

theorem exponentPart_of_ends {rest : List UInt8} (h : Ends rest) :
    exponentPart rest = .ok (none, rest) := by
  cases rest with
  | nil => rfl
  | cons b r =>
    have hb : ¬(b = 0x65 ∨ b = 0x45) := not_or.mpr h.2.2
    unfold exponentPart
    simp only [if_neg hb]

theorem toWhole?_of_natAbs {w : Whole} {digits : List Nat} (h : ofDigits digits = w.val.natAbs) :
    toWhole? ⟨decide (w.val < 0), digits, [], none⟩ = some w := by
  have hofInt : Whole.ofInt? w.val = some w := by
    unfold Whole.ofInt?
    rw [dif_pos ⟨w.lower, w.upper⟩]
  unfold toWhole?
  simp only [h, List.isEmpty_nil, Option.isNone_none, and_self, if_true, decide_eq_true_eq]
  by_cases hneg : w.val < 0
  · have hnonzero : ¬w.val.natAbs = 0 := by omega
    have habs : -(w.val.natAbs : Int) = w.val := by omega
    rw [if_pos hneg, if_neg hnonzero, habs, hofInt]
  · have habs : (w.val.natAbs : Int) = w.val := by omega
    rw [if_neg hneg, habs, hofInt]

/-- A number without point and exponent, whatever its sign. -/
theorem scan_of_whole {bs rest : List UInt8} {digits : List Nat}
    (hwhole : wholePart bs = .ok (digits, rest)) (hrest : Ends rest) :
    scan (0x2D :: bs) = .ok (⟨true, digits, [], none⟩, rest) ∧
      (bs.head? ≠ some 0x2D → scan bs = .ok (⟨false, digits, [], none⟩, rest)) := by
  have hfraction := fractionPart_of_ends hrest
  have hexponent := exponentPart_of_ends hrest
  constructor
  · simp only [scan, hwhole, hfraction, hexponent, bind, Except.bind]
  · intro hsign
    unfold scan
    split
    next negative bs' heq =>
      have hsame : negative = false ∧ bs' = bs := by
        split at heq
        · next hsign => exact absurd rfl hsign
        · exact ⟨(congrArg Prod.fst heq).symm, (congrArg Prod.snd heq).symm⟩
      obtain ⟨rfl, rfl⟩ := hsame
      simp only [hwhole, hfraction, hexponent, bind, Except.bind]

theorem scan_chars (w : Whole) {rest : List UInt8} (hrest : Ends rest) :
    scan (Utf8.encode (Number.int w).chars ++ rest) =
      .ok (⟨decide (w.val < 0), (Nat.toDigits 10 w.val.natAbs).map digitOf, [], none⟩, rest) := by
  obtain ⟨hminus, hplain⟩ := scan_of_whole (wholePart_toDigits w.val.natAbs hrest) hrest
  have hchars : (Number.int w).chars =
      if w.val < 0 then '-' :: Nat.toDigits 10 w.val.natAbs else Nat.toDigits 10 w.val.natAbs := rfl
  rw [hchars]
  by_cases hneg : w.val < 0
  · rw [if_pos hneg, decide_eq_true hneg]
    exact hminus
  · rw [if_neg hneg, decide_eq_false hneg]
    apply hplain
    obtain ⟨c, cs, hcs, -⟩ := toDigits_head w.val.natAbs
    have hc : c.isDigit = true := isDigit_of_mem (n := w.val.natAbs) (by simp [hcs])
    rw [hcs, encode_cons_of_isDigit hc]
    intro h
    have hbyte : c.toNat.toUInt8 = 0x2D := Option.some.inj h
    have hdigit := digit?_of_isDigit hc
    rw [hbyte] at hdigit
    cases hdigit

theorem read_chars (w : Whole) {rest : List UInt8} (hrest : Ends rest) :
    read (Utf8.encode (Number.int w).chars ++ rest) = (.clean (.int w), some rest) := by
  have hvalue : value ⟨decide (w.val < 0), (Nat.toDigits 10 w.val.natAbs).map digitOf, [], none⟩ =
      .ok (.int w) := by
    unfold value
    rw [toWhole?_of_natAbs (ofDigits_toDigits _)]
  unfold read
  rw [scan_chars w hrest]
  simp only [hvalue]
  rfl

end ChatDialect.Json.Numeral
