import ChatDialect.Text.Utf8

/-! Text that was written as UTF-8 reads back as it was, strictly or not, and how it begins shows in
its first bytes. -/
namespace ChatDialect.Utf8

theorem toNat_toUInt8 {n : Nat} (h : n < 256) : n.toUInt8.toNat = n := by
  have hn : n.toUInt8.toNat = n % 256 := rfl
  rw [hn, Nat.mod_eq_of_lt h]

/-- The first byte of a scalar value that takes two bytes. -/
theorem start_of_two {n : Nat} (h₁ : 0x80 ≤ n) (h₂ : n < 0x800) :
    start (0xC0 + n / 64).toUInt8 = .begun ⟨n / 64, 0, 0x80, 0xBF⟩ := by
  unfold start
  rw [toNat_toUInt8 (by omega)]
  simp only [show ¬0xC0 + n / 64 < 0x80 by omega, show ¬0xC0 + n / 64 < 0xC2 by omega,
    show 0xC0 + n / 64 < 0xE0 by omega, if_true, if_false, Nat.add_sub_cancel_left]

/-- The first byte of a scalar value that takes three bytes; it leaves the second byte of no
surrogate and no shorter form. -/
theorem start_of_three {n : Nat} (h₁ : 0x800 ≤ n) (h₂ : n < 0x10000)
    (hs : n < 0xD800 ∨ 0xDFFF < n) :
    ∃ lo hi, start (0xE0 + n / 4096).toUInt8 = .begun ⟨n / 4096, 1, lo, hi⟩ ∧
      lo ≤ 0x80 + n / 64 % 64 ∧ 0x80 + n / 64 % 64 ≤ hi := by
  unfold start
  rw [toNat_toUInt8 (by omega)]
  simp only [show ¬0xE0 + n / 4096 < 0x80 by omega, show ¬0xE0 + n / 4096 < 0xC2 by omega,
    show ¬0xE0 + n / 4096 < 0xE0 by omega, show 0xE0 + n / 4096 < 0xF0 by omega, if_true, if_false]
  by_cases hfirst : 0xE0 + n / 4096 = 0xE0
  · have hzero : n / 4096 = 0 := by omega
    rw [if_pos hfirst, hzero]
    exact ⟨_, _, rfl, by omega, by omega⟩
  · rw [if_neg hfirst]
    by_cases hlast : 0xE0 + n / 4096 = 0xED
    · have hd : n / 4096 = 0xD := by omega
      rw [if_pos hlast, hd]
      exact ⟨_, _, rfl, by omega, by omega⟩
    · rw [if_neg hlast, Nat.add_sub_cancel_left]
      exact ⟨_, _, rfl, by omega, by omega⟩

/-- The first byte of a scalar value that takes four bytes; it leaves the second byte of no shorter
form and of nothing beyond the last scalar value. -/
theorem start_of_four {n : Nat} (h₁ : 0x10000 ≤ n) (h₂ : n < 0x110000) :
    ∃ lo hi, start (0xF0 + n / 262144).toUInt8 = .begun ⟨n / 262144, 2, lo, hi⟩ ∧
      lo ≤ 0x80 + n / 4096 % 64 ∧ 0x80 + n / 4096 % 64 ≤ hi := by
  unfold start
  rw [toNat_toUInt8 (by omega)]
  simp only [show ¬0xF0 + n / 262144 < 0x80 by omega, show ¬0xF0 + n / 262144 < 0xC2 by omega,
    show ¬0xF0 + n / 262144 < 0xE0 by omega, show ¬0xF0 + n / 262144 = 0xE0 by omega,
    show ¬0xF0 + n / 262144 = 0xED by omega, show ¬0xF0 + n / 262144 < 0xF0 by omega, if_false]
  by_cases hfirst : 0xF0 + n / 262144 = 0xF0
  · have hzero : n / 262144 = 0 := by omega
    rw [if_pos hfirst, hzero]
    exact ⟨_, _, rfl, by omega, by omega⟩
  · rw [if_neg hfirst]
    by_cases hmiddle : 0xF0 + n / 262144 < 0xF4
    · rw [if_pos hmiddle, Nat.add_sub_cancel_left]
      exact ⟨_, _, rfl, by omega, by omega⟩
    · have hfour : n / 262144 = 4 := by omega
      rw [if_neg hmiddle, hfour, if_pos rfl]
      exact ⟨_, _, rfl, by omega, by omega⟩

/-- The last byte that a scalar value is owed ends it. -/
theorem scanFrom_last {bits lo hi x n : Nat} (r : List UInt8) (hx : x < 64) (hlo : lo ≤ 0x80 + x)
    (hhi : 0x80 + x ≤ hi) (hn : bits * 64 + x = n) :
    scanFrom (some ⟨bits, 0, lo, hi⟩) ((0x80 + x).toUInt8 :: r) =
      some (Char.ofNat n) :: scanFrom none r := by
  have hbyte : (0x80 + x).toUInt8.toNat = 0x80 + x := toNat_toUInt8 (by omega)
  have hvalue : bits * 64 + (0x80 + x) % 64 = n := by omega
  simp only [scanFrom, hbyte, hlo, hhi, and_self, if_true, hvalue]

/-- A byte before the last adds its bits. -/
theorem scanFrom_next {bits owed lo hi x n : Nat} (r : List UInt8) (hx : x < 64)
    (hlo : lo ≤ 0x80 + x) (hhi : 0x80 + x ≤ hi) (hn : bits * 64 + x = n) :
    scanFrom (some ⟨bits, owed + 1, lo, hi⟩) ((0x80 + x).toUInt8 :: r) =
      scanFrom (some ⟨n, owed, 0x80, 0xBF⟩) r := by
  have hbyte : (0x80 + x).toUInt8.toNat = 0x80 + x := toNat_toUInt8 (by omega)
  have hvalue : bits * 64 + (0x80 + x) % 64 = n := by omega
  simp only [scanFrom, hbyte, hlo, hhi, and_self, if_true, hvalue]

theorem scanFrom_encodeChar (c : Char) (r : List UInt8) :
    scanFrom none (encodeChar c ++ r) = some c :: scanFrom none r := by
  have hvalid : c.toNat < 0xD800 ∨ 0xDFFF < c.toNat ∧ c.toNat < 0x110000 := c.valid
  have hchar : Char.ofNat c.toNat = c := Char.ofNat_toNat c
  unfold encodeChar
  generalize c.toNat = n at hvalid hchar
  simp only
  by_cases h₁ : n < 0x80
  · have hstart : start n.toUInt8 = .whole (Char.ofNat n) := by
      unfold start
      rw [toNat_toUInt8 (by omega)]
      simp only [h₁, if_true]
    rw [if_pos h₁, List.singleton_append, scanFrom, hstart, hchar]
  rw [if_neg h₁]
  by_cases h₂ : n < 0x800
  · rw [if_pos h₂, List.cons_append, List.singleton_append, scanFrom,
      start_of_two (by omega) h₂]
    simp only
    rw [scanFrom_last r (by omega) (by omega) (by omega) (show n / 64 * 64 + n % 64 = n by omega),
      hchar]
  rw [if_neg h₂]
  by_cases h₃ : n < 0x10000
  · obtain ⟨lo, hi, hstart, hlo, hhi⟩ := start_of_three (by omega) h₃ (by omega)
    rw [if_pos h₃, List.cons_append, List.cons_append, List.singleton_append, scanFrom, hstart]
    simp only
    rw [scanFrom_next _ (by omega) hlo hhi (show n / 4096 * 64 + n / 64 % 64 = n / 64 by omega),
      scanFrom_last r (by omega) (by omega) (by omega) (show n / 64 * 64 + n % 64 = n by omega),
      hchar]
  · obtain ⟨lo, hi, hstart, hlo, hhi⟩ := start_of_four (by omega) (show n < 0x110000 by omega)
    rw [if_neg h₃, List.cons_append, List.cons_append, List.cons_append, List.singleton_append,
      scanFrom, hstart]
    simp only
    rw [scanFrom_next _ (by omega) hlo hhi
        (show n / 262144 * 64 + n / 4096 % 64 = n / 4096 by omega),
      scanFrom_next _ (by omega) (by omega) (by omega)
        (show n / 4096 * 64 + n / 64 % 64 = n / 64 by omega),
      scanFrom_last r (by omega) (by omega) (by omega) (show n / 64 * 64 + n % 64 = n by omega),
      hchar]

theorem scan_encode (cs : List Char) : scan (encode cs) = cs.map some := by
  unfold scan encode
  induction cs with
  | nil => rfl
  | cons c cs ih => rw [List.flatMap_cons, scanFrom_encodeChar, ih, List.map_cons]

theorem decode?_encode (cs : List Char) : decode? (encode cs) = some cs := by
  unfold decode?
  rw [scan_encode]
  induction cs with
  | nil => rfl
  | cons c cs ih => simp [ih]

theorem toString?_ofString (s : String) : toString? (ofString s) = some s := by
  unfold toString? ofString
  rw [decode?_encode, Option.map_some, String.ofList_toList]

theorem lossy_encode (cs : List Char) : lossy (encode cs) = String.ofList cs := by
  unfold lossy
  rw [scan_encode, List.map_map]
  congr
  exact List.map_id cs

theorem encode_append (xs ys : List Char) : encode (xs ++ ys) = encode xs ++ encode ys :=
  List.flatMap_append

/-- No byte of a character beyond ASCII is an ASCII byte. -/
theorem le_of_mem_encodeChar {c : Char} {b : UInt8} (hc : 0x80 ≤ c.toNat) (h : b ∈ encodeChar c) :
    0x80 ≤ b.toNat := by
  have hvalid : c.toNat < 0xD800 ∨ 0xDFFF < c.toNat ∧ c.toNat < 0x110000 := c.valid
  unfold encodeChar at h
  generalize c.toNat = n at hc hvalid h
  simp only [show ¬n < 0x80 by omega, if_false] at h
  have hbyte {m : Nat} (h₁ : 0x80 ≤ m) (h₂ : m < 256) (hb : b = m.toUInt8) : 0x80 ≤ b.toNat := by
    rw [hb, toNat_toUInt8 h₂]
    exact h₁
  split at h
  · simp only [List.mem_cons, List.not_mem_nil, or_false] at h
    rcases h with h | h <;> exact hbyte (by omega) (by omega) h
  · split at h
    · simp only [List.mem_cons, List.not_mem_nil, or_false] at h
      rcases h with h | h | h <;> exact hbyte (by omega) (by omega) h
    · simp only [List.mem_cons, List.not_mem_nil, or_false] at h
      rcases h with h | h | h | h <;> exact hbyte (by omega) (by omega) h

/-- An ASCII character is one byte. -/
theorem encodeChar_of_lt {c : Char} (h : c.toNat < 0x80) : encodeChar c = [c.toNat.toUInt8] := by
  unfold encodeChar
  exact if_pos h

/-- Characters that are not below an ASCII character have no byte below it. -/
theorem le_of_mem_encode {n : Nat} (hn : n ≤ 0x80) {cs : List Char} (h : ∀ c ∈ cs, n ≤ c.toNat)
    {b : UInt8} (hb : b ∈ encode cs) : n ≤ b.toNat := by
  obtain ⟨c, hc, hb⟩ := List.mem_flatMap.mp hb
  by_cases hascii : c.toNat < 0x80
  · rw [encodeChar_of_lt hascii, List.mem_singleton] at hb
    rw [hb, toNat_toUInt8 (by omega)]
    exact h c hc
  · exact Nat.le_trans hn (le_of_mem_encodeChar (by omega) hb)

/-- A byte with the letters of ASCII in lower case. -/
def lowerByte (b : UInt8) : UInt8 := if 65 ≤ b ∧ b ≤ 90 then b + 32 else b

theorem lowerByte_toUInt8 {c : Char} (h : c.toNat < 0x80) :
    lowerByte c.toNat.toUInt8 = c.toLower.toNat.toUInt8 := by
  have hsmall : ∀ n < 0x80, lowerByte n.toUInt8 = (Char.ofNat n).toLower.toNat.toUInt8 := by decide
  rw [hsmall _ h, Char.ofNat_toNat]

theorem toLower_lt {c : Char} (h : c.toNat < 0x80) : c.toLower.toNat < 0x80 := by
  have hsmall : ∀ n < 0x80, (Char.ofNat n).toLower.toNat < 0x80 := by decide
  rw [← Char.ofNat_toNat c]
  exact hsmall _ h

theorem toLower_of_le {c : Char} (h : 0x80 ≤ c.toNat) : c.toLower = c := by
  unfold Char.toLower
  split
  · next hletter =>
    have hsmall : c.toNat ≤ 90 := UInt32.le_iff_toNat_le.mp hletter.2
    omega
  · rfl

theorem lowerByte_of_le {b : UInt8} (h : 0x80 ≤ b.toNat) : lowerByte b = b := by
  unfold lowerByte
  split
  · next hletter =>
    have hsmall : b.toNat ≤ 90 := UInt8.le_iff_toNat_le.mp hletter.2
    omega
  · rfl

theorem encode_cons_of_lt {c : Char} (h : c.toNat < 0x80) (cs : List Char) :
    encode (c :: cs) = c.toNat.toUInt8 :: encode cs := by
  rw [encode, List.flatMap_cons, encodeChar_of_lt h]
  rfl

/-- A character beyond ASCII begins with a byte beyond ASCII. -/
theorem exists_encode_cons {c : Char} (h : 0x80 ≤ c.toNat) (cs : List Char) :
    ∃ b bs, encode (c :: cs) = b :: bs ∧ 0x80 ≤ b.toNat := by
  have hsome : encodeChar c ≠ [] := by
    unfold encodeChar
    dsimp only
    repeat' split
    all_goals exact List.cons_ne_nil _ _
  obtain ⟨b, bs, hbs⟩ := List.exists_cons_of_ne_nil hsome
  refine ⟨b, bs ++ encode cs, ?_, le_of_mem_encodeChar h (hbs ▸ List.mem_cons_self)⟩
  rw [encode, List.flatMap_cons, hbs]
  rfl

theorem toUInt8_inj {c d : Char} (hc : c.toNat < 0x80) (hd : d.toNat < 0x80) :
    c.toNat.toUInt8 = d.toNat.toUInt8 ↔ c = d := by
  refine ⟨fun h => ?_, fun h => h ▸ rfl⟩
  have hnat := congrArg UInt8.toNat h
  rw [toNat_toUInt8 (by omega), toNat_toUInt8 (by omega)] at hnat
  exact Char.toNat_inj.mp hnat

/-- How a text begins, letter case ignored, shows in its bytes: no character beyond ASCII has a byte
that would pass for one of an ASCII text. -/
theorem encode_prefix_iff {head cs : List Char} (hhead : ∀ c ∈ head, c.toNat < 0x80) :
    encode head <+: (encode cs).map lowerByte ↔ head <+: cs.map Char.toLower := by
  induction head generalizing cs with
  | nil => exact iff_of_true List.nil_prefix List.nil_prefix
  | cons h hs ih =>
    obtain ⟨hh, hhs⟩ := List.forall_mem_cons.mp hhead
    rw [encode_cons_of_lt hh]
    cases cs with
    | nil => exact iff_of_false (by simp [encode]) (by simp)
    | cons c cs =>
      by_cases hc : c.toNat < 0x80
      · rw [encode_cons_of_lt hc, List.map_cons, List.map_cons, List.cons_prefix_cons,
          List.cons_prefix_cons, lowerByte_toUInt8 hc, toUInt8_inj hh (toLower_lt hc), ih hhs]
      · obtain ⟨b, bs, hbs, hb⟩ := exists_encode_cons (Nat.le_of_not_lt hc) cs
        rw [hbs, List.map_cons, List.map_cons, List.cons_prefix_cons, List.cons_prefix_cons,
          lowerByte_of_le hb, toLower_of_le (Nat.le_of_not_lt hc)]
        refine iff_of_false (fun heq => ?_) fun heq => hc (heq.1 ▸ hh)
        have hnat := congrArg UInt8.toNat heq.1
        rw [toNat_toUInt8 (by omega)] at hnat
        omega

end ChatDialect.Utf8
