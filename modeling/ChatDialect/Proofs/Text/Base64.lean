import Mathlib.Data.List.TakeWhile
import ChatDialect.Media.Url
import ChatDialect.Proofs.Text.Blank

/-! What is written in base64 is read as the bytes that were written, and base64 text in its padded
form stays as it is. -/
namespace ChatDialect

namespace Base64

theorem sextet?_symbol {v : Nat} (h : v < 64) : sextet? (symbol v) = some v := by
  have hall : ∀ v < 64, sextet? (symbol v) = some v := by decide
  exact hall v h

theorem symbol_ne_fill {v : Nat} (h : v < 64) : symbol v ≠ '=' := by
  intro hfill
  have hsextet := sextet?_symbol h
  rw [hfill] at hsextet
  cases hsextet

section Groups
variable (a b c : UInt8)

theorem tailOne_symbols : tailOne (symbol (a.toNat / 4)) (symbol (a.toNat % 4 * 16)) = some [a] := by
  have ha := a.toNat_lt
  have hbyte : a.toNat / 4 * 4 + a.toNat % 4 * 16 / 16 = a.toNat := by omega
  have hspare : a.toNat % 4 * 16 % 16 = 0 := by omega
  simp only [tailOne, bind, Option.bind, sextet?_symbol (show a.toNat / 4 < 64 by omega),
    sextet?_symbol (show a.toNat % 4 * 16 < 64 by omega), hspare, hbyte, if_true]
  exact congrArg (fun a => some [a]) (UInt8.ofNat_toNat)

theorem tailTwo_symbols : tailTwo (symbol (a.toNat / 4)) (symbol (a.toNat % 4 * 16 + b.toNat / 16))
    (symbol (b.toNat % 16 * 4)) = some [a, b] := by
  have ha := a.toNat_lt
  have hb := b.toNat_lt
  have hfirst : a.toNat / 4 * 4 + (a.toNat % 4 * 16 + b.toNat / 16) / 16 = a.toNat := by omega
  have hsecond : (a.toNat % 4 * 16 + b.toNat / 16) % 16 * 16 + b.toNat % 16 * 4 / 4 = b.toNat := by
    omega
  have hspare : b.toNat % 16 * 4 % 4 = 0 := by omega
  simp only [tailTwo, bind, Option.bind, sextet?_symbol (show a.toNat / 4 < 64 by omega),
    sextet?_symbol (show a.toNat % 4 * 16 + b.toNat / 16 < 64 by omega),
    sextet?_symbol (show b.toNat % 16 * 4 < 64 by omega), hspare, hfirst, hsecond, if_true]
  simp

theorem fullGroup_symbols :
    fullGroup (symbol (a.toNat / 4)) (symbol (a.toNat % 4 * 16 + b.toNat / 16))
      (symbol (b.toNat % 16 * 4 + c.toNat / 64)) (symbol (c.toNat % 64)) = some [a, b, c] := by
  have ha := a.toNat_lt
  have hb := b.toNat_lt
  have hc := c.toNat_lt
  have hfirst : a.toNat / 4 * 4 + (a.toNat % 4 * 16 + b.toNat / 16) / 16 = a.toNat := by omega
  have hsecond : (a.toNat % 4 * 16 + b.toNat / 16) % 16 * 16 +
      (b.toNat % 16 * 4 + c.toNat / 64) / 4 = b.toNat := by omega
  have hthird : (b.toNat % 16 * 4 + c.toNat / 64) % 4 * 64 + c.toNat % 64 = c.toNat := by omega
  simp only [fullGroup, bind, Option.bind, sextet?_symbol (show a.toNat / 4 < 64 by omega),
    sextet?_symbol (show a.toNat % 4 * 16 + b.toNat / 16 < 64 by omega),
    sextet?_symbol (show b.toNat % 16 * 4 + c.toNat / 64 < 64 by omega),
    sextet?_symbol (show c.toNat % 64 < 64 by omega), hfirst, hsecond, hthird]
  simp

end Groups

/-- A group that is not closed by a fill is a full one. -/
theorem readPadded_full {a b c d : Char} (hd : d ≠ '=') (r : List Char) :
    readPadded (a :: b :: c :: d :: r) =
      (fullGroup a b c d).bind fun g => (readPadded r).bind fun bs => some (g ++ bs) := by
  rw [readPadded]
  · rfl
  · rintro - rfl -
    exact hd rfl
  · rintro rfl -
    exact hd rfl

theorem readPadded_two {a b c : Char} (hc : c ≠ '=') :
    readPadded [a, b, c, '='] = tailTwo a b c := by
  rw [readPadded]
  rintro rfl
  exact hc rfl

theorem readPadded_encode (bs : List UInt8) : readPadded (encode bs) = some bs := by
  unfold encode
  induction bs using write.induct with
  | case1 => rfl
  | case2 a => exact tailOne_symbols a
  | case3 a b =>
    have hfill : symbol (b.toNat % 16 * 4) ≠ '=' := symbol_ne_fill (by omega)
    exact (readPadded_two hfill).trans (tailTwo_symbols a b)
  | case4 a b c r ih =>
    have hfill : symbol (c.toNat % 64) ≠ '=' := symbol_ne_fill (by omega)
    rw [write, readPadded_full hfill, fullGroup_symbols, ih]
    rfl

theorem decode?_encode (bs : List UInt8) : decode? (encode bs) = some bs := by
  rw [decode?, readPadded_encode, Option.some_or]

theorem symbol_visible {v : Nat} (h : v < 64) : Text.isBlank (symbol v) = false := by
  have hall : ∀ v < 64, Text.isBlank (symbol v) = false := by decide
  exact hall v h

/-- What is written are symbols, and fills at the end. -/
theorem mem_write {fill : Nat → List Char} {bs : List UInt8} {c : Char} (h : c ∈ write fill bs) :
    (∃ v < 64, c = symbol v) ∨ ∃ n, c ∈ fill n := by
  induction bs using write.induct with
  | case1 => cases h
  | case2 a =>
    have ha := a.toNat_lt
    simp only [write, List.mem_cons] at h
    rcases h with h | h | h
    · exact .inl ⟨_, by omega, h⟩
    · exact .inl ⟨_, by omega, h⟩
    · exact .inr ⟨2, h⟩
  | case3 a b =>
    have ha := a.toNat_lt
    have hb := b.toNat_lt
    simp only [write, List.mem_cons] at h
    rcases h with h | h | h | h
    · exact .inl ⟨_, by omega, h⟩
    · exact .inl ⟨_, by omega, h⟩
    · exact .inl ⟨_, by omega, h⟩
    · exact .inr ⟨1, h⟩
  | case4 a b c r ih =>
    have ha := a.toNat_lt
    have hb := b.toNat_lt
    have hc := c.toNat_lt
    simp only [write, List.mem_cons] at h
    rcases h with h | h | h | h | h
    · exact .inl ⟨_, by omega, h⟩
    · exact .inl ⟨_, by omega, h⟩
    · exact .inl ⟨_, by omega, h⟩
    · exact .inl ⟨_, by omega, h⟩
    · exact ih h

theorem encode_visible (bs : List UInt8) : ∀ c ∈ encode bs, Text.isBlank c = false := by
  intro c hc
  rcases mem_write hc with ⟨v, hv, rfl⟩ | ⟨n, hfill⟩
  · exact symbol_visible hv
  · rw [List.eq_of_mem_replicate hfill]
    rfl

end Base64

namespace Media

theorem normalizeBase64_encode (bs : List UInt8) :
    normalizeBase64 (String.ofList (Base64.encode bs)) = some (String.ofList (Base64.encode bs)) := by
  rw [normalizeBase64, String.toList_ofList, Text.trimChars_of_visible (Base64.encode_visible bs),
    Base64.decode?_encode, Option.map_some]

/-- The padded form of base64 text is its own. -/
theorem normalizeBase64_normalized {data text : String} (h : normalizeBase64 data = some text) :
    normalizeBase64 text = some text := by
  obtain ⟨bs, -, rfl⟩ := Option.map_eq_some_iff.mp h
  exact normalizeBase64_encode bs

end Media
end ChatDialect
