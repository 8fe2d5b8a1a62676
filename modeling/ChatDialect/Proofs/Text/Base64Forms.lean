import Mathlib
import ChatDialect.Proofs.Text.Base64
import ChatDialect.Proofs.Text.Utf8

/-! Which texts are base64, and of which bytes. The symbols stand for the bits of the bytes, six to
a symbol; behind them the text may be filled up or not, and nothing else is read as base64. -/
namespace ChatDialect

namespace Base64

/-- The symbols in the order of their values. -/
def alphabet : List Char :=
  "ABCDEFGHIJKLMNOPQRSTUVWXYZabcdefghijklmnopqrstuvwxyz0123456789+/".toList

/-- The lowest bits of a number, the highest of them first. -/
def bits : Nat → Nat → List Bool
  | 0, _ => []
  | width + 1, n => n.testBit width :: bits width n

/-- The symbols stand for the bits of the bytes, with zeros behind them up to a whole symbol. -/
def Spells (cs : List Char) (bs : List UInt8) : Prop :=
  ∃ values : List Nat, ∃ spare < 6, values.map (alphabet[·]?) = cs.map some ∧
    values.flatMap (bits 6) = bs.flatMap (fun b => bits 8 b.toNat) ++ List.replicate spare false

/-- The text filled up to whole groups of four. -/
def closed (cs : List Char) : List Char := cs ++ List.replicate ((4 - cs.length % 4) % 4) '='

theorem length_bits (width n : Nat) : (bits width n).length = width := by
  induction width with
  | zero => rfl
  | succ width ih => rw [bits, List.length_cons, ih]

theorem length_flatMap_bits {α : Type} (width : Nat) (f : α → Nat) (xs : List α) :
    (xs.flatMap fun x => bits width (f x)).length = width * xs.length := by
  simp [List.length_flatMap, length_bits, Nat.mul_comm]

theorem bits_eq_iff {width m n : Nat} :
    bits width m = bits width n ↔ ∀ i < width, m.testBit i = n.testBit i := by
  induction width with
  | zero => simp [bits]
  | succ width ih => rw [bits, bits, List.cons.injEq, ih, Nat.forall_lt_succ_right, and_comm]

theorem bits_zero (width : Nat) : bits width 0 = List.replicate width false := by
  induction width with
  | zero => rfl
  | succ width ih => rw [bits, ih, Nat.zero_testBit, List.replicate_succ]

theorem bits_add (m k n : Nat) : bits (m + k) n = bits m (n >>> k) ++ bits k n := by
  induction m with
  | zero => rw [Nat.zero_add, bits, List.nil_append]
  | succ m ih =>
    rw [Nat.add_right_comm, bits, ih, bits, Nat.testBit_shiftRight, Nat.add_comm k m,
      List.cons_append]

/-- The bits of a number that is put together of two. -/
theorem bits_join (m k x : Nat) {y : Nat} (h : y < 2 ^ k) :
    bits (m + k) (x * 2 ^ k + y) = bits m x ++ bits k y := by
  have hhigh : (x * 2 ^ k + y) >>> k = x := by
    rw [Nat.shiftRight_eq_div_pow, Nat.mul_comm, Nat.mul_add_div (Nat.two_pow_pos k),
      Nat.div_eq_of_lt h, Nat.add_zero]
  have hlow : bits k (x * 2 ^ k + y) = bits k y := by
    rw [bits_eq_iff]
    intro i hi
    rw [Nat.mul_comm, Nat.testBit_two_pow_mul_add x h, if_pos hi]
  rw [bits_add, hhigh, hlow]

theorem bits_injective {width m n : Nat} (hm : m < 2 ^ width) (hn : n < 2 ^ width)
    (h : bits width m = bits width n) : m = n := by
  refine Nat.eq_of_testBit_eq ?_
  intro i
  by_cases hi : i < width
  · exact bits_eq_iff.mp h i hi
  · have hwidth : 2 ^ width ≤ 2 ^ i := Nat.pow_le_pow_right (by decide) (by omega)
    rw [Nat.testBit_lt_two_pow (by omega), Nat.testBit_lt_two_pow (by omega)]

theorem flatMap_bits_injective {width : Nat} (hwidth : 0 < width) {vs ws : List Nat}
    (hvs : ∀ v ∈ vs, v < 2 ^ width) (hws : ∀ w ∈ ws, w < 2 ^ width)
    (h : vs.flatMap (bits width) = ws.flatMap (bits width)) : vs = ws := by
  have hlength : vs.length = ws.length := by
    have hbits := congrArg List.length h
    have hcount := fun xs : List Nat => length_flatMap_bits width id xs
    simp only [id_eq] at hcount
    rw [hcount, hcount] at hbits
    exact Nat.eq_of_mul_eq_mul_left hwidth hbits
  induction vs generalizing ws with
  | nil => exact (List.length_eq_zero_iff.mp hlength.symm).symm
  | cons v vs ih =>
    cases ws with
    | nil => cases hlength
    | cons w ws =>
      obtain ⟨hv, hvs⟩ := List.forall_mem_cons.mp hvs
      obtain ⟨hw, hws⟩ := List.forall_mem_cons.mp hws
      rw [List.flatMap_cons, List.flatMap_cons] at h
      obtain ⟨hfirst, hrest⟩ := List.append_inj h (by rw [length_bits, length_bits])
      rw [bits_injective hv hw hfirst, ih hvs hws hrest (Nat.succ.inj hlength)]

section Spelling
variable {cs cs' : List Char} {bs : List UInt8}

theorem alphabet_of_lt {v : Nat} (h : v < 64) : alphabet[v]? = some (symbol v) := by
  have hall : ∀ v < 64, alphabet[v]? = some (symbol v) := by decide
  exact hall v h

theorem lt_of_spelled {values : List Nat} (h : values.map (alphabet[·]?) = cs.map some) :
    ∀ v ∈ values, v < 64 := by
  intro v hv
  have hmem : alphabet[v]? ∈ cs.map some := h ▸ List.mem_map_of_mem hv
  obtain ⟨c, -, hc⟩ := List.mem_map.mp hmem
  exact (List.getElem?_eq_some_iff.mp hc.symm).1

theorem spelled_symbols {values : List Nat} (h : ∀ v ∈ values, v < 64) :
    values.map (alphabet[·]?) = (values.map symbol).map some := by
  rw [List.map_map, List.map_inj_left]
  intro v hv
  exact alphabet_of_lt (h v hv)

/-- There is one way to spell bytes. -/
theorem Spells.unique (h : Spells cs bs) (h' : Spells cs' bs) : cs = cs' := by
  obtain ⟨values, spare, hspare, hcs, hbits⟩ := h
  obtain ⟨values', spare', hspare', hcs', hbits'⟩ := h'
  have hcount := fun xs : List Nat => length_flatMap_bits 6 id xs
  have hlength := congrArg List.length hbits
  have hlength' := congrArg List.length hbits'
  simp only [id_eq] at hcount
  rw [hcount, List.length_append, length_flatMap_bits, List.length_replicate] at hlength hlength'
  obtain rfl : spare = spare' := by omega
  have hvalues : values = values' :=
    flatMap_bits_injective (by decide) (lt_of_spelled hcs) (lt_of_spelled hcs')
      (hbits.trans hbits'.symm)
  rw [hvalues, hcs'] at hcs
  exact (List.map_injective_iff.mpr (Option.some_injective _) hcs).symm

end Spelling

section Groups
variable (a b c : UInt8)

/-- The bits of a byte and what a first symbol takes of them. -/
theorem bits_first : bits 8 a.toNat = bits 6 (a.toNat / 4) ++ bits 2 (a.toNat % 4) := by
  have hparts : a.toNat / 4 * 2 ^ 2 + a.toNat % 4 = a.toNat := by omega
  rw [← bits_join 6 2 (a.toNat / 4) (by omega), hparts]

theorem bits_second : bits 8 b.toNat = bits 4 (b.toNat / 16) ++ bits 4 (b.toNat % 16) := by
  have hparts : b.toNat / 16 * 2 ^ 4 + b.toNat % 16 = b.toNat := by omega
  rw [← bits_join 4 4 (b.toNat / 16) (by omega), hparts]

theorem bits_third : bits 8 c.toNat = bits 2 (c.toNat / 64) ++ bits 6 (c.toNat % 64) := by
  have hparts : c.toNat / 64 * 2 ^ 6 + c.toNat % 64 = c.toNat := by omega
  rw [← bits_join 2 6 (c.toNat / 64) (by omega), hparts]

/-- A symbol that takes two bits of one byte and four of the next. -/
theorem bits_two_four {y : Nat} (x : Nat) (h : y < 16) :
    bits 6 (x * 16 + y) = bits 2 x ++ bits 4 y := bits_join 2 4 x h

/-- A symbol that takes four bits of one byte and two of the next. -/
theorem bits_four_two {y : Nat} (x : Nat) (h : y < 4) :
    bits 6 (x * 4 + y) = bits 4 x ++ bits 2 y := bits_join 4 2 x h

theorem spells_one : Spells (write unpadded [a]) [a] := by
  have ha := a.toNat_lt
  have hspare := bits_two_four (a.toNat % 4) (show 0 < 16 by decide)
  rw [Nat.add_zero, bits_zero] at hspare
  refine ⟨[a.toNat / 4, a.toNat % 4 * 16], 4, by decide, spelled_symbols ?_, ?_⟩
  · simp only [List.forall_mem_cons]
    exact ⟨by omega, by omega, List.forall_mem_nil _⟩
  · simp only [List.flatMap_cons, List.flatMap_nil, List.append_nil, hspare, bits_first a,
      List.append_assoc]

theorem spells_two : Spells (write unpadded [a, b]) [a, b] := by
  have ha := a.toNat_lt
  have hb := b.toNat_lt
  have hspare := bits_four_two (b.toNat % 16) (show 0 < 4 by decide)
  rw [Nat.add_zero, bits_zero] at hspare
  refine ⟨[a.toNat / 4, a.toNat % 4 * 16 + b.toNat / 16, b.toNat % 16 * 4], 2, by decide,
    spelled_symbols ?_, ?_⟩
  · simp only [List.forall_mem_cons]
    exact ⟨by omega, by omega, by omega, List.forall_mem_nil _⟩
  · simp only [List.flatMap_cons, List.flatMap_nil, List.append_nil, hspare, bits_first a,
      bits_second b, bits_two_four _ (show b.toNat / 16 < 16 by omega), List.append_assoc]

/-- Three bytes are four whole symbols. -/
theorem bits_group :
    [a.toNat / 4, a.toNat % 4 * 16 + b.toNat / 16, b.toNat % 16 * 4 + c.toNat / 64,
      c.toNat % 64].flatMap (bits 6) = [a, b, c].flatMap fun b => bits 8 b.toNat := by
  have hb := b.toNat_lt
  have hc := c.toNat_lt
  simp only [List.flatMap_cons, List.flatMap_nil, List.append_nil, bits_first a, bits_second b,
    bits_third c, bits_two_four _ (show b.toNat / 16 < 16 by omega),
    bits_four_two _ (show c.toNat / 64 < 4 by omega), List.append_assoc]

end Groups

theorem spells_write (bs : List UInt8) : Spells (write unpadded bs) bs := by
  induction bs using write.induct with
  | case1 => exact ⟨[], 0, by decide, rfl, rfl⟩
  | case2 a => exact spells_one a
  | case3 a b => exact spells_two a b
  | case4 a b c r ih =>
    obtain ⟨values, spare, hspare, hcs, hbits⟩ := ih
    have ha := a.toNat_lt
    have hb := b.toNat_lt
    have hc := c.toNat_lt
    refine ⟨[a.toNat / 4, a.toNat % 4 * 16 + b.toNat / 16, b.toNat % 16 * 4 + c.toNat / 64,
      c.toNat % 64] ++ values, spare, hspare, ?_, ?_⟩
    · rw [List.map_append, hcs, spelled_symbols]
      · rfl
      · simp only [List.forall_mem_cons]
        exact ⟨by omega, by omega, by omega, by omega, List.forall_mem_nil _⟩
    · rw [List.flatMap_append, bits_group, hbits, ← List.append_assoc, ← List.flatMap_append]
      rfl

theorem spells_iff {cs : List Char} {bs : List UInt8} :
    Spells cs bs ↔ cs = write unpadded bs :=
  ⟨fun h => h.unique (spells_write bs), fun h => h ▸ spells_write bs⟩

/-- Bytes are written filled up. -/
theorem encode_eq (bs : List UInt8) : encode bs = closed (write unpadded bs) := by
  unfold encode closed
  induction bs using write.induct with
  | case1 => rfl
  | case2 a => rfl
  | case3 a b => rfl
  | case4 a b c r ih =>
    have hlength : (write unpadded (a :: b :: c :: r)).length % 4 =
        (write unpadded r).length % 4 := Nat.add_mod_right _ 4
    rw [hlength, write, ih, write]
    rfl

theorem fill_not_mem (bs : List UInt8) : '=' ∉ write unpadded bs := by
  intro h
  rcases mem_write h with ⟨v, hv, hfill⟩ | ⟨n, hfill⟩
  · exact symbol_ne_fill hv hfill.symm
  · cases hfill

theorem sextet?_eq_some {c : Char} {v : Nat} (h : sextet? c = some v) : v < 64 ∧ symbol v = c := by
  have hchar : Char.ofNat c.toNat = c := Char.ofNat_toNat c
  unfold sextet? at h
  unfold symbol
  generalize c.toNat = n at h hchar
  dsimp only at h
  split_ifs at h with h₁ h₂ h₃ h₄ h₅
  · obtain rfl : n - 65 = v := Option.some.inj h
    rw [if_pos (by omega), Nat.sub_add_cancel h₁.1]
    exact ⟨by omega, hchar⟩
  · obtain rfl : n - 71 = v := Option.some.inj h
    rw [if_neg (by omega), if_pos (by omega), Nat.sub_add_cancel (by omega)]
    exact ⟨by omega, hchar⟩
  · obtain rfl : n + 4 = v := Option.some.inj h
    rw [if_neg (by omega), if_neg (by omega), if_pos (by omega), Nat.add_sub_cancel]
    exact ⟨by omega, hchar⟩
  · subst h₄
    obtain rfl : 62 = v := Option.some.inj h
    exact ⟨by decide, hchar⟩
  · subst h₅
    obtain rfl : 63 = v := Option.some.inj h
    exact ⟨by decide, hchar⟩

section Reading
variable {a b c d : Char} {bs : List UInt8}

theorem tailOne_eq_some (h : tailOne a b = some bs) :
    ∃ p : UInt8, bs = [p] ∧ a = symbol (p.toNat / 4) ∧ b = symbol (p.toNat % 4 * 16) := by
  obtain ⟨x, hx, hrest⟩ := Option.bind_eq_some_iff.mp h
  obtain ⟨y, hy, hbytes⟩ := Option.bind_eq_some_iff.mp hrest
  obtain ⟨hx, ha⟩ := sextet?_eq_some hx
  obtain ⟨hy, hb⟩ := sextet?_eq_some hy
  split_ifs at hbytes with hspare
  have hp : (x * 4 + y / 16).toUInt8.toNat = x * 4 + y / 16 := Utf8.toNat_toUInt8 (by omega)
  have hfirst : (x * 4 + y / 16) / 4 = x := by omega
  have hsecond : (x * 4 + y / 16) % 4 * 16 = y := by omega
  refine ⟨_, (Option.some.inj hbytes).symm, ?_, ?_⟩
  · rw [hp, hfirst, ha]
  · rw [hp, hsecond, hb]

theorem tailTwo_eq_some (h : tailTwo a b c = some bs) :
    ∃ p q : UInt8, bs = [p, q] ∧ a = symbol (p.toNat / 4) ∧
      b = symbol (p.toNat % 4 * 16 + q.toNat / 16) ∧ c = symbol (q.toNat % 16 * 4) := by
  obtain ⟨x, hx, hrest⟩ := Option.bind_eq_some_iff.mp h
  obtain ⟨y, hy, hrest⟩ := Option.bind_eq_some_iff.mp hrest
  obtain ⟨z, hz, hbytes⟩ := Option.bind_eq_some_iff.mp hrest
  obtain ⟨hx, ha⟩ := sextet?_eq_some hx
  obtain ⟨hy, hb⟩ := sextet?_eq_some hy
  obtain ⟨hz, hc⟩ := sextet?_eq_some hz
  split_ifs at hbytes with hspare
  have hp : (x * 4 + y / 16).toUInt8.toNat = x * 4 + y / 16 := Utf8.toNat_toUInt8 (by omega)
  have hq : (y % 16 * 16 + z / 4).toUInt8.toNat = y % 16 * 16 + z / 4 :=
    Utf8.toNat_toUInt8 (by omega)
  have hfirst : (x * 4 + y / 16) / 4 = x := by omega
  have hsecond : (x * 4 + y / 16) % 4 * 16 + (y % 16 * 16 + z / 4) / 16 = y := by omega
  have hthird : (y % 16 * 16 + z / 4) % 16 * 4 = z := by omega
  refine ⟨_, _, (Option.some.inj hbytes).symm, ?_, ?_, ?_⟩
  · rw [hp, hfirst, ha]
  · rw [hp, hq, hsecond, hb]
  · rw [hq, hthird, hc]

theorem fullGroup_eq_some (h : fullGroup a b c d = some bs) :
    ∃ p q r : UInt8, bs = [p, q, r] ∧ a = symbol (p.toNat / 4) ∧
      b = symbol (p.toNat % 4 * 16 + q.toNat / 16) ∧
      c = symbol (q.toNat % 16 * 4 + r.toNat / 64) ∧ d = symbol (r.toNat % 64) := by
  obtain ⟨x, hx, hrest⟩ := Option.bind_eq_some_iff.mp h
  obtain ⟨y, hy, hrest⟩ := Option.bind_eq_some_iff.mp hrest
  obtain ⟨z, hz, hrest⟩ := Option.bind_eq_some_iff.mp hrest
  obtain ⟨w, hw, hbytes⟩ := Option.bind_eq_some_iff.mp hrest
  obtain ⟨hx, ha⟩ := sextet?_eq_some hx
  obtain ⟨hy, hb⟩ := sextet?_eq_some hy
  obtain ⟨hz, hc⟩ := sextet?_eq_some hz
  obtain ⟨hw, hd⟩ := sextet?_eq_some hw
  have hp : (x * 4 + y / 16).toUInt8.toNat = x * 4 + y / 16 := Utf8.toNat_toUInt8 (by omega)
  have hq : (y % 16 * 16 + z / 4).toUInt8.toNat = y % 16 * 16 + z / 4 :=
    Utf8.toNat_toUInt8 (by omega)
  have hr : (z % 4 * 64 + w).toUInt8.toNat = z % 4 * 64 + w := Utf8.toNat_toUInt8 (by omega)
  have hfirst : (x * 4 + y / 16) / 4 = x := by omega
  have hsecond : (x * 4 + y / 16) % 4 * 16 + (y % 16 * 16 + z / 4) / 16 = y := by omega
  have hthird : (y % 16 * 16 + z / 4) % 16 * 4 + (z % 4 * 64 + w) / 64 = z := by omega
  have hfourth : (z % 4 * 64 + w) % 64 = w := by omega
  refine ⟨_, _, _, (Option.some.inj hbytes).symm, ?_, ?_, ?_, ?_⟩
  · rw [hp, hfirst, ha]
  · rw [hp, hq, hsecond, hb]
  · rw [hq, hr, hthird, hc]
  · rw [hr, hfourth, hd]

/-- A full group in front of what else is read. -/
theorem group_eq_some {rest : Option (List UInt8)}
    (h : ((fullGroup a b c d).bind fun g => rest.bind fun bytes => some (g ++ bytes)) = some bs) :
    ∃ bytes, rest = some bytes ∧
      ∀ fill, a :: b :: c :: d :: write fill bytes = write fill bs := by
  obtain ⟨g, hg, hrest⟩ := Option.bind_eq_some_iff.mp h
  obtain ⟨bytes, hbytes, hbs⟩ := Option.bind_eq_some_iff.mp hrest
  obtain ⟨p, q, r, rfl, ha, hb, hc, hd⟩ := fullGroup_eq_some hg
  refine ⟨bytes, hbytes, fun fill => ?_⟩
  rw [← Option.some.inj hbs, ha, hb, hc, hd]
  rfl

end Reading

/-- Text with fills is read only as it is written. -/
theorem readPadded_eq_some {cs : List Char} {bs : List UInt8} (h : readPadded cs = some bs) :
    cs = encode bs := by
  unfold encode
  induction cs using readPadded.induct generalizing bs with
  | case1 =>
    cases h
    rfl
  | case2 a b =>
    obtain ⟨p, rfl, rfl, rfl⟩ := tailOne_eq_some h
    rfl
  | case3 a b c hc =>
    rw [readPadded_two hc] at h
    obtain ⟨p, q, rfl, rfl, rfl, rfl⟩ := tailTwo_eq_some h
    rfl
  | case4 a b c d r htwo hone ih =>
    rw [readPadded] at h
    · obtain ⟨bytes, hbytes, hwritten⟩ := group_eq_some h
      rw [ih hbytes, hwritten]
    · exact htwo
    · exact hone
  | case5 cs hnil htwo hone hfour =>
    rw [readPadded] at h
    · cases h
    · exact hnil
    · exact htwo
    · exact hone
    · exact hfour

/-- Text without fills is read only as it is written. -/
theorem readUnpadded_eq_some {cs : List Char} {bs : List UInt8} (h : readUnpadded cs = some bs) :
    cs = write unpadded bs := by
  induction cs using readUnpadded.induct generalizing bs with
  | case1 =>
    cases h
    rfl
  | case2 a b =>
    obtain ⟨p, rfl, rfl, rfl⟩ := tailOne_eq_some h
    rfl
  | case3 a b c =>
    obtain ⟨p, q, rfl, rfl, rfl, rfl⟩ := tailTwo_eq_some h
    rfl
  | case4 a b c d r ih =>
    obtain ⟨bytes, hbytes, hwritten⟩ := group_eq_some h
    rw [ih hbytes, hwritten]
  | case5 cs hnil htwo hthree hfour =>
    rw [readUnpadded] at h
    · cases h
    · exact hnil
    · exact htwo
    · exact hthree
    · exact hfour

theorem readUnpadded_write (bs : List UInt8) : readUnpadded (write unpadded bs) = some bs := by
  induction bs using write.induct with
  | case1 => rfl
  | case2 a => exact tailOne_symbols a
  | case3 a b => exact tailTwo_symbols a b
  | case4 a b c r ih =>
    rw [write, readUnpadded, fullGroup_symbols, ih]
    rfl

theorem write_injective {bs bs' : List UInt8} (h : write unpadded bs = write unpadded bs') :
    bs = bs' := by
  have hread := readUnpadded_write bs
  rw [h, readUnpadded_write] at hread
  exact (Option.some.inj hread).symm

/-- A text is read as the bytes that it spells, filled up or not. -/
theorem decode?_eq_some {cs : List Char} {bs : List UInt8} :
    decode? cs = some bs ↔ ∃ text, Spells text bs ∧ (cs = text ∨ cs = closed text) := by
  constructor
  · intro h
    refine ⟨write unpadded bs, spells_write bs, ?_⟩
    rcases Option.or_eq_some_iff.mp h with hpadded | ⟨-, hunpadded⟩
    · exact .inr ((readPadded_eq_some hpadded).trans (encode_eq bs))
    · exact .inl (readUnpadded_eq_some hunpadded)
  · rintro ⟨text, hspells, rfl | rfl⟩
    · obtain rfl := spells_iff.mp hspells
      rw [decode?, readUnpadded_write]
      cases hpadded : readPadded (write unpadded bs) with
      | none => rfl
      | some bs' =>
        -- without a fill in it the text has two readings, which agree
        have hwritten := (readPadded_eq_some hpadded).trans (encode_eq bs')
        have hnone := fill_not_mem bs
        rw [hwritten, closed, List.mem_append, List.mem_replicate, not_or] at hnone
        have hfills : (4 - (write unpadded bs').length % 4) % 4 = 0 := by simpa using hnone.2
        rw [closed, hfills, List.replicate_zero, List.append_nil] at hwritten
        rw [write_injective hwritten]
        rfl
    · obtain rfl := spells_iff.mp hspells
      rw [← encode_eq, decode?_encode]

end Base64

namespace Media

open Base64 Text

/-- Both forms of base64 text become the one that is filled up, whatever blanks are around them. -/
theorem normalizeBase64_around {bs : List UInt8} {before form after : List Char}
    (hform : form = write unpadded bs ∨ form = closed (write unpadded bs))
    (hbefore : ∀ c ∈ before, isBlank c) (hafter : ∀ c ∈ after, isBlank c) :
    normalizeBase64 (String.ofList (before ++ (form ++ after))) =
      some (String.ofList (closed (write unpadded bs))) := by
  have hread : decode? form = some bs := decode?_eq_some.mpr ⟨_, spells_write bs, hform⟩
  have hvisible : ∀ c ∈ form, isBlank c = false := by
    intro c hc
    refine encode_visible bs c ?_
    rw [encode_eq]
    rcases hform with rfl | rfl
    · exact List.mem_append_left _ hc
    · exact hc
  rw [normalizeBase64, String.toList_ofList, trimChars_around hbefore hafter hvisible, hread,
    Option.map_some, encode_eq]

/-- Every sequence of bytes has one text in base64, which tells it from all others. Filled up or
not, and with blanks around it, this text becomes the one that is filled up; what becomes that text
was such a spelling of the same bytes, and the text stays as it is. -/
theorem normalizeBase64_canonical :
    (∀ bs : List UInt8, ∃ cs, (∀ cs', Spells cs' bs ↔ cs' = cs) ∧
      ∀ before after : List Char, before.all isBlank → after.all isBlank →
        ∀ form ∈ [cs, closed cs],
          normalizeBase64 (String.ofList (before ++ (form ++ after))) =
            some (String.ofList (closed cs))) ∧
    (∀ data text, normalizeBase64 data = some text → normalizeBase64 text = some text ∧
      ∃ bs cs, Spells cs bs ∧ text = String.ofList (closed cs) ∧
        trim data ∈ [String.ofList cs, String.ofList (closed cs)]) ∧
    ∀ cs bs bs', Spells cs bs → Spells cs bs' → bs = bs' := by
  refine ⟨?_, ?_, ?_⟩
  · intro bs
    refine ⟨write unpadded bs, fun _ => spells_iff, ?_⟩
    intro before after hbefore hafter form hform
    exact normalizeBase64_around (by simpa using hform) (List.all_eq_true.mp hbefore)
      (List.all_eq_true.mp hafter)
  · intro data text h
    obtain ⟨bs, hread, rfl⟩ := Option.map_eq_some_iff.mp h
    obtain ⟨cs, hspells, hforms⟩ := decode?_eq_some.mp hread
    refine ⟨normalizeBase64_normalized h, bs, cs, hspells, ?_, ?_⟩
    · rw [encode_eq, ← spells_iff.mp hspells]
    · rw [trim]
      rcases hforms with hform | hform <;> simp [hform]
  · intro cs bs bs' h h'
    exact write_injective ((spells_iff.mp h).symm.trans (spells_iff.mp h'))

/-- Two bytes with two bits of a third symbol to spare, not filled up and on a line of their own. -/
theorem looseText_normalized :
    (['\n', ' '].all isBlank ∧ ['\t'].all isBlank ∧ Spells "Zm8".toList [0x66, 0x6F]) ∧
    normalizeBase64 "\n Zm8\t" = some "Zm8=" ∧ normalizeBase64 "Zm8=" = some "Zm8=" ∧
    (∃ bs cs, Spells cs bs ∧ "Zm8=" = String.ofList (closed cs) ∧
      trim "\n Zm8\t" ∈ [String.ofList cs, String.ofList (closed cs)]) ∧
    ∀ bs, Spells "Zm8".toList bs → bs = [0x66, 0x6F] := by
  have hspells : Spells "Zm8".toList [0x66, 0x6F] :=
    ⟨[25, 38, 60], 2, by decide, by decide, by decide⟩
  obtain ⟨htexts, hback, hlossless⟩ := normalizeBase64_canonical
  obtain ⟨cs, hunique, hforms⟩ := htexts [0x66, 0x6F]
  obtain rfl := (hunique _).mp hspells
  have hloose : normalizeBase64 "\n Zm8\t" = some "Zm8=" :=
    hforms ['\n', ' '] ['\t'] (by decide) (by decide) "Zm8".toList List.mem_cons_self
  obtain ⟨hkept, hspelled⟩ := hback _ _ hloose
  exact ⟨⟨by decide, by decide, hspells⟩, hloose, hkept, hspelled,
    fun bs hbs => hlossless _ _ _ hbs hspells⟩

end Media
end ChatDialect
