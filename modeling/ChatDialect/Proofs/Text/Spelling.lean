import Mathlib
import ChatDialect.Proofs.Text.Blank

/-! Spellings of a text: the same letters in either case, with blanks around them or without. -/
namespace ChatDialect.Text

/-- The text is `core` with blanks around it. -/
def Padded (core : List Char) (s : String) : Prop :=
  ∃ before after, s.toList = before ++ (core ++ after) ∧ before.all isBlank ∧ after.all isBlank

/-- The same letters, each in either case, with other blanks around them. -/
def Respelled (s t : String) : Prop :=
  ∃ core core', Padded core s ∧ Padded core' t ∧ core.map Char.toLower = core'.map Char.toLower

theorem Padded.trimChars {core : List Char} {s : String} (h : Padded core s) :
    trimChars s.toList = trimChars core := by
  obtain ⟨before, after, hs, hbefore, hafter⟩ := h
  rw [hs, trimChars_padded (List.all_eq_true.mp hbefore) (List.all_eq_true.mp hafter)]

theorem padded_trimChars (s : String) : Padded (trimChars s.toList) s := by
  obtain ⟨before, after, hs, hbefore, hafter⟩ := exists_padding s.toList
  exact ⟨before, after, hs, List.all_eq_true.mpr hbefore, List.all_eq_true.mpr hafter⟩

/-- No letter is a blank, so the case of letters is not in the way of trimming. -/
theorem isBlank_toUpper (c : Char) : isBlank c.toUpper = isBlank c := by
  by_cases hlower : c.isLower
  · have hrange : 97 ≤ c.toNat ∧ c.toNat ≤ 122 := by
      simpa [Char.isLower, UInt32.le_iff_toNat_le] using hlower
    have hletters : ∀ n < 123, 97 ≤ n →
        isBlank (Char.ofNat (n - 32)) = false ∧ isBlank (Char.ofNat n) = false := by decide
    obtain ⟨hupper, hsame⟩ := hletters c.toNat (Nat.lt_succ_of_le hrange.2) hrange.1
    rw [Char.ofNat_toNat] at hsame
    rw [Char.toUpper_eq_of_isLower hlower, hupper, hsame]
  · rw [Char.toUpper_eq_of_not_isLower hlower]

theorem trimChars_map_toUpper (cs : List Char) :
    trimChars (cs.map Char.toUpper) = (trimChars cs).map Char.toUpper := by
  have hblank : isBlank ∘ Char.toUpper = isBlank := funext isBlank_toUpper
  have hdrop (ds : List Char) :
      (ds.map Char.toUpper).dropWhile isBlank = (ds.dropWhile isBlank).map Char.toUpper := by
    rw [List.dropWhile_map, hblank]
  rw [trimChars, trimStart, hdrop, trimEnd, ← List.map_reverse, hdrop, ← List.map_reverse]
  rfl

theorem map_toUpper_eq_iff {cs ds : List Char} :
    cs.map Char.toUpper = ds.map Char.toUpper ↔ cs.map Char.toLower = ds.map Char.toLower := by
  constructor
  · intro h
    have hlower := congrArg (List.map Char.toLower) h
    simpa [Function.comp_def] using hlower
  · intro h
    have hupper := congrArg (List.map Char.toUpper) h
    simpa [Function.comp_def] using hupper

end ChatDialect.Text
