import Mathlib.Data.List.TakeWhile
import ChatDialect.Text.Blank

/-! Blanks, and what trimming takes away: those around a text and nothing else. -/
namespace ChatDialect.Text

/-- The code points of blanks. -/
def blanks : List Nat :=
  [0x9, 0xA, 0xB, 0xC, 0xD, 0x20, 0x85, 0xA0, 0x1680, 0x2000, 0x2001, 0x2002, 0x2003, 0x2004,
    0x2005, 0x2006, 0x2007, 0x2008, 0x2009, 0x200A, 0x2028, 0x2029, 0x202F, 0x205F, 0x3000]

theorem mem_blanks {c : Char} (h : isBlank c) : c.toNat ∈ blanks := by
  simp only [isBlank, Bool.or_eq_true, Bool.and_eq_true, decide_eq_true_eq, beq_iff_eq] at h
  simp only [blanks, List.mem_cons, List.not_mem_nil, or_false]
  omega

theorem apart_of_blank {c : Char} (h : isBlank c) :
    (c == '?' || c == '#') = false ∧ (c == '/') = false ∧ (c == '.') = false ∧
      c.toLower = c := by
  have hblanks : ∀ n ∈ blanks, (Char.ofNat n == '?' || Char.ofNat n == '#') = false ∧
      (Char.ofNat n == '/') = false ∧ (Char.ofNat n == '.') = false ∧
      (Char.ofNat n).toLower = Char.ofNat n := by decide
  have hc := hblanks c.toNat (mem_blanks h)
  rwa [Char.ofNat_toNat] at hc

theorem toList_trim (s : String) : (trim s).toList = trimChars s.toList := String.toList_ofList

theorem blank_of_mem_takeWhile {cs : List Char} : ∀ c ∈ cs.takeWhile isBlank, isBlank c :=
  fun _ hc => List.mem_takeWhile_imp hc

theorem trimStart_parts (cs : List Char) : cs = cs.takeWhile isBlank ++ trimStart cs :=
  List.takeWhile_append_dropWhile.symm

theorem trimEnd_parts (cs : List Char) :
    cs = trimEnd cs ++ (cs.reverse.takeWhile isBlank).reverse := by
  have h := congrArg List.reverse (trimStart_parts cs.reverse)
  rwa [List.reverse_reverse, List.reverse_append] at h

/-- What is left ends in no blank. -/
theorem getLast?_trimEnd (cs : List Char) : (trimEnd cs).getLast?.any isBlank = false := by
  have hhead := List.head?_dropWhile_not isBlank cs.reverse
  rw [trimEnd, List.getLast?_reverse]
  cases hfirst : (cs.reverse.dropWhile isBlank).head? with
  | none => rfl
  | some c =>
    rw [hfirst] at hhead
    simpa using hhead

/-- Trimming takes away blanks at both ends. -/
theorem exists_padding (cs : List Char) :
    ∃ before after, cs = before ++ (trimChars cs ++ after) ∧ (∀ c ∈ before, isBlank c) ∧
      ∀ c ∈ after, isBlank c := by
  let after := ((trimStart cs).reverse.takeWhile isBlank).reverse
  have hparts : cs = cs.takeWhile isBlank ++ (trimChars cs ++ after) := by
    rw [trimChars, ← trimEnd_parts]
    exact trimStart_parts cs
  have hafter : ∀ c ∈ after, isBlank c := fun c hc =>
    blank_of_mem_takeWhile c (List.mem_reverse.mp hc)
  exact ⟨cs.takeWhile isBlank, after, hparts, blank_of_mem_takeWhile, hafter⟩

/-- There are blanks at the end if the text ends in one. -/
theorem exists_trimmed {cs : List Char} (h : trimChars cs ≠ []) :
    ∃ before after, cs = before ++ (trimChars cs ++ after) ∧ (∀ c ∈ before, isBlank c) ∧
      (∀ c ∈ after, isBlank c) ∧ (cs.getLast?.any isBlank ↔ after ≠ []) := by
  obtain ⟨before, after, hparts, hbefore, hafter⟩ := exists_padding cs
  refine ⟨before, after, hparts, hbefore, hafter, ?_⟩
  have hlast : cs.getLast? = after.getLast?.or (trimChars cs).getLast? := by
    have hends := congrArg List.getLast? hparts
    rw [List.getLast?_append, List.getLast?_append] at hends
    rw [hends, List.getLast?_eq_some_getLast h]
    cases after.getLast? <;> rfl
  constructor
  · intro hblank hnone
    rw [hlast, hnone] at hblank
    have hkept := getLast?_trimEnd (trimStart cs)
    change (trimChars cs).getLast?.any isBlank = true at hblank
    rw [← trimChars, hblank] at hkept
    cases hkept
  · intro hsome
    rw [hlast, List.getLast?_eq_some_getLast hsome]
    exact hafter _ (List.getLast_mem hsome)

theorem isBlank_of_trim {s : String} (h : trim s = "") : ∀ c ∈ s.toList, isBlank c := by
  obtain ⟨before, after, hparts, hbefore, hafter⟩ := exists_padding s.toList
  have hnone : trimChars s.toList = [] := String.ofList_eq_empty_iff.mp h
  rw [hnone, List.nil_append] at hparts
  rw [hparts]
  exact List.forall_mem_append.mpr ⟨hbefore, hafter⟩

theorem trimEnd_padded {after : List Char} (hafter : ∀ c ∈ after, isBlank c) (cs : List Char) :
    trimEnd (cs ++ after) = trimEnd cs := by
  have hreversed : ∀ c ∈ after.reverse, isBlank c := fun c hc => hafter c (List.mem_reverse.mp hc)
  unfold trimEnd
  rw [List.reverse_append, List.dropWhile_append_of_pos hreversed]

/-- Blanks around a text make no difference to what is left of it. -/
theorem trimChars_padded {before after : List Char} (hbefore : ∀ c ∈ before, isBlank c)
    (hafter : ∀ c ∈ after, isBlank c) (cs : List Char) :
    trimChars (before ++ (cs ++ after)) = trimChars cs := by
  unfold trimChars trimStart
  rw [List.dropWhile_append_of_pos hbefore, List.dropWhile_append]
  split_ifs with hnone
  · rw [List.dropWhile_eq_nil_iff.mpr hafter, List.isEmpty_iff.mp hnone]
  · exact trimEnd_padded hafter _

/-- What is left has no blanks around it. -/
theorem trimChars_trimChars (cs : List Char) : trimChars (trimChars cs) = trimChars cs := by
  obtain ⟨before, after, hparts, hbefore, hafter⟩ := exists_padding cs
  have hpadded := trimChars_padded hbefore hafter (trimChars cs)
  rw [← hparts] at hpadded
  exact hpadded.symm

/-- A text that neither begins nor ends with a blank is what is left of it. -/
theorem trimChars_of_ends {cs : List Char} (hhead : cs.head?.any fun c => !isBlank c)
    (hlast : cs.getLast?.any fun c => !isBlank c) : trimChars cs = cs := by
  have hkept {ds : List Char} (hfirst : ds.head?.any fun c => !isBlank c) :
      ds.dropWhile isBlank = ds := by
    cases ds with
    | nil => rfl
    | cons d ds =>
      have hd : isBlank d = false := by simpa using hfirst
      rw [List.dropWhile_cons, hd]
      rfl
  rw [trimChars, trimStart, hkept hhead, trimEnd, hkept (by rwa [List.head?_reverse]),
    List.reverse_reverse]

/-- Trimming takes away the blanks around a text that has none at its ends. -/
theorem trimChars_between (before after : List Char) {cs : List Char}
    (hbefore : ∀ c ∈ before, isBlank c) (hafter : ∀ c ∈ after, isBlank c)
    (hhead : cs.head?.any fun c => !isBlank c) (hlast : cs.getLast?.any fun c => !isBlank c) :
    trimChars (before ++ (cs ++ after)) = cs := by
  rw [trimChars_padded hbefore hafter, trimChars_of_ends hhead hlast]

theorem trimChars_of_visible {cs : List Char} (h : ∀ c ∈ cs, isBlank c = false) :
    trimChars cs = cs := by
  cases cs with
  | nil => rfl
  | cons c cs =>
    have hlast : (c :: cs).getLast? = some ((c :: cs).getLast (List.cons_ne_nil c cs)) :=
      List.getLast?_eq_some_getLast _
    apply trimChars_of_ends
    · rw [List.head?_cons, Option.any_some, h c List.mem_cons_self, Bool.not_false]
    · rw [hlast, Option.any_some, h _ (List.getLast_mem _), Bool.not_false]

/-- A text without blanks is what is left of it between blanks. -/
theorem trimChars_around {before after cs : List Char} (hbefore : ∀ c ∈ before, isBlank c)
    (hafter : ∀ c ∈ after, isBlank c) (hcs : ∀ c ∈ cs, isBlank c = false) :
    trimChars (before ++ (cs ++ after)) = cs := by
  rw [trimChars_padded hbefore hafter, trimChars_of_visible hcs]

theorem trim_of_blank {s : String} (h : ∀ c ∈ s.toList, isBlank c) : trim s = "" := by
  have hstart : trimStart s.toList = [] := List.dropWhile_eq_nil_iff.mpr h
  rw [trim, trimChars, hstart]
  rfl

end ChatDialect.Text
