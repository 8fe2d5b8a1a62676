import Mathlib.Tactic.SplitIfs
import Mathlib.Tactic.ByContra
import ChatDialect.Text.Ascii

/-! Cutting a text that is put together of several. -/
namespace ChatDialect.Text

section Split
variable {p : Char → Bool} {as bs : List Char}

theorem splitFirst_eq_none (h : ∀ c ∈ as, p c = false) : splitFirst p as = none := by
  induction as with
  | nil => rfl
  | cons a as ih =>
    obtain ⟨ha, has⟩ := List.forall_mem_cons.mp h
    rw [splitFirst, ha, ih has]
    rfl

/-- The first cut is in the first part that has one. -/
theorem splitFirst_append (as bs : List Char) : splitFirst p (as ++ bs) =
    match splitFirst p as with
    | some (x, y) => some (x, y ++ bs)
    | none => (splitFirst p bs).map fun e => (as ++ e.1, e.2) := by
  induction as with
  | nil =>
    cases hbs : splitFirst p bs with
    | none => simp [splitFirst, hbs]
    | some e => simp [splitFirst, hbs]
  | cons a as ih =>
    rw [List.cons_append, splitFirst, splitFirst, ih]
    cases p a with
    | true => rfl
    | false =>
      cases has : splitFirst p as with
      | none => cases hbs : splitFirst p bs <;> rfl
      | some e => rfl

theorem splitLast_eq_none (h : ∀ c ∈ as, p c = false) : splitLast p as = none := by
  induction as with
  | nil => rfl
  | cons a as ih =>
    obtain ⟨ha, has⟩ := List.forall_mem_cons.mp h
    rw [splitLast, ih has, ha]
    rfl

/-- The last cut is in the last part that has one. -/
theorem splitLast_append (as bs : List Char) : splitLast p (as ++ bs) =
    match splitLast p bs with
    | some (x, y) => some (as ++ x, y)
    | none => (splitLast p as).map fun e => (e.1, e.2 ++ bs) := by
  induction as with
  | nil => cases hbs : splitLast p bs <;> simp [splitLast, hbs]
  | cons a as ih =>
    rw [List.cons_append, splitLast, ih]
    cases hbs : splitLast p bs with
    | some e => rfl
    | none =>
      rw [splitLast]
      cases has : splitLast p as with
      | some e => rfl
      | none => cases p a <;> rfl

theorem isSome_splitFirst (h : ∃ c ∈ as, p c) : (splitFirst p as).isSome := by
  obtain ⟨c, hc, hp⟩ := h
  obtain ⟨before, after, rfl⟩ := List.append_of_mem hc
  rw [splitFirst_append]
  cases splitFirst p before with
  | some e => rfl
  | none => simp [splitFirst, hp]

theorem isSome_splitLast (h : ∃ c ∈ as, p c) : (splitLast p as).isSome := by
  obtain ⟨c, hc, hp⟩ := h
  obtain ⟨before, after, rfl⟩ := List.append_of_mem hc
  rw [splitLast_append]
  cases hlast : splitLast p (c :: after) with
  | some e => rfl
  | none =>
    rw [splitLast] at hlast
    cases hafter : splitLast p after with
    | some e => simp [hafter] at hlast
    | none => simp [hafter, hp] at hlast

/-- The last cut is where nothing behind it could be one. -/
theorem splitLast_eq_some {cs : List Char} : splitLast p cs = some (as, bs) ↔
    ∃ c, cs = as ++ c :: bs ∧ p c ∧ ∀ c' ∈ bs, p c' = false := by
  constructor
  · intro h
    induction cs generalizing as with
    | nil => cases h
    | cons c cs ih =>
      rw [splitLast] at h
      cases hcs : splitLast p cs with
      | some e =>
        rw [hcs] at h
        cases h
        obtain ⟨c', rfl, hc', hbs⟩ := ih hcs
        exact ⟨c', rfl, hc', hbs⟩
      | none =>
        simp only [hcs] at h
        split_ifs at h with hc
        cases h
        refine ⟨c, rfl, hc, ?_⟩
        intro c' hc'
        by_contra hp
        have hsome := isSome_splitLast ⟨c', hc', eq_true_of_ne_false hp⟩
        rw [hcs] at hsome
        cases hsome
  · rintro ⟨c, rfl, hc, hbs⟩
    have hlast : splitLast p (c :: bs) = some ([], bs) := by
      rw [splitLast, splitLast_eq_none hbs]
      exact if_pos hc
    rw [splitLast_append, hlast]
    simp

theorem splitLast_mark {mark : Char} {cs : List Char} :
    splitLast (· == mark) cs = some (as, bs) ↔ cs = as ++ mark :: bs ∧ mark ∉ bs := by
  have hplain : (∀ c ∈ bs, (c == mark) = false) ↔ mark ∉ bs := by
    simp only [beq_eq_false_iff_ne]
    exact ⟨fun h hmem => h mark hmem rfl, fun h c hc heq => h (heq ▸ hc)⟩
  rw [splitLast_eq_some]
  constructor
  · rintro ⟨c, rfl, hc, hbs⟩
    rw [beq_iff_eq.mp hc]
    exact ⟨rfl, hplain.mp hbs⟩
  · rintro ⟨hcs, hbs⟩
    exact ⟨mark, hcs, beq_self_eq_true mark, hplain.mpr hbs⟩

theorem splitFirst_mark {mark : Char} {cs : List Char} :
    splitFirst (· == mark) cs = some (as, bs) ↔ cs = as ++ mark :: bs ∧ mark ∉ as := by
  constructor
  · intro h
    induction cs generalizing as with
    | nil => cases h
    | cons c cs ih =>
      rw [splitFirst] at h
      split_ifs at h with hc
      · cases h
        rw [beq_iff_eq.mp hc]
        exact ⟨rfl, List.not_mem_nil⟩
      · obtain ⟨⟨before, after⟩, hcs, hparts⟩ := Option.map_eq_some_iff.mp h
        cases hparts
        obtain ⟨rfl, hplain⟩ := ih hcs
        refine ⟨rfl, ?_⟩
        rw [List.mem_cons, not_or]
        exact ⟨fun hmark => hc (beq_iff_eq.mpr hmark.symm), hplain⟩
  · rintro ⟨rfl, hplain⟩
    have hnone : splitFirst (· == mark) as = none := by
      refine splitFirst_eq_none fun c hc => beq_eq_false_iff_ne.mpr ?_
      rintro rfl
      exact hplain hc
    have hfirst : splitFirst (· == mark) (mark :: bs) = some ([], bs) :=
      if_pos (beq_self_eq_true mark)
    rw [splitFirst_append, hnone, hfirst]
    simp

theorem splitAll_eq (p : Char → Bool) (cs : List Char) : splitAll p cs = cs.splitOnP p := by
  induction cs with
  | nil => rfl
  | cons c cs ih =>
    rw [splitAll, List.splitOnP_cons_eq_if_modifyHead, ih]
    split_ifs with hc
    · rfl
    · cases hparts : cs.splitOnP p with
      | nil => exact absurd hparts (List.splitOnP_ne_nil p cs)
      | cons part parts => rfl

theorem plain_of_mem_splitAll {cs : List Char} :
    ∀ part ∈ splitAll p cs, ∀ c ∈ part, p c = false := by
  induction cs with
  | nil => simp [splitAll]
  | cons c cs ih =>
    rw [splitAll]
    split_ifs with hc
    · exact List.forall_mem_cons.mpr ⟨List.forall_mem_nil _, ih⟩
    · have hplain : p c = false := eq_false_of_ne_true hc
      cases hparts : splitAll p cs with
      | nil => simpa using hplain
      | cons part parts =>
        rw [hparts] at ih
        obtain ⟨hpart, hrest⟩ := List.forall_mem_cons.mp ih
        exact List.forall_mem_cons.mpr ⟨List.forall_mem_cons.mpr ⟨hplain, hpart⟩, hrest⟩

/-- The parts between marks are the ones that the marks join. -/
theorem splitAll_mark {mark : Char} {cs : List Char} {parts : List (List Char)} :
    splitAll (· == mark) cs = parts ↔
      parts ≠ [] ∧ (∀ part ∈ parts, mark ∉ part) ∧ cs = [mark].intercalate parts := by
  constructor
  · rintro rfl
    refine ⟨splitAll_eq _ cs ▸ List.splitOnP_ne_nil _ cs, ?_, ?_⟩
    · intro part hpart hmark
      have hplain := plain_of_mem_splitAll part hpart mark hmark
      rw [beq_self_eq_true] at hplain
      cases hplain
    · rw [splitAll_eq]
      exact (List.intercalate_splitOn mark).symm
  · rintro ⟨hsome, hplain, rfl⟩
    rw [splitAll_eq]
    exact List.splitOn_intercalate mark hplain hsome

end Split

theorem afterIgnoringCase?_eq_some {head cs rest : List Char} :
    afterIgnoringCase? head cs = some rest ↔
      ∃ start, cs = start ++ rest ∧ start.map Char.toLower = head := by
  induction head generalizing cs with
  | nil =>
    rw [afterIgnoringCase?, Option.some_inj]
    constructor
    · rintro rfl
      exact ⟨[], rfl, rfl⟩
    · rintro ⟨start, rfl, hstart⟩
      rw [List.map_eq_nil_iff.mp hstart, List.nil_append]
  | cons h hs ih =>
    cases cs with
    | nil =>
      refine iff_of_false (Option.some_ne_none rest).symm ?_
      rintro ⟨start, hstart, hhead⟩
      rw [(List.append_eq_nil_iff.mp hstart.symm).1] at hhead
      cases hhead
    | cons c cs =>
      rw [afterIgnoringCase?]
      by_cases hc : c.toLower = h
      · rw [if_pos hc, ih]
        constructor
        · rintro ⟨start, rfl, hstart⟩
          exact ⟨c :: start, rfl, by rw [List.map_cons, hc, hstart]⟩
        · rintro ⟨start, hstart, hhead⟩
          cases start with
          | nil => cases hhead
          | cons c' start =>
            obtain ⟨-, rfl⟩ := List.cons.inj hstart
            exact ⟨start, rfl, (List.cons.inj hhead).2⟩
      · rw [if_neg hc]
        refine iff_of_false (Option.some_ne_none rest).symm ?_
        rintro ⟨start, hstart, hhead⟩
        cases start with
        | nil => cases hhead
        | cons c' start =>
          obtain ⟨rfl, -⟩ := List.cons.inj hstart
          exact hc (List.cons.inj hhead).1

theorem isSome_afterIgnoringCase? {head cs : List Char} :
    (afterIgnoringCase? head cs).isSome ↔ head <+: cs.map Char.toLower := by
  rw [Option.isSome_iff_exists]
  constructor
  · rintro ⟨rest, hrest⟩
    obtain ⟨start, rfl, rfl⟩ := afterIgnoringCase?_eq_some.mp hrest
    rw [List.map_append]
    exact List.prefix_append _ _
  · rintro ⟨rest, hrest⟩
    obtain ⟨start, tail, rfl, hstart, -⟩ := List.map_eq_append_iff.mp hrest.symm
    exact ⟨tail, afterIgnoringCase?_eq_some.mpr ⟨start, rfl, hstart⟩⟩

/-- A text that begins with another goes on behind as many characters as that has. -/
theorem after?_eq (head cs : List Char) :
    after? head cs = if head <+: cs then some (cs.drop head.length) else none := by
  induction head generalizing cs with
  | nil => rw [after?, if_pos List.nil_prefix, List.length_nil, List.drop_zero]
  | cons h hs ih =>
    cases cs with
    | nil => rw [after?, if_neg (mt List.prefix_nil.mp (List.cons_ne_nil h hs))]
    | cons c cs =>
      rw [after?, ih, List.length_cons, List.drop_succ_cons]
      by_cases hc : c = h
      · subst hc
        rw [if_pos rfl]
        exact if_congr (List.prefix_cons_inj c).symm rfl rfl
      · rw [if_neg hc, if_neg fun hprefix => hc (List.cons_prefix_cons.mp hprefix).1.symm]

theorem isSome_after? {head cs : List Char} : (after? head cs).isSome ↔ head <+: cs := by
  rw [after?_eq]
  split
  · next h => exact iff_of_true rfl h
  · next h => exact iff_of_false Bool.false_ne_true h

theorem hasInfix_iff {part cs : List Char} : hasInfix part cs ↔ part <:+: cs := by
  induction cs with
  | nil => rw [hasInfix, List.isEmpty_iff, List.infix_nil]
  | cons c cs ih => rw [hasInfix, Bool.or_eq_true, isSome_after?, ih, List.infix_cons_iff]

end ChatDialect.Text
