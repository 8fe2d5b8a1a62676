import ChatDialect.Proofs.Sse.Lines

/-! The payloads that lines carry, and the chunks that a translator passes on for them before it is
done. Taking lines is taking their payloads. -/
namespace ChatDialect.Sse

open Chat

variable {σ : Type}

/-- Takes payloads in order: the chunks passed on, and the state after, none once the stream is
done. -/
def takePayloads (translate : Translator σ) : σ → List String → List Chunk × Option σ
  | s, [] => ([], some s)
  | s, text :: texts =>
    match translate s text with
    | (_, .done) => ([], none)
    | (s, .chunks chunks) =>
      let (rest, s) := takePayloads translate s texts
      (chunks ++ rest, s)

theorem takeLines_eq (translate : Translator σ) (s : σ) (lines : List (List UInt8)) :
    takeLines translate s lines =
      ((takePayloads translate s (lines.filterMap payload?)).1.filterMap frame?,
        (takePayloads translate s (lines.filterMap payload?)).2) := by
  induction lines generalizing s with
  | nil => rfl
  | cons line lines ih =>
    unfold takeLines takeLine
    cases hp : payload? line with
    | none =>
      rw [List.filterMap_cons_none hp]
      simp [ih]
    | some text =>
      rw [List.filterMap_cons_some hp]
      simp only [takePayloads]
      cases translate s text with
      | mk s' step => cases step <;> simp [ih]

/-- Payloads that leave the state as it is, and are not its end, may as well be left out. -/
theorem takePayloads_filter (translate : Translator σ) (inv : σ → Prop) {heard : String → Bool}
    (hinv : ∀ s text, inv s → inv (translate s text).1)
    (hskip : ∀ s text, inv s → heard text = false → translate s text = (s, .skip))
    (s : σ) (hs : inv s) (texts : List String) :
    takePayloads translate s (texts.filter heard) = takePayloads translate s texts := by
  induction texts generalizing s with
  | nil => rfl
  | cons text texts ih =>
    cases hheard : heard text with
    | false =>
      rw [List.filter_cons_of_neg (by simp [hheard]), ih s hs, takePayloads,
        hskip s text hs hheard]
      rfl
    | true =>
      have hnext := hinv s text hs
      rw [List.filter_cons_of_pos hheard, takePayloads, takePayloads]
      cases hstep : translate s text with
      | mk s' step =>
        rw [hstep] at hnext
        cases step with
        | done => rfl
        | chunks chunks => simp only [ih s' hnext]

end ChatDialect.Sse
