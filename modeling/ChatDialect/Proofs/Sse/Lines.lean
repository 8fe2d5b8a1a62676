import ChatDialect.Sse.Buffers
import ChatDialect.Sse.Relay

/-! Lines and the drivers that take them: how cutting goes on behind a cut, and how a relay ends. -/
namespace ChatDialect.Sse

variable {σ : Type}

@[simp] theorem cutLines_nil : cutLines [] = ([], []) := rfl

/-- Bytes that follow go on with the line that was left over. -/
theorem cutLines_append (xs ys : List UInt8) :
    cutLines (xs ++ ys) =
      ((cutLines xs).1 ++ (cutLines ((cutLines xs).2 ++ ys)).1,
        (cutLines ((cutLines xs).2 ++ ys)).2) := by
  induction xs with
  | nil => rfl
  | cons b bs ih =>
    rw [List.cons_append, cutLines, ih]
    by_cases hb : b = 10
    · simp [cutLines, hb]
    · cases hl : (cutLines bs).1 with
      | nil =>
        -- no line is complete yet, so all of `b :: bs` is left over
        have hc : cutLines (b :: bs) = ([], b :: (cutLines bs).2) := by
          simp [cutLines, hb, hl]
        rw [hc]
        simp [cutLines, hb]
      | cons line lines => simp [cutLines, hb, hl]

/-- What is left over holds no complete line. -/
theorem cutLines_rest (xs : List UInt8) : cutLines (cutLines xs).2 = ([], (cutLines xs).2) := by
  induction xs with
  | nil => rfl
  | cons b bs ih =>
    by_cases hb : b = 10
    · simpa [cutLines, hb] using ih
    · cases hl : (cutLines bs).1 with
      | nil =>
        have hc : (cutLines (b :: bs)).2 = b :: (cutLines bs).2 := by simp [cutLines, hb, hl]
        rw [hc, cutLines, ih]
        simp [hb]
      | cons line lines =>
        have hc : (cutLines (b :: bs)).2 = (cutLines bs).2 := by simp [cutLines, hb, hl]
        rw [hc, ih]

theorem Input.lines_of_fault (bytes : List UInt8) (text : String) :
    Input.lines ⟨bytes, some text⟩ = (cutLines bytes).1 := by
  cases h : cutLines bytes with
  | mk lines rest => cases rest <;> simp [Input.lines, h]

/-- At the end of the input a line that is left over counts. -/
theorem Input.lines_of_end (bytes : List UInt8) :
    Input.lines ⟨bytes, none⟩ =
      (cutLines bytes).1 ++ (if (cutLines bytes).2 = [] then [] else [(cutLines bytes).2]) := by
  cases h : cutLines bytes with
  | mk lines rest => cases rest <;> simp [Input.lines, h]

/-- The lines of an input can be cut off up to any position of it. -/
theorem Input.lines_append (xs ys : List UInt8) (fault : Option String) :
    Input.lines ⟨xs ++ ys, fault⟩ =
      (cutLines xs).1 ++ Input.lines ⟨(cutLines xs).2 ++ ys, fault⟩ := by
  cases fault with
  | none => rw [lines_of_end, lines_of_end, cutLines_append, List.append_assoc]
  | some text => rw [lines_of_fault, lines_of_fault, cutLines_append]

/-- Lines taken in two goes; a stream that is done takes no more. -/
theorem takeLines_append (translate : Translator σ) (s : σ) (xs ys : List (List UInt8)) :
    takeLines translate s (xs ++ ys) =
      match takeLines translate s xs with
      | (events, none) => (events, none)
      | (events, some s) =>
        (events ++ (takeLines translate s ys).1, (takeLines translate s ys).2) := by
  induction xs generalizing s with
  | nil => rfl
  | cons x xs ih =>
    rw [List.cons_append, takeLines, takeLines]
    cases hx : takeLine translate s x with
    | mk s' outcome =>
      cases outcome with
      | done => rfl
      | events events =>
        simp only [ih]
        cases ht : takeLines translate s' xs with
        | mk more t => cases t <;> simp

/-- How a relay ends: with the fault of its input if the stream is not done before that. -/
def closing (open? : Option σ) (fault : Option String) : Item :=
  match open?, fault with
  | some _, some text => .fault text
  | _, _ => .event terminator

theorem closing_of_end {open? : Option σ} {fault : Option String}
    (h : open?.isNone ∨ fault = none) : closing open? fault = .event terminator := by
  rcases h with hdone | hend
  · rw [Option.isNone_iff_eq_none.mp hdone]
    rfl
  · rw [hend]
    cases open? <;> rfl

theorem closing_of_fault {open? : Option σ} {fault : Option String} {text : String}
    (hopen : open?.isSome) (hfault : fault = some text) : closing open? fault = .fault text := by
  obtain ⟨s, hs⟩ := Option.isSome_iff_exists.mp hopen
  rw [hs, hfault]
  rfl

/-- The bytes of an item that is no fault. -/
def Item.bytes : Item → List UInt8
  | .event bytes => bytes
  | .fault _ => []

end ChatDialect.Sse
