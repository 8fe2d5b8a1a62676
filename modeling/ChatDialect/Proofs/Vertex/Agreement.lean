import Mathlib
import ChatDialect.Proofs.Vertex.Choices
import ChatDialect.Proofs.Vertex.Conservation

/-! One response streamed and the same response converted as a whole. Each streamed choice renders
the choice of its candidate, and only candidates that say nothing have none. -/
namespace ChatDialect.Vertex

open Chat

/-- Whether a candidate says nothing: no text, thought, image or call, and no reason to stop. -/
def Candidate.isSilent (c : Candidate) : Bool :=
  c.parts.all (·.isSilent) &&
    (c.finishReason = none ∨ c.finishReason = some "FINISH_REASON_UNSPECIFIED")

theorem Candidate.isSilent_iff {c : Candidate} :
    c.isSilent ↔ answerOf c.parts = "" ∧ reasoningOf c.parts = "" ∧ imagesOf c.parts = [] ∧
      callsOf c.parts = [] ∧
      (c.finishReason = none ∨ c.finishReason = some "FINISH_REASON_UNSPECIFIED") := by
  rw [isSilent, Bool.and_eq_true, ← silent_iff, decide_eq_true_eq, List.isEmpty_iff]
  simp only [and_assoc]

/-- A streamed choice stands for the same candidate as a choice of the whole response. The whole has
a placeholder for the content exactly where the stream has no content, images or calls. -/
structure Renders (part : ChunkChoice) (whole : Choice) : Prop where
  index : part.index = whole.index
  role : part.delta.role = some whole.message.role
  reasoning : part.delta.reasoning = whole.message.reasoning
  images : part.delta.images = whole.message.images
  calls : part.delta.toolCalls.map (·.map (·.function)) =
    whole.message.toolCalls.map (·.map fun call => some call.function.fragment)
  finish : some (part.finishReason.getD .stop) = whole.finishReason
  content : whole.message.content = some (
    if part.delta.content = none ∧ part.delta.images = none ∧ part.delta.toolCalls = none then
      if part.finishReason = some .length then "[Response truncated due to max tokens limit]"
      else "[No content generated]"
    else part.delta.content.getD "")

theorem fragment_nameCalls (ids : Ids) (calls : List FunctionCall) :
    (nameCalls ids calls).1.map (fun call => some call.function.fragment) =
      calls.map fun call => some call.toChat.fragment := by
  induction calls generalizing ids with
  | nil => rfl
  | cons call calls ih =>
    rw [nameCalls, List.map_cons, ih]
    rfl

/-- A candidate that does not state why it stopped has stopped in the ordinary way. -/
theorem statedFinish?_getD (c : Candidate) : (Stream.statedFinish? c).getD .stop = c.finish := by
  rw [Stream.statedFinish?, Candidate.finish]
  cases c.finishReason with
  | none => rfl
  | some reason =>
    by_cases h : reason = "FINISH_REASON_UNSPECIFIED"
    · rw [h]
      rfl
    · simp [Option.filter_some, h]

namespace Stream

theorem openCalls_eq_nil (first : Nat) (ids : Ids) (calls : List FunctionCall) :
    (openCalls first ids calls).1 = [] ↔ calls = [] := by
  cases calls <;> simp [openCalls]

theorem spoken_eq_silent_iff (c : Candidate) (position : Nat) (ids : Ids) :
    spoken c position ids = silent (c.indexAt position) ↔ c.isSilent := by
  have hfinish : statedFinish? c = none ↔
      c.finishReason = none ∨ c.finishReason = some "FINISH_REASON_UNSPECIFIED" := by
    rw [statedFinish?, Option.map_eq_none_iff, Option.filter_eq_none_iff]
    cases c.finishReason <;> simp
  rw [Candidate.isSilent_iff]
  simp [spoken, silent, Delta.empty, openCalls_eq_nil, hfinish, and_assoc, and_comm, and_left_comm]

theorem spoken_renders (c : Candidate) (position : Nat) (ids ids' : Ids) :
    Renders (announce (spoken c position ids)) (c.choice position ids').1 where
  index := rfl
  role := rfl
  reasoning := rfl
  images := rfl
  calls := by
    have hopened := congrArg (List.map fun call => call.2.2) (opened_openCalls ids (callsOf c.parts))
    rw [List.map_map, List.map_map] at hopened
    have hsame := hopened.trans
      (fragment_nameCalls ids' (callsOf c.parts)).symm
    exact (listed?_map _ _).trans ((congrArg listed? hsame).trans (listed?_map _ _).symm)
  finish := congrArg some (statedFinish?_getD c)
  content := by
    have hnothing : ((announce (spoken c position ids)).delta.content = none ∧
        (announce (spoken c position ids)).delta.images = none ∧
        (announce (spoken c position ids)).delta.toolCalls = none) ↔
          answerOf c.parts = "" ∧ imagesOf c.parts = [] ∧ (callsOf c.parts).isEmpty := by
      simp [announce, spoken, openCalls_eq_nil]
    have hplaceholder : placeholder c.finish =
        if (announce (spoken c position ids)).finishReason = some .length then
          "[Response truncated due to max tokens limit]"
        else "[No content generated]" := by
      rw [← statedFinish?_getD]
      change _ = if statedFinish? c = some .length then _ else _
      cases statedFinish? c with
      | none => rfl
      | some reason => cases reason <;> rfl
    have hcontent : (announce (spoken c position ids)).delta.content.getD "" = answerOf c.parts :=
      nonEmpty?_getD _
    simp only [hnothing, ← hplaceholder, hcontent]
    rfl

theorem choicesFrom_render (position : Nat) (ids ids' : Ids) (cs : List Candidate) :
    List.Forall₂ Renders ((choicesFrom position ids cs).1.map announce)
      (((cs.zip (Vertex.choicesFrom position ids' cs).1).filter (!·.1.isSilent)).map (·.2)) := by
  induction cs generalizing position ids ids' with
  | nil => exact .nil
  | cons c cs ih =>
    rw [choicesFrom, Vertex.choicesFrom, choice?_eq, List.zip_cons_cons, List.filter_cons,
      List.map_append]
    by_cases h : c.isSilent
    · rw [if_pos ((spoken_eq_silent_iff c position ids).mpr h)]
      simpa [h] using ih _ _ _
    · rw [if_neg (mt (spoken_eq_silent_iff c position ids).mp h)]
      simp only [h]
      exact .cons (spoken_renders c position ids ids') (ih _ _ _)

end Stream

namespace Stream

variable (model : String) (now now' : Int64) (ids ids' : Ids) (r : Response)

/-- The chunk of a new stream names the model and counts the tokens as the whole response does. -/
theorem chunk_of_new :
    ∀ c ∈ ((Stream.new model now ids).response r).2.passed,
      c.model = (r.toChat model now' ids').1.model ∧
        c.usage = (r.toChat model now' ids').1.usage := by
  intro c hc
  rw [response_passed, chunk?] at hc
  split at hc
  · simp at hc
  · obtain rfl := Option.some.inj (Option.mem_toList.mp hc)
    exact ⟨rfl, rfl⟩

theorem said_new :
    said ((Stream.new model now ids).response r).2.passed =
      ((Stream.new model now ids).choices r).map announce :=
  (Stream.new model now ids).said_response r

theorem said_of_candidates (h : r.candidates ≠ []) :
    let whole := (r.toChat model now' ids').1
    whole.choices.length = r.candidates.length ∧
      List.Forall₂ Renders (said ((Stream.new model now ids).response r).2.passed)
        (((r.candidates.zip whole.choices).filter (!·.1.isSilent)).map (·.2)) := by
  intro whole
  have hwhole := r.toChat_choices model now' ids'
  rw [if_neg (mt List.isEmpty_iff.mp h)] at hwhole
  have hcandidates : (Stream.new model now ids).choices r =
      (choicesFrom 0 (Stream.new model now ids).ids r.candidates).1 := by
    simp [choices, h]
  rw [hwhole, said_new, hcandidates]
  exact ⟨length_choicesFrom 0 _ r.candidates, choicesFrom_render 0 _ _ r.candidates⟩

theorem said_of_no_candidates (h : r.candidates = []) :
    (r.toChat model now' ids').1.choices = [emptyChoice r.blockReason?.isSome] ∧
      said ((Stream.new model now ids).response r).2.passed =
        if r.blockReason?.isSome then [announce blockedChoice] else [] := by
  have hwhole := r.toChat_choices model now' ids'
  rw [if_pos (List.isEmpty_iff.mpr h)] at hwhole
  refine ⟨hwhole, ?_⟩
  rw [said_new, choices, h]
  cases r.blockReason? <;> rfl

/-- What a new stream says of one response, as its whole conversion has it. The model and the tokens
are the same. With candidates, each streamed choice renders the choice of its candidate, in order, and
the silent candidates have none. Without, a refusal is the only choice of both, and otherwise only the
whole has a choice. -/
theorem response_renders (model : String) (now now' : Int64) (ids ids' : Ids) (r : Response) :
    let streamed := (Stream.new model now ids).response r
    let chunks := streamed.2.passed
    let whole := (r.toChat model now' ids').1
    streamed.1.model = whole.model ∧ chunks.length ≤ 1 ∧
      (∀ c ∈ chunks, c.model = whole.model ∧ c.usage = whole.usage) ∧
      (chunks = [] ↔ said chunks = [] ∧ whole.usage = none) ∧
      (r.candidates ≠ [] →
        whole.choices.length = r.candidates.length ∧
          List.Forall₂ Renders (said chunks)
            (((r.candidates.zip whole.choices).filter (!·.1.isSilent)).map (·.2))) ∧
      (r.candidates = [] →
        let blocked := (r.promptFeedback.bind (·.blockReason)).isSome
        whole.choices = [⟨0, ⟨"assistant", some "[No content generated]", none, none, none⟩,
            some (if blocked then .contentFilter else .stop)⟩] ∧
          said chunks = if blocked then
            [⟨0, ⟨some "assistant", none, none, none, none⟩, some .contentFilter⟩] else []) := by
  intro streamed chunks whole
  have hmodel : streamed.1.model = whole.model := by
    simp only [streamed, response_eq]
    rfl
  have hlength : chunks.length ≤ 1 := by
    simp only [chunks, streamed, response_passed]
    exact Option.length_toList_le
  have hsilent : chunks = [] ↔ said chunks = [] ∧ whole.usage = none := by
    rw [show said chunks = _ from said_new model now ids r, List.map_eq_nil_iff]
    simp only [chunks, streamed, response_passed, Option.toList_eq_nil_iff, chunk?_eq_none]
    exact and_congr_right' Option.map_eq_none_iff.symm
  exact ⟨hmodel, hlength, chunk_of_new model now now' ids ids' r, hsilent,
    said_of_candidates model now now' ids ids' r, said_of_no_candidates model now now' ids ids' r⟩

end Stream

/-- A candidate that says nothing, and one that was cut off before it could. -/
def cutOffResponse : Response where
  candidates := [⟨none, some "FINISH_REASON_UNSPECIFIED", none⟩, ⟨none, some "MAX_TOKENS", none⟩]
  usage := none
  modelVersion := some "gemini"
  responseId := none
  promptFeedback := none

theorem cutOff_renders :
    let ids := Ids.ofSource (.sequential "chatcmpl-t")
    let sent := said ((Stream.new "" 7 ids).response cutOffResponse).2.passed
    let refused := said ((Stream.new "" 7 ids).response refusalResponse).2.passed
    cutOffResponse.candidates ≠ [] ∧
      sent = [⟨1, ⟨some "assistant", none, none, none, none⟩, some .length⟩] ∧
      List.Forall₂ Renders sent [⟨1, ⟨"assistant",
        some "[Response truncated due to max tokens limit]", none, none, none⟩, some .length⟩] ∧
      refusalResponse.candidates = [] ∧
      refused = [⟨0, ⟨some "assistant", none, none, none, none⟩, some .contentFilter⟩] := by
  intro ids sent refused
  have hcandidates : cutOffResponse.candidates ≠ [] := by simp [cutOffResponse]
  obtain ⟨-, -, -, -, hrenders, -⟩ := Stream.response_renders "" 7 0 ids ids cutOffResponse
  obtain ⟨-, -, -, -, -, hrefused⟩ := Stream.response_renders "" 7 0 ids ids refusalResponse
  exact ⟨hcandidates, rfl, (hrenders hcandidates).2, rfl, (hrefused rfl).2⟩

end ChatDialect.Vertex
