import ChatDialect.Proofs.Vertex.Agreement

/-! Who a stream is. Responses that give no chunk may still name it; from its first chunk on nothing
does, so all chunks of a stream show one identity. -/
namespace ChatDialect.Vertex

open Chat

/-- Whether a response gives a chunk: it counts tokens, refuses the prompt, or has a candidate that
says something. -/
def Response.speaks (r : Response) : Bool :=
  r.usage.isSome || r.refuses || r.candidates.any (!·.isSilent)

/-- The responses up to the first that gives a chunk, which is the last of them. -/
def opening : List Response → List Response
  | [] => []
  | r :: rest => if r.speaks then [r] else r :: opening rest

/-- The id that responses give last. -/
def lastId? (responses : List Response) : Option String :=
  ((responses.filterMap (·.responseId)).filter (· ≠ "")).getLast?

/-- The model that responses give first. -/
def firstModel? (responses : List Response) : Option String :=
  ((responses.filterMap (·.modelVersion)).filter (· ≠ "")).head?

/-- Who a stream is once responses have named it. -/
def identityAfter (i : Identity) (responses : List Response) : Identity where
  id := (lastId? responses).getD i.id
  created := i.created
  model := targetModel i.model ((firstModel? responses).getD "")

theorem identityAfter_cons (i : Identity) (r : Response) (rs : List Response) :
    identityAfter i (r :: rs) = identityAfter (identityAfter i [r]) rs := by
  have hid : (lastId? (r :: rs)).getD i.id = (lastId? rs).getD ((lastId? [r]).getD i.id) := by
    cases hr : r.responseId with
    | none => simp [lastId?, hr]
    | some id => by_cases h : id = "" <;> simp [lastId?, hr, h, List.getLast?_cons]
  have hmodel : targetModel i.model ((firstModel? (r :: rs)).getD "") =
      targetModel (targetModel i.model ((firstModel? [r]).getD "")) ((firstModel? rs).getD "") := by
    cases hr : r.modelVersion with
    | none => by_cases hi : i.model = "" <;> simp [firstModel?, targetModel, hr, hi]
    | some model =>
      by_cases h : model = "" <;> by_cases hi : i.model = "" <;>
        simp [firstModel?, targetModel, hr, h, hi]
  simp only [identityAfter, hid, hmodel]

namespace Stream

/-- Candidates that say nothing have no choices and take no ids. -/
theorem choicesFrom_of_silent {cs : List Candidate} (h : ∀ c ∈ cs, c.isSilent) (position : Nat)
    (ids : Ids) : choicesFrom position ids cs = ([], ids) := by
  induction cs generalizing position with
  | nil => rfl
  | cons c cs ih =>
    have hc : c.isSilent := h c List.mem_cons_self
    obtain ⟨-, -, -, hcalls, -⟩ := Candidate.isSilent_iff.mp hc
    have hchoice : choice? c position ids = (none, ids) := by
      rw [choice?_eq, if_pos ((spoken_eq_silent_iff c position ids).mpr hc), hcalls]
      rfl
    have hrest := ih (fun c hc => h c (List.mem_cons_of_mem _ hc)) (position + 1)
    simp [choicesFrom, hchoice, hrest]

theorem choicesFrom_eq_nil {cs : List Candidate} {position : Nat} {ids : Ids} :
    (choicesFrom position ids cs).1 = [] ↔ ∀ c ∈ cs, c.isSilent := by
  constructor
  · intro h
    induction cs generalizing position ids with
    | nil => simp
    | cons c cs ih =>
      rw [choicesFrom, List.append_eq_nil_iff, Option.toList_eq_nil_iff, choice?_eq] at h
      obtain ⟨hc, hcs⟩ := h
      have hsilent : c.isSilent := by
        by_contra hne
        rw [if_neg (mt (spoken_eq_silent_iff c position ids).mp hne)] at hc
        cases hc
      exact List.forall_mem_cons.mpr ⟨hsilent, ih hcs⟩
  · intro h
    rw [choicesFrom_of_silent h]

variable (s : Stream)

theorem choices_eq_nil {r : Response} :
    s.choices r = [] ↔ r.refuses = false ∧ ∀ c ∈ r.candidates, c.isSilent := by
  simp only [choices, ← Response.refuses_iff]
  cases r.refuses with
  | true => simp
  | false => simp [choicesFrom_eq_nil]

theorem isSome_chunk? (r : Response) : (s.chunk? r).isSome = r.speaks := by
  have hnone : s.chunk? r = none ↔ r.speaks = false := by
    rw [chunk?_eq_none, choices_eq_nil]
    simp [Response.speaks, and_assoc, and_comm]
  cases hr : r.speaks with
  | false => rw [hnone.mpr hr, Option.isSome_none]
  | true =>
    rw [Option.isSome_iff_ne_none]
    intro h
    rw [hnone.mp h] at hr
    cases hr

/-- A payload gives one chunk if it is a response that speaks, and otherwise none. -/
theorem length_passed_payload (text : String) :
    (s.payload text).2.passed.length =
      if (Response.ofText? text).any (·.speaks) then 1 else 0 := by
  rw [payload_eq]
  cases Response.ofText? text with
  | none => by_cases hdone : text = "[DONE]" <;> simp [hdone]
  | some r =>
    have hchunk := s.isSome_chunk? r
    simp only [response_passed, Option.any_some]
    cases hc : s.chunk? r with
    | none =>
      rw [hc] at hchunk
      simp [← hchunk]
    | some c =>
      rw [hc] at hchunk
      simp [← hchunk]

def identity : Identity := ⟨s.id, s.created, s.model⟩

/-- Until a chunk has gone out, a response names the stream. -/
theorem identity_identify (r : Response) :
    (s.identify r).identity = if s.emitted then s.identity else identityAfter s.identity [r] := by
  unfold identify
  cases s.emitted with
  | true => rfl
  | false =>
    have hid : (r.responseId.filter (· ≠ "")).getD s.id = (lastId? [r]).getD s.id := by
      cases hr : r.responseId with
      | none => simp [lastId?, hr]
      | some id => by_cases h : id = "" <;> simp [lastId?, Option.filter_some, hr, h]
    have hmodel : (if s.model = "" then r.modelVersion.getD "" else s.model) =
        targetModel s.model ((firstModel? [r]).getD "") := by
      cases hr : r.modelVersion with
      | none => simp [firstModel?, targetModel, hr]
      | some model => by_cases h : model = "" <;> simp [firstModel?, targetModel, hr, h]
    have hcreated : s.created = s.identity.created := rfl
    simp only [identity, identityAfter, hid, hmodel, Bool.false_eq_true, if_false]

theorem identity_response (r : Response) :
    (s.response r).1.identity = (s.identify r).identity ∧
      ∀ c ∈ (s.response r).2.passed, c.identity = (s.identify r).identity := by
  have hcreated : (s.identify r).created = s.created := by
    unfold identify
    split <;> rfl
  constructor
  · rw [response_eq]
    rfl
  · intro c hc
    rw [response_passed, chunk?] at hc
    split at hc
    · simp at hc
    · obtain rfl := Option.some.inj (Option.mem_toList.mp hc)
      rw [identity, hcreated]
      rfl

theorem emitted_response (r : Response) : (s.response r).1.emitted = (s.emitted || r.speaks) := by
  rw [response_eq, isSome_chunk?]

/-- Once a chunk has gone out, all chunks show who the stream is now. -/
theorem identity_of_emitted (h : s.emitted = true) (responses : List Response) :
    ∀ c ∈ chunksFrom response s responses, c.identity = s.identity := by
  induction responses generalizing s with
  | nil => simp
  | cons r rest ih =>
    obtain ⟨hstate, hpassed⟩ := s.identity_response r
    have hidentify : (s.identify r).identity = s.identity := by
      rw [identity_identify, if_pos h]
    have hemitted : (s.response r).1.emitted = true := by
      rw [emitted_response, h, Bool.true_or]
    intro c hc
    rw [chunksFrom_cons, List.mem_append] at hc
    rcases hc with hc | hc
    · rw [hpassed c hc, hidentify]
    · rw [ih _ hemitted c hc, hstate, hidentify]

/-- Until then, they show who the stream is once the responses up to the first chunk have named
it. -/
theorem identity_of_not_emitted (h : s.emitted = false) (responses : List Response) :
    ∀ c ∈ chunksFrom response s responses,
      c.identity = identityAfter s.identity (opening responses) := by
  induction responses generalizing s with
  | nil => simp
  | cons r rest ih =>
    obtain ⟨hstate, hpassed⟩ := s.identity_response r
    have hidentify : (s.identify r).identity = identityAfter s.identity [r] := by
      rw [identity_identify, h]
      rfl
    have hemitted : (s.response r).1.emitted = r.speaks := by
      rw [emitted_response, h, Bool.false_or]
    intro c hc
    rw [chunksFrom_cons, List.mem_append] at hc
    cases hr : r.speaks with
    | true =>
      rw [hr] at hemitted
      rw [opening, if_pos hr, ← hidentify]
      rcases hc with hc | hc
      · exact hpassed c hc
      · rw [identity_of_emitted _ hemitted rest c hc, hstate]
    | false =>
      rw [hr] at hemitted
      have hnothing : (s.response r).2.passed = [] := by
        have hchunk := s.isSome_chunk? r
        rw [hr, Option.isSome_eq_false_iff, Option.isNone_iff_eq_none] at hchunk
        rw [response_passed, hchunk, Option.toList_none]
      rw [hnothing] at hc
      rcases hc with hc | hc
      · simp at hc
      · have hr' : ¬r.speaks = true := by simp [hr]
        rw [ih _ hemitted c hc, hstate, hidentify, opening, if_neg hr', ← identityAfter_cons]

/-- All chunks of a stream show one identity: the id that was given last and the model that was
given first by the responses up to the one that gave the first chunk. A model chosen by the caller
stands, and without any given id the stream keeps its own. -/
theorem one_identity (model : String) (now : Int64) (ids : Ids) (texts : List String) :
    let chunks := chunksFrom payload (Stream.new model now ids) texts
    let heard := opening (texts.filterMap Response.ofText?)
    let id := (lastId? heard).getD (ids.source.response ids.next)
    (∀ (s : Stream) (text : String), (s.payload text).2.passed.length =
        if (Response.ofText? text).any (·.speaks) then 1 else 0) ∧
      chunks.map (·.identity) =
        List.replicate chunks.length ⟨id, now, targetModel model ((firstModel? heard).getD "")⟩ := by
  intro chunks heard id
  refine ⟨length_passed_payload, ?_⟩
  have hidentity := (Stream.new model now ids).identity_of_not_emitted rfl
    (texts.filterMap Response.ofText?)
  rw [← chunksFrom_payload] at hidentity
  rw [List.eq_replicate_iff]
  constructor
  · exact List.length_map _
  · intro i hi
    obtain ⟨c, hc, rfl⟩ := List.mem_map.mp hi
    exact hidentity c hc

end Stream

end ChatDialect.Vertex
