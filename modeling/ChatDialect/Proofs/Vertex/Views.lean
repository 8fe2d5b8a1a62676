import ChatDialect.Proofs.Vertex.Steps

/-! What a stream says of its responses, choice by choice. A view that shows nothing of a silent choice
can be read off the candidates, since only silent choices are left out. -/
namespace ChatDialect.Vertex

open Chat

/-- The candidates of a response for the choice of an index: their own, or else their position. -/
def Response.candidatesAt (index : UInt32) (r : Response) : List Candidate :=
  (r.candidates.zipIdx.filter fun c => c.1.index.getD (UInt32.ofNat c.2) = index).map (·.1)

/-- Whether a response refuses the prompt. -/
def Response.refuses (r : Response) : Bool :=
  r.candidates.isEmpty && (r.promptFeedback.bind (·.blockReason)).isSome

theorem Response.refuses_iff {r : Response} :
    r.refuses ↔ r.candidates.isEmpty ∧ r.blockReason?.isSome := by
  rw [refuses, Bool.and_eq_true, blockReason?]

namespace Stream

theorem map_openCalls {γ : Type} (first : Nat) (ids : Ids) (calls : List FunctionCall)
    (g : CallFragment → γ) (shown : Nat → FunctionCall → γ)
    (h : ∀ n id call, g (.opening (UInt32.ofNat n) id call.name (Arguments.print call.args)) =
      shown n call) :
    (openCalls first ids calls).1.map g = (calls.zipIdx first).map fun c => shown c.2 c.1 := by
  induction calls generalizing first ids with
  | nil => rfl
  | cons call calls ih => rw [openCalls, List.map_cons, ih, List.zipIdx_cons, List.map_cons, h]

/-- What is shown of choices, and what that is of a candidate and of a refusal. -/
structure View (γ : Type) where
  shown : ChunkChoice → List γ
  candidate : Candidate → List γ
  refusal : List γ
  shown_silent : ∀ index, shown (silent index) = []
  shown_announce : ∀ c, shown (announce c) = shown c
  shown_spoken : ∀ c position ids, shown (spoken c position ids) = candidate c
  shown_blocked : shown blockedChoice = refusal

/-- A view of deltas, in which neither the role nor a refusal has a part. -/
def View.ofDelta {γ : Type} (shown : Delta → List γ) (candidate : Candidate → List γ)
    (hempty : shown .empty = []) (hrole : ∀ d role, shown { d with role } = shown d)
    (hspoken : ∀ c position ids, shown (spoken c position ids).delta = candidate c) : View γ where
  shown c := shown c.delta
  candidate := candidate
  refusal := []
  shown_silent _ := hempty
  shown_announce c := hrole c.delta _
  shown_spoken := hspoken
  shown_blocked := hempty

namespace View

variable {γ : Type} (v : View γ)

/-- What a response shows in the choice of an index. -/
def total (index : UInt32) (r : Response) : List γ :=
  (r.candidatesAt index).flatMap v.candidate ++
    if index = 0 ∧ r.refuses then v.refusal else []

theorem flatMap_choice? (c : Candidate) (position : Nat) (ids : Ids) (index : UInt32) :
    ((choice? c position ids).1.toList.filter (·.index = index)).flatMap v.shown =
      if c.indexAt position = index then v.candidate c else [] := by
  rw [choice?_eq, ← v.shown_spoken c position ids]
  split
  · next hsilent => simp [hsilent, v.shown_silent]
  · by_cases hindex : c.indexAt position = index <;> simp [spoken, hindex]

theorem flatMap_choicesFrom (index : UInt32) (position : Nat) (ids : Ids) (cs : List Candidate) :
    ((choicesFrom position ids cs).1.filter (·.index = index)).flatMap v.shown =
      ((cs.zipIdx position).filter fun c => c.1.indexAt c.2 = index).flatMap fun c =>
        v.candidate c.1 := by
  induction cs generalizing position ids with
  | nil => rfl
  | cons c cs ih =>
    rw [choicesFrom, List.filter_append, List.flatMap_append, ih, flatMap_choice?,
      List.zipIdx_cons, List.filter_cons]
    by_cases hindex : c.indexAt position = index <;> simp [hindex]

theorem flatMap_choices (s : Stream) (index : UInt32) (r : Response) :
    ((s.choices r).filter (·.index = index)).flatMap v.shown = v.total index r := by
  simp only [choices, total, ← Response.refuses_iff]
  cases h : r.refuses with
  | true =>
    have hnone : r.candidatesAt index = [] := by
      rw [Response.refuses, Bool.and_eq_true, List.isEmpty_iff] at h
      rw [Response.candidatesAt, h.1]
      rfl
    have hblocked : blockedChoice.index = 0 := rfl
    rw [hnone]
    by_cases hindex : index = 0
    · simp [hindex, hblocked, v.shown_blocked]
    · simp [hindex, Ne.symm hindex, hblocked]
  | false =>
    have hcandidates : ((choicesFrom 0 s.ids r.candidates).1.filter (·.index = index)).flatMap
        v.shown = (r.candidatesAt index).flatMap v.candidate := by
      rw [v.flatMap_choicesFrom, Response.candidatesAt, List.flatMap_map]
      rfl
    simpa using hcandidates

theorem flatMap_response (s : Stream) (index : UInt32) (r : Response) :
    (saidAt index (s.response r).2.passed).flatMap v.shown = v.total index r := by
  rw [saidAt, said_response, ← v.flatMap_choices s]
  split
  · rfl
  · have hshown : (fun c => v.shown (announce c)) = v.shown := funext v.shown_announce
    rw [List.filter_map, List.flatMap_map, hshown]
    rfl

/-- The choices of an index show what the responses of the stream show there, in order. -/
theorem flatMap_chunksFrom (s : Stream) (index : UInt32) (responses : List Response) :
    (saidAt index (chunksFrom response s responses)).flatMap v.shown =
      responses.flatMap (v.total index) := by
  induction responses generalizing s with
  | nil => rfl
  | cons r responses ih =>
    rw [chunksFrom_cons, saidAt, said_append, List.filter_append, List.flatMap_append,
      List.flatMap_cons, ← ih (s.response r).1, ← v.flatMap_response s]
    rfl

/-- If a refusal shows nothing, only the candidates are seen. -/
theorem flatMap_candidates (hrefusal : v.refusal = []) (s : Stream) (index : UInt32)
    (responses : List Response) :
    (saidAt index (chunksFrom response s responses)).flatMap v.shown =
      (responses.flatMap (·.candidatesAt index)).flatMap v.candidate := by
  have htotal : v.total index = fun r => (r.candidatesAt index).flatMap v.candidate := by
    funext r
    simp [total, hrefusal]
  rw [flatMap_chunksFrom, List.flatMap_assoc, htotal]

end View

end Stream

end ChatDialect.Vertex
