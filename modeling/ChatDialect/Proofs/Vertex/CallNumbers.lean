import Mathlib
import ChatDialect.Proofs.Chat.Assembly
import ChatDialect.Proofs.Vertex.Views

/-! Tool calls of a stream are numbered within their candidate, and every candidate of every
response starts at zero. A client that tells calls apart by their numbers therefore gets all of them
only if they come in one candidate. -/
namespace ChatDialect.Vertex

open Chat

/-- The function call of a canonical tool call. -/
def FunctionCall.toChat (call : FunctionCall) : Chat.FunctionCall :=
  ⟨call.name, Chat.Arguments.print call.args⟩

def numbered (first : Nat) (calls : List FunctionCall) : List (UInt32 × Chat.FunctionCall) :=
  (calls.zipIdx first).map fun c => (UInt32.ofNat c.2, c.1.toChat)

/-- A piece without its id. -/
def outline (f : CallFragment) : UInt32 × Chat.FunctionCall := (f.index, f.begun.function)

namespace Stream

/-- The calls of choices, without their ids: those of the candidates, numbered anew in each. -/
def outlines : View (UInt32 × Chat.FunctionCall) :=
  .ofDelta (fun d => (d.toolCalls.getD []).map outline) (fun c => numbered 0 (callsOf c.parts)) rfl
    (fun _ _ => rfl) fun c position ids => by
      rw [spoken, Chat.listed?_getD]
      exact map_openCalls 0 ids _ outline (fun n call => (UInt32.ofNat n, call.toChat))
        fun _ _ _ => rfl

theorem outline_chunksFrom (s : Stream) (index : UInt32) (responses : List Response) :
    (fragmentsIn (saidAt index (chunksFrom response s responses))).map outline =
      (responses.flatMap (·.candidatesAt index)).flatMap fun c => numbered 0 (callsOf c.parts) := by
  rw [fragmentsIn, List.map_flatMap]
  exact outlines.flatMap_candidates rfl s index responses

end Stream

theorem indices_numbered (calls : List FunctionCall) :
    (numbered 0 calls).map (·.1) = (List.range calls.length).map UInt32.ofNat := by
  have hnumbers := congrArg (List.map UInt32.ofNat) (List.zipIdx_map_snd 0 calls)
  rw [List.range_eq_range', ← hnumbers, numbered, List.map_map, List.map_map]
  rfl

theorem functions_numbered (calls : List FunctionCall) :
    (numbered 0 calls).map (·.2) = calls.map FunctionCall.toChat := by
  have hcalls := congrArg (List.map FunctionCall.toChat) (List.zipIdx_map_fst 0 calls)
  rw [← hcalls, numbered, List.map_map, List.map_map]
  rfl

theorem zero_mem_indices {calls : List FunctionCall} (h : calls ≠ []) :
    0 ∈ (numbered 0 calls).map (·.1) := by
  rw [indices_numbered, List.mem_map]
  exact ⟨0, List.mem_range.mpr (List.length_pos_iff.mpr h), rfl⟩

/-- Lists of calls, each numbered from zero, share no number exactly if at most one of them has
calls, and no more than there are numbers. -/
theorem nodup_indices_iff (lists : List (List FunctionCall)) :
    ((lists.flatMap (numbered 0)).map (·.1)).Nodup ↔
      (lists.filter (!·.isEmpty)).length ≤ 1 ∧ lists.flatten.length ≤ UInt32.size := by
  induction lists with
  | nil => simp
  | cons calls lists ih =>
    by_cases hcalls : calls = []
    · simpa [numbered, hcalls] using ih
    · rw [List.filter_cons_of_pos (by simpa using hcalls), List.flatMap_cons, List.map_append]
      by_cases hothers : lists.filter (!·.isEmpty) = []
      · have hempty : ∀ l ∈ lists, l = [] := by simpa using hothers
        have hflat : lists.flatten = [] := List.flatten_eq_nil_iff.mpr hempty
        have hnumbers : lists.flatMap (numbered 0) = [] := by
          rw [List.flatMap_eq_nil_iff]
          intro l hl
          rw [hempty l hl]
          rfl
        simp [hothers, hflat, hnumbers, indices_numbered, nodup_map_ofNat_range]
      · -- zero stands in both
        obtain ⟨l, hl⟩ := List.exists_mem_of_ne_nil _ hothers
        rw [List.mem_filter] at hl
        have hother : 0 ∈ (lists.flatMap (numbered 0)).map (·.1) := by
          rw [List.map_flatMap, List.mem_flatMap]
          exact ⟨l, hl.1, zero_mem_indices (by simpa using hl.2)⟩
        have hlength := List.length_pos_iff.mpr hothers
        constructor
        · intro h
          exact absurd rfl ((List.nodup_append.mp h).2.2 0 (zero_mem_indices hcalls) 0 hother)
        · intro h
          rw [List.length_cons] at h
          omega

namespace Stream

/-- A client gets the tool calls of a choice, one for each call and in their order, exactly if one
candidate has them all, and no more than there are numbers. -/
theorem assembled_calls_complete_iff (model : String) (now : Int64) (ids : Ids)
    (texts : List String) (index : UInt32) :
    let chunks := chunksFrom payload (Stream.new model now ids) texts
    let candidates := (texts.filterMap Response.ofText?).flatMap (·.candidatesAt index)
    let calls := candidates.flatMap fun c => c.parts.filterMap (·.functionCall)
    (assembleCalls (fragmentsIn (saidAt index chunks))).map (·.function) =
        calls.map FunctionCall.toChat ↔
      (candidates.filter fun c => c.parts.any (·.functionCall.isSome)).length ≤ 1 ∧
        calls.length ≤ UInt32.size := by
  intro chunks candidates calls
  have houtline : (fragmentsIn (saidAt index chunks)).map outline =
      (candidates.map fun c => callsOf c.parts).flatMap (numbered 0) := by
    rw [List.flatMap_map]
    simp only [chunks, chunksFrom_payload, outline_chunksFrom, candidates]
  have hcalling (c : Candidate) :
      c.parts.any (·.functionCall.isSome) = !(callsOf c.parts).isEmpty := by
    rw [callsOf, Bool.eq_iff_iff]
    simp [List.filterMap_eq_nil_iff, Option.isSome_iff_ne_none]
  have hindices : ((fragmentsIn (saidAt index chunks)).map (·.index)).Nodup ↔
      (candidates.filter fun c => c.parts.any (·.functionCall.isSome)).length ≤ 1 ∧
        calls.length ≤ UInt32.size := by
    have h := nodup_indices_iff (candidates.map fun c => callsOf c.parts)
    rw [← houtline, List.map_map, List.filter_map, List.length_map, ← List.flatMap_def] at h
    simp only [hcalling]
    exact h
  have hfunctions : (fragmentsIn (saidAt index chunks)).map (·.begun.function) =
      calls.map FunctionCall.toChat := by
    have h := congrArg (List.map (·.2)) houtline
    rw [List.map_map, List.map_flatMap, List.flatMap_map] at h
    simp only [functions_numbered] at h
    rw [List.map_flatMap]
    exact h
  rw [← hindices, ← hfunctions]
  constructor
  · intro h
    have hlength := congrArg List.length h
    rw [List.length_map, List.length_map] at hlength
    exact (length_assembleCalls_eq_iff _).mp hlength
  · intro h
    rw [assembleCalls_of_nodup h, List.map_map]
    rfl

end Stream

/-- A payload with one call. -/
def rollText : String :=
  "\x7b\"candidates\":[\x7b\"content\":\x7b\"parts\":[\x7b\"functionCall\":" ++
    "\x7b\"name\":\"roll\",\"args\":\x7b\x7d\x7d\x7d]\x7d\x7d]\x7d"

def rollResponse : Response where
  candidates := [{
    content := some { role := none, parts := [{
      text := none, thought := none, inlineData := none, fileData := none,
      functionCall := some ⟨"roll", .obj []⟩, functionResponse := none,
      thoughtSignature := none }] }
    finishReason := none
    index := none }]
  usage := none
  modelVersion := none
  responseId := none
  promptFeedback := none

theorem ofText?_rollText : Response.ofText? rollText = some rollResponse :=
  Response.ofText?_eq_some
    (.object [(.clean "candidates", .array [.object [(.clean "content",
      .object [(.clean "parts", .array [.object [(.clean "functionCall",
        .object [(.clean "name", .text (.clean "roll")), (.clean "args", .object [] .closed)]
          .closed)] .closed] .closed)] .closed)] .closed] .closed)] .closed)
    (by decide) (by cbv) (by cbv)

/-- Two calls in two payloads become one, with the arguments of both. -/
theorem rolls_collide :
    let texts := [rollText, rollText]
    let chunks := chunksFrom Stream.payload
      (Stream.new "m" 7 (.ofSource (.sequential "chatcmpl-t"))) texts
    let candidates := (texts.filterMap Response.ofText?).flatMap (·.candidatesAt 0)
    let calls := candidates.flatMap fun c => c.parts.filterMap (·.functionCall)
    assembleCalls (fragmentsIn (saidAt 0 chunks)) =
        [⟨"call_1", "function", ⟨"roll", "\x7b\x7d\x7b\x7d"⟩⟩] ∧
      calls.map FunctionCall.toChat = [⟨"roll", "\x7b\x7d"⟩, ⟨"roll", "\x7b\x7d"⟩] ∧
      (assembleCalls (fragmentsIn (saidAt 0 chunks))).map (·.function) ≠
        calls.map FunctionCall.toChat := by
  intro texts chunks candidates calls
  have hresponses : texts.filterMap Response.ofText? = [rollResponse, rollResponse] := by
    simp [texts, ofText?_rollText]
  have hassembled : assembleCalls (fragmentsIn (saidAt 0 chunks)) =
      [⟨"call_1", "function", ⟨"roll", "\x7b\x7d\x7b\x7d"⟩⟩] := by
    simp only [chunks, Stream.chunksFrom_payload, hresponses]
    decide
  have hcalls : calls.map FunctionCall.toChat =
      [⟨"roll", "\x7b\x7d"⟩, ⟨"roll", "\x7b\x7d"⟩] := by
    simp only [calls, candidates, hresponses]
    decide
  refine ⟨hassembled, hcalls, ?_⟩
  rw [hassembled, hcalls]
  decide

end ChatDialect.Vertex
