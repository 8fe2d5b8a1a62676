import Mathlib
import ChatDialect.Proofs.Vertex.CallNumbers
import ChatDialect.Proofs.Vertex.Parts

/-! A stream loses, doubles and mixes nothing: what goes out in the choices of an index is what the
parts of the candidates for that index hold, in order, and the tokens of every response are counted
once. -/
namespace ChatDialect.Vertex

open Chat

/-- The reasons to stop that a response gives in the choice of an index. A refusal stands in the first
choice. -/
def Response.finishesAt (index : UInt32) (r : Response) : List FinishReason :=
  (((r.candidatesAt index).filterMap (·.finishReason)).filter
      (· ≠ "FINISH_REASON_UNSPECIFIED")).map reasonOf ++
    if index = 0 ∧ r.candidates = [] ∧ (r.promptFeedback.bind (·.blockReason)).isSome then
      [.contentFilter]
    else []

/-- A piece that opens a call, with all of its arguments, under some id. -/
structure Opens (call : FunctionCall) (f : CallFragment) : Prop where
  id : f.id.isSome
  kind : f.kind = some "function"
  function : f.function = some ⟨some call.name, some (Arguments.print call.args)⟩

/-- Texts of parts may be joined candidate by candidate, and empty ones left out. -/
theorem join_texts_flatMap (said : Part → Option String) (cs : List Candidate) :
    String.join (cs.flatMap fun c =>
        (Text.nonEmpty? (String.join (c.parts.filterMap said))).toList) =
      String.join ((cs.flatMap (·.parts)).filterMap said) := by
  induction cs with
  | nil => rfl
  | cons c cs ih =>
    have hone (s : String) : String.join (Text.nonEmpty? s).toList = s := by
      by_cases h : s = "" <;> simp [Text.nonEmpty?, h]
    rw [List.flatMap_cons, List.flatMap_cons, List.filterMap_append, String.join_append,
      String.join_append, hone, ih]

namespace Stream

/-- The content of choices. -/
def contents : View String :=
  .ofDelta (·.content.toList) (fun c => (Text.nonEmpty? (answerOf c.parts)).toList) rfl
    (fun _ _ => rfl) fun _ _ _ => rfl

def reasonings : View String :=
  .ofDelta (·.reasoning.toList) (fun c => (Text.nonEmpty? (reasoningOf c.parts)).toList) rfl
    (fun _ _ => rfl) fun _ _ _ => rfl

def images : View Image :=
  .ofDelta (·.images.getD []) (fun c => imagesOf c.parts) rfl (fun _ _ => rfl)
    fun _ _ _ => Chat.listed?_getD _

/-- What a piece shows of the call that it opens: whether there is an id, the kind, and the function. -/
def opened (f : CallFragment) : Bool × Option String × Option FunctionFragment :=
  (f.id.isSome, f.kind, f.function)

theorem opened_openCalls (ids : Ids) (calls : List FunctionCall) :
    (openCalls 0 ids calls).1.map opened =
      calls.map fun call => (true, some "function", some call.toChat.fragment) := by
  have hcalls := congrArg (List.map fun call =>
    (true, some "function", some (FunctionCall.toChat call).fragment)) (List.zipIdx_map_fst 0 calls)
  rw [List.map_map] at hcalls
  rw [← hcalls]
  exact map_openCalls 0 ids calls opened
    (fun _ call => (true, some "function", some call.toChat.fragment)) fun _ _ _ => rfl

def openings : View (Bool × Option String × Option FunctionFragment) :=
  .ofDelta (fun d => (d.toolCalls.getD []).map opened)
    (fun c => (callsOf c.parts).map fun call => (true, some "function", some call.toChat.fragment))
    rfl (fun _ _ => rfl)
    fun c position ids => by rw [spoken, Chat.listed?_getD, opened_openCalls]

def finishes : View FinishReason where
  shown c := c.finishReason.toList
  candidate c := (statedFinish? c).toList
  refusal := [.contentFilter]
  shown_silent _ := rfl
  shown_announce _ := rfl
  shown_spoken _ _ _ := rfl
  shown_blocked := rfl

theorem total_finishes (index : UInt32) (r : Response) :
    finishes.total index r = r.finishesAt index := by
  have hstated : (r.candidatesAt index).flatMap (fun c => (statedFinish? c).toList) =
      (((r.candidatesAt index).filterMap (·.finishReason)).filter
        (· ≠ "FINISH_REASON_UNSPECIFIED")).map reasonOf := by
    rw [List.filter_filterMap, List.map_filterMap, List.filterMap_eq_flatMap_toList]
    rfl
  have hrefuses : r.refuses ↔
      r.candidates = [] ∧ (r.promptFeedback.bind (·.blockReason)).isSome := by
    rw [Response.refuses, Bool.and_eq_true, List.isEmpty_iff]
  simp only [View.total, Response.finishesAt, finishes, hstated, hrefuses]

variable (s : Stream)

theorem usage_response (r : Response) :
    (s.response r).2.passed.filterMap (·.usage) = (r.usage.map (·.toChat)).toList := by
  rw [response_passed, chunk?]
  split
  · next h => simp [Option.isNone_iff_eq_none.mp h.2]
  · cases r.usage <;> simp [Chunk.ofChoices]

theorem usages_chunksFrom (responses : List Response) :
    (chunksFrom response s responses).filterMap (·.usage) =
      (responses.filterMap (·.usage)).map (·.toChat) := by
  induction responses generalizing s with
  | nil => rfl
  | cons r responses ih =>
    rw [chunksFrom_cons, List.filterMap_append, ih, usage_response]
    cases h : r.usage <;> simp [h]

/-- Whether a choice says anything, the announcement apart. -/
def saysSomething (choice : ChunkChoice) : Bool :=
  choice.delta.content.isSome || choice.delta.reasoning.isSome || choice.delta.toolCalls.isSome ||
    choice.delta.images.isSome || choice.finishReason.isSome

theorem saysSomething_of_ne_silent {choice : ChunkChoice} (h : choice ≠ silent choice.index)
    (hrole : choice.delta.role = none) : saysSomething choice := by
  by_contra hnothing
  obtain ⟨index, ⟨role, content, reasoning, toolCalls, images⟩, finish⟩ := choice
  simp only [saysSomething, Bool.or_eq_true, not_or, Option.isSome_iff_ne_none, not_not] at hnothing
  obtain ⟨⟨⟨⟨rfl, rfl⟩, rfl⟩, rfl⟩, rfl⟩ := hnothing
  cases hrole
  exact h rfl

/-- A chunk has choices or counts tokens, and each of its choices says something. -/
theorem response_not_silent (r : Response) :
    ∀ c ∈ (s.response r).2.passed, (c.choices ≠ [] ∨ c.usage.isSome) ∧
      ∀ choice ∈ c.choices, saysSomething choice := by
  intro c hc
  rw [response_passed, chunk?] at hc
  split at hc
  · simp at hc
  · next hsomething =>
    obtain rfl := Option.some.inj (Option.mem_toList.mp hc)
    constructor
    · by_cases hchoices : s.choices r = []
      · right
        cases hu : r.usage with
        | none => simp [hchoices, hu] at hsomething
        | some u => rfl
      · left
        cases s.announced <;> simp [Chunk.ofChoices, hchoices]
    · have hspoken : ∀ choice ∈ s.choices r, saysSomething choice := by
        intro choice hchoice
        obtain ⟨hne, hrole⟩ := s.mem_choices hchoice
        exact saysSomething_of_ne_silent hne hrole
      intro choice hchoice
      cases hs : s.announced with
      | true => exact hspoken choice (by simpa [Chunk.ofChoices, hs] using hchoice)
      | false =>
        obtain ⟨c, hc, rfl⟩ : ∃ c ∈ s.choices r, announce c = choice := by
          simpa [Chunk.ofChoices, hs] using hchoice
        exact hspoken c hc

/-- The choices of an index hold the texts, images and calls of the candidates for that index, in
order and each once, and their reasons to stop. The tokens that responses count go out once, and no
chunk or choice goes out that holds nothing. -/
theorem responses_conserved (s : Stream) (texts : List String) (index : UInt32) :
    let chunks := chunksFrom payload s texts
    let responses := texts.filterMap Response.ofText?
    let sent := saidAt index chunks
    let parts := (responses.flatMap (·.candidatesAt index)).flatMap (·.parts)
    contentIn sent = String.join (textsOf false parts) ∧
      reasoningIn sent = String.join (textsOf true parts) ∧
      (∃ shown, List.Forall₂ Medium.Shown (parts.flatMap (·.media)) shown ∧
        imagesIn sent = shown.reduceOption) ∧
      List.Forall₂ Opens (parts.filterMap (·.functionCall)) (fragmentsIn sent) ∧
      finishesIn sent = responses.flatMap (·.finishesAt index) ∧
      chunks.filterMap (·.usage) = (responses.filterMap (·.usage)).map (·.toChat) ∧
      ∀ c ∈ chunks, (c.choices ≠ [] ∨ c.usage.isSome) ∧
        ∀ choice ∈ c.choices, saysSomething choice := by
  intro chunks responses sent parts
  have hchunks : chunks = chunksFrom response s responses := s.chunksFrom_payload texts
  have hviewed {γ : Type} (v : View γ) (hrefusal : v.refusal = []) : sent.flatMap v.shown =
      (responses.flatMap (·.candidatesAt index)).flatMap v.candidate := by
    simp only [sent, hchunks, v.flatMap_candidates hrefusal]
  refine ⟨?_, ?_, ?_, ?_, ?_, ?_, ?_⟩
  · rw [contentIn, List.filterMap_eq_flatMap_toList, ← answerOf_eq]
    exact (congrArg String.join (hviewed contents rfl)).trans (join_texts_flatMap _ _)
  · rw [reasoningIn, List.filterMap_eq_flatMap_toList, ← reasoningOf_eq]
    exact (congrArg String.join (hviewed reasonings rfl)).trans (join_texts_flatMap _ _)
  · obtain ⟨shown, hshown, himages⟩ := shown_images parts
    refine ⟨shown, hshown, ?_⟩
    rw [← himages, imagesOf, List.flatMap_assoc]
    exact hviewed images rfl
  · have hopened : (fragmentsIn sent).map opened = (parts.filterMap (·.functionCall)).map fun call =>
        (true, some "function", some call.toChat.fragment) := by
      rw [fragmentsIn, List.map_flatMap, List.filterMap_flatMap, List.map_flatMap]
      exact hviewed openings rfl
    have hsame := List.forall₂_map_left_iff.mp
      (List.forall₂_map_right_iff.mp (List.forall₂_eq_eq_eq ▸ hopened.symm))
    refine hsame.imp fun call f h => ?_
    simp only [opened, Prod.mk.injEq] at h
    exact ⟨h.1.symm, h.2.1.symm, h.2.2.symm⟩
  · rw [finishesIn, List.filterMap_eq_flatMap_toList, ← funext (total_finishes index)]
    simp only [sent, hchunks]
    exact finishes.flatMap_chunksFrom s index responses
  · rw [hchunks, usages_chunksFrom]
  · rw [hchunks]
    exact forall_mem_chunksFrom response s response_not_silent responses

end Stream

/-- A thought, a text and an image, for a choice that is not the first. -/
def mixedText : String :=
  "\x7b\"candidates\":[\x7b\"content\":\x7b\"parts\":[\x7b\"text\":\"hm\",\"thought\":true\x7d," ++
    "\x7b\"text\":\"Hi\"\x7d,\x7b\"inlineData\":\x7b\"data\":\"aGk\"\x7d\x7d]\x7d,\"index\":1\x7d]\x7d"

def mixedResponse : Response where
  candidates := [{
    content := some { role := none, parts := [
      { (Item.text "hm").part with thought := some true }, (Item.text "Hi").part,
      (Item.data "" "aGk").part] }
    finishReason := none
    index := some 1 }]
  usage := none
  modelVersion := none
  responseId := none
  promptFeedback := none

/-- A file and a text, in candidates that have the indices of their positions. -/
def pairText : String :=
  "\x7b\"candidates\":[\x7b\"content\":\x7b\"parts\":[\x7b\"fileData\":" ++
    "\x7b\"fileUri\":\"gs://a/b\"\x7d\x7d]\x7d,\"finishReason\":\"MAX_TOKENS\"\x7d," ++
    "\x7b\"content\":\x7b\"parts\":[\x7b\"text\":\"!\"\x7d]\x7d\x7d]\x7d"

def pairResponse : Response where
  candidates := [
    { content := some { role := none, parts := [(Item.file "" "gs://a/b").part] }
      finishReason := some "MAX_TOKENS", index := none },
    { content := some { role := none, parts := [(Item.text "!").part] }
      finishReason := none, index := none }]
  usage := none
  modelVersion := none
  responseId := none
  promptFeedback := none

/-- A refusal that counts tokens. -/
def refusalText : String :=
  "\x7b\"promptFeedback\":\x7b\"blockReason\":\"SAFETY\"\x7d," ++
    "\"usageMetadata\":\x7b\"promptTokenCount\":3,\"thoughtsTokenCount\":2\x7d\x7d"

def refusalResponse : Response where
  candidates := []
  usage := some ⟨3, 0, none, some 2, none, [], []⟩
  modelVersion := none
  responseId := none
  promptFeedback := some ⟨some "SAFETY"⟩

theorem ofText?_mixedText : Response.ofText? mixedText = some mixedResponse :=
  Response.ofText?_eq_some
    (.object [(.clean "candidates", .array [.object [(.clean "content",
      .object [(.clean "parts", .array [
        .object [(.clean "text", .text (.clean "hm")), (.clean "thought", .bool true none)] .closed,
        .object [(.clean "text", .text (.clean "Hi"))] .closed,
        .object [(.clean "inlineData", .object [(.clean "data", .text (.clean "aGk"))] .closed)]
          .closed] .closed)] .closed), (.clean "index", .number (.clean (.int (.ofUInt64 1))))]
            .closed] .closed)] .closed)
    (by decide) (by cbv) rfl

theorem ofText?_pairText : Response.ofText? pairText = some pairResponse :=
  Response.ofText?_eq_some
    (.object [(.clean "candidates", .array [
      .object [(.clean "content", .object [(.clean "parts", .array [.object [(.clean "fileData",
        .object [(.clean "fileUri", .text (.clean "gs://a/b"))] .closed)] .closed] .closed)]
          .closed), (.clean "finishReason", .text (.clean "MAX_TOKENS"))] .closed,
      .object [(.clean "content", .object [(.clean "parts", .array [
        .object [(.clean "text", .text (.clean "!"))] .closed] .closed)] .closed)] .closed]
          .closed)] .closed)
    (by decide) (by cbv) rfl

theorem ofText?_refusalText : Response.ofText? refusalText = some refusalResponse :=
  Response.ofText?_eq_some
    (.object [(.clean "promptFeedback", .object [(.clean "blockReason", .text (.clean "SAFETY"))]
      .closed), (.clean "usageMetadata", .object [(.clean "promptTokenCount",
        .number (.clean (.int (.ofUInt64 3)))),
          (.clean "thoughtsTokenCount", .number (.clean (.int (.ofUInt64 2))))] .closed)] .closed)
    (by decide) (by cbv) rfl

/-- Responses for two choices and a refusal, with noise between them. -/
theorem mixed_conserved :
    let s := Stream.new "m" 7 (.ofSource (.sequential "chatcmpl-t"))
    let chunks := chunksFrom Stream.payload s [mixedText, "?", pairText, rollText, refusalText]
    contentIn (saidAt 1 chunks) = "Hi!" ∧ reasoningIn (saidAt 1 chunks) = "hm" ∧
      imagesIn (saidAt 1 chunks) = [⟨some "aGk=", none, none, none⟩] ∧
      contentIn (saidAt 0 chunks) = "" ∧
      imagesIn (saidAt 0 chunks) = [⟨none, some "gs://a/b", none, none⟩] ∧
      List.Forall₂ Opens [⟨"roll", .obj []⟩] (fragmentsIn (saidAt 0 chunks)) ∧
      finishesIn (saidAt 0 chunks) = [.length, .contentFilter] ∧
      chunks.filterMap (·.usage) = [⟨3, 2, 5, none, some ⟨some 2, none, none⟩⟩] ∧
      ∃ first rest, chunks = first :: rest ∧ (first.choices ≠ [] ∨ first.usage.isSome) := by
  intro s chunks
  have hresponses : [mixedText, "?", pairText, rollText, refusalText].filterMap Response.ofText? =
      [mixedResponse, pairResponse, rollResponse, refusalResponse] := by
    have hnoise : Response.ofText? "?" = none := by cbv
    simp [ofText?_mixedText, ofText?_pairText, ofText?_rollText, ofText?_refusalText, hnoise]
  have hconserved :=
    s.responses_conserved [mixedText, "?", pairText, rollText, refusalText]
  rw [hresponses] at hconserved
  obtain ⟨hcontent, hreasoning, ⟨shown, hshown, himages⟩, -, -, -, -⟩ := hconserved 1
  obtain ⟨hblank, -, ⟨files, hfiles, hreferences⟩, hcalls, hfinishes, husages, hsaid⟩ :=
    hconserved 0
  obtain ⟨first, rest, hchunks⟩ : ∃ first rest, chunks = first :: rest := by
    simp only [chunks, Stream.chunksFrom_payload, hresponses]
    exact ⟨_, _, rfl⟩
  have hfirst : first ∈ chunks := by simp [hchunks]
  refine ⟨hcontent.trans (by decide), hreasoning.trans (by decide), himages.trans ?_,
    hblank.trans (by decide), hreferences.trans ?_, hcalls, hfinishes.trans (by decide),
    husages.trans (by decide), first, rest, hchunks, (hsaid first hfirst).1⟩
  · have hdata : Media.normalizeBase64 "aGk" = some "aGk=" := by decide
    change List.Forall₂ Medium.Shown [.data ⟨"", "aGk"⟩] shown at hshown
    cases hshown with
    | cons hpicture hnone =>
      cases hnone
      cases hpicture with
      | data h =>
        rw [hdata] at h
        cases h
        rfl
      | dropped h =>
        rw [hdata] at h
        cases h
  · change List.Forall₂ Medium.Shown [.file ⟨"", "gs://a/b"⟩] files at hfiles
    cases hfiles with
    | cons hfile hnone =>
      cases hnone
      cases hfile
      rfl

end ChatDialect.Vertex
