import ChatDialect.Proofs.Chat.Settling
import ChatDialect.Proofs.Requests
import ChatDialect.Proofs.Text.Cuts
import ChatDialect.Proofs.Vertex.Parts

/-! Image requests for Gemini models. Such a request is the chat request that it is rewritten as,
also after this was written and read, and it asks for what a prediction request would ask for. -/
namespace ChatDialect

open Json Json.Codec Json.Field

namespace Chat

theorem Message.ofText_faithful (role : Role) (text : String) (d : Nat) :
    codec.Faithful (d + 1) (ofText role text) := by
  refine record_faithful (by decide) rfl
    ⟨required_faithful _ (Role.codec_faithful role d), ?_, rfl, rfl, rfl, trivial⟩
  refine option_faithful rfl rfl (.inl rfl) ?_ ?_
  · rintro c ⟨⟩ hnull
    cases hnull
  · rintro c ⟨⟩
    exact buffered_faithful rfl rfl (Nat.zero_le d) rfl

end Chat

namespace Vertex

open Chat (ImageRequest)

theorem isGeminiModel_iff {model : String} :
    isGeminiModel model ↔ "gemini".toList <:+: model.toList.map Char.toLower :=
  Text.hasInfix_iff

/-- The number of images is the one asked for, between 1 and 10. -/
theorem toNat_sampleCount (n : Option Int64) :
    ((sampleCount n).toNat : Int) = max 1 (min 10 ((n.map Int64.toInt).getD 1)) := by
  cases n with
  | none => rfl
  | some n =>
    have hmax : maxSamples < n ↔ 10 < n.toInt := Int64.lt_iff_toInt_lt
    have hpos : 0 < n ↔ 0 < n.toInt := Int64.lt_iff_toInt_lt
    simp only [sampleCount, hmax, hpos, Option.map_some, Option.getD_some]
    split
    · change (10 : Int) = _
      omega
    · split
      · rw [Nat.toUInt32, UInt32.toNat_ofNat_of_lt' (by simp only [UInt32.size]; omega)]
        omega
      · change (1 : Int) = _
        omega

theorem sampleCount_range (n : Option Int64) : 1 ≤ sampleCount n ∧ sampleCount n ≤ 10 := by
  have hcount := toNat_sampleCount n
  rw [UInt32.le_iff_toNat_le, UInt32.le_iff_toNat_le]
  change 1 ≤ _ ∧ _ ≤ 10
  omega

theorem imageExtensions_exact (size : Option String) : (imageExtensions size).IsExact := by
  refine ⟨?_, rfl⟩
  rintro g ⟨⟩
  rfl

theorem imageExtensions_faithful (size : Option String) :
    Chat.ExtraBody.codec.Faithful 3 (imageExtensions size) := by
  refine openRecord_faithful (by decide) rfl ⟨?_, rfl, trivial⟩ .nil nofun rfl
  exact optional_faithful _ (record_solid _ _ _) fun g hg =>
    Chat.GenerationOverrides.codec_faithful ((imageExtensions_exact size).generationConfig g hg)

section Request

variable (r : ImageRequest) (model : String)

theorem imageChat_exact : (imageChat r model).IsExact where
  messages := by
    intro m hm
    cases List.mem_singleton.mp hm
    rintro c ⟨⟩
    trivial
  temperature := rfl
  topP := rfl
  frequencyPenalty := rfl
  presencePenalty := rfl
  responseFormat := nofun
  tools := nofun
  toolChoice := nofun
  extraBody := by
    rintro e ⟨⟩
    exact imageExtensions_exact r.size

/-- The chat request keeps all that it says when it is written and read. -/
theorem imageChat_faithful : Chat.Request.codec.Faithful 6 (imageChat r model) := by
  refine Chat.Request.codec_faithful_of_parts (imageChat_exact r model) ?_ nofun nofun rfl ?_
  · intro m hm
    cases List.mem_singleton.mp hm
    exact Chat.Message.ofText_faithful .user r.prompt 3
  · rintro e ⟨⟩
    exact (imageExtensions_faithful r.size).mono (by decide)

end Request

/-- A request that asks for the images that a prediction request asks for, and for nothing else. -/
structure AsksAlike (request : Request) (predict : PredictRequest) : Prop where
  count : (request.generationConfig.bind (·.candidateCount)).getD 1 =
    predict.parameters.sampleCount
  count_range : 1 ≤ predict.parameters.sampleCount ∧ predict.parameters.sampleCount ≤ 10
  aspectRatio : (request.generationConfig.bind (·.imageConfig)).bind (·.aspectRatio) =
    some predict.parameters.aspectRatio
  prompt : ∃ prompt, predict.instances = [⟨prompt⟩] ∧
    (prompt ≠ "" →
      request.contents = [{ role := some "user", parts := [(Item.text prompt).part] }]) ∧
    (prompt = "" → request.contents = [])
  alone : request.systemInstruction = none ∧ request.tools = none ∧ request.toolConfig = none

section Translation

variable (r : ImageRequest) (model model' : String)

theorem config_imageChat : (Request.ofChat (imageChat r model) model').generationConfig =
    some (configOf (imageChat r model) (targetModel model' model)) := by
  have hset : (configOf (imageChat r model) (targetModel model' model)).imageConfig.isNone =
      false := rfl
  refine if_neg ?_
  change ¬(configOf (imageChat r model) (targetModel model' model)).isEmpty
  simp only [GenerationConfig.isEmpty, hset, Bool.and_false, Bool.false_and, Bool.false_eq_true,
    not_false_eq_true]

theorem count_imageChat :
    ((Request.ofChat (imageChat r model) model').generationConfig.bind
      (·.candidateCount)).getD 1 = sampleCount r.n := by
  rw [config_imageChat]
  change (if 1 < sampleCount r.n then some (sampleCount r.n) else none).getD 1 = _
  split
  · rfl
  · next hone => exact UInt32.le_antisymm (sampleCount_range r.n).1 (UInt32.not_lt.mp hone)

/-- The prompt is the only turn, unless there is none. -/
theorem contents_imageChat : (Request.ofChat (imageChat r model) model').contents =
    if r.prompt = "" then []
    else [{ role := some "user", parts := [(Item.text r.prompt).part] }] := by
  change [Chat.Message.ofText .user r.prompt].filterMap turn? = _
  have hparts : turnParts (.ofText .user r.prompt) =
      ((Text.nonEmpty? r.prompt).map Part.ofText).toList := rfl
  by_cases h : r.prompt = ""
  · have hnone : turn? (.ofText .user r.prompt) = none := by
      rw [turn?, hparts, Text.nonEmpty?, if_pos h]
      rfl
    rw [if_pos h, List.filterMap_cons_none hnone, List.filterMap_nil]
  · have hsome : turn? (.ofText .user r.prompt) =
        some ⟨some "user", [(Item.text r.prompt).part]⟩ := by
      rw [turn?, hparts, Text.nonEmpty?, if_neg h]
      rfl
    rw [if_neg h, List.filterMap_cons_some hsome, List.filterMap_nil]

theorem asksAlike_imageChat :
    AsksAlike (Request.ofChat (imageChat r model) model') (PredictRequest.ofChat r) where
  count := count_imageChat r model model'
  count_range := sampleCount_range r.n
  aspectRatio := by
    rw [config_imageChat]
    rfl
  prompt := ⟨r.prompt, rfl, fun h => (contents_imageChat r model model').trans (if_neg h),
    fun h => (contents_imageChat r model model').trans (if_pos h)⟩
  alone := ⟨rfl, rfl, rfl⟩

end Translation

/-- The body of an image request for a Gemini model is the body that a chat request has which asks
for the images, after it was written and read. It asks for as many images of the same shape as a
prediction request would, with the same prompt. -/
theorem imageRequest_as_chat {body : List UInt8} {r : ImageRequest} {model : String}
    (hbody : ImageRequest.codec.read body = .ok r)
    (hmodel : "gemini".toList <:+: model.toList.map Char.toLower) :
    ∃ text out request, Chat.Request.codec.write (imageChat r model) = some text ∧
      Provider.vertex.writeImageRequest body model = .ok out ∧
      Provider.vertex.writeRequest text model = .ok out ∧
      Request.codec.write request = some out ∧ AsksAlike request (PredictRequest.ofChat r) := by
  have hsome : model ≠ "" := by
    rintro rfl
    exact absurd (List.infix_nil.mp hmodel) (by decide)
  have htarget : targetModel model (r.model.getD "") = model := if_neg hsome
  obtain ⟨text, htext, hread⟩ := ((imageChat_faithful r model).mono (by decide)).readsBack
  obtain ⟨doc, hdoc⟩ := Request.codec_total (Request.ofChat (imageChat r model) model)
  have hwrite : Request.codec.write (Request.ofChat (imageChat r model) model) = some doc.bytes :=
    congrArg (Option.map Json.bytes) hdoc
  refine ⟨text, doc.bytes, Request.ofChat (imageChat r model) model, htext, ?_,
    writeRequest_eq hread hdoc, hwrite, asksAlike_imageChat r model model⟩
  simp only [Provider.writeImageRequest, Payload.read, hbody, Except.mapError, bind, Except.bind,
    htarget, if_pos (isGeminiModel_iff.mpr hmodel), writeBody, hwrite]

/-- A request for more images than there can be, with blanks around the size. -/
def pictures : ImageRequest where
  prompt := "Cat"
  model := none
  n := some 15
  size := some " 1792x1024"
  quality := none
  responseFormat := none
  user := none

theorem pictures_as_chat :
    let body : Json := .obj
      [("prompt", .str "Cat"), ("n", .num (.int (.ofInt64 15))), ("size", .str " 1792x1024")]
    ImageRequest.codec.read body.bytes = .ok pictures ∧
      "gemini".toList <:+: "My-Gemini".toList.map Char.toLower ∧
      ∃ text out request, Chat.Request.codec.write (imageChat pictures "My-Gemini") = some text ∧
        Provider.vertex.writeImageRequest body.bytes "My-Gemini" = .ok out ∧
        Provider.vertex.writeRequest text "My-Gemini" = .ok out ∧
        Request.codec.write request = some out ∧
        AsksAlike request ⟨[⟨"Cat"⟩], ⟨10, "16:9", "block_medium_and_above", "allow_adult"⟩⟩ := by
  intro body
  have hread : ImageRequest.codec.read body.bytes = .ok pictures := read_bytes rfl (by cbv)
  have hmodel : "gemini".toList <:+: "My-Gemini".toList.map Char.toLower := by decide
  exact ⟨hread, hmodel, imageRequest_as_chat hread hmodel⟩

end Vertex
end ChatDialect
