import Mathlib.Data.List.Forall2
import Mathlib.Data.List.ReduceOption
import ChatDialect.Proofs.Chat.Feed
import ChatDialect.Vertex.ToChat

/-! What parts hold, field by field: the part of an item has that item in one field and nothing in the
others, and the texts, media and calls of a list of parts are read off their fields. -/
namespace ChatDialect

theorem Text.join_eq_empty {texts : List String} :
    String.join texts = "" ↔ ∀ s ∈ texts, s = "" := by
  induction texts with
  | nil => exact iff_of_true rfl (List.forall_mem_nil _)
  | cons s texts ih =>
    rw [String.join_cons, String.append_eq_empty_iff, ih, List.forall_mem_cons]

namespace Vertex

/-- What is said in one part. -/
inductive Item where
  | text (s : String)
  | data (mimeType base64 : String)
  | file (mimeType uri : String)
  | call (name : String) (args : Json)

/-- The part that says an item and nothing else. -/
def Item.part : Item → Part
  | .text s =>
    { text := some s, thought := none, inlineData := none, fileData := none, functionCall := none,
      functionResponse := none, thoughtSignature := none }
  | .data mimeType base64 =>
    { text := none, thought := none, inlineData := some { mimeType, data := base64 },
      fileData := none, functionCall := none, functionResponse := none, thoughtSignature := none }
  | .file mimeType uri =>
    { text := none, thought := none, inlineData := none, fileData := some { mimeType, uri },
      functionCall := none, functionResponse := none, thoughtSignature := none }
  | .call name args =>
    { text := none, thought := none, inlineData := none, fileData := none,
      functionCall := some { name, args }, functionResponse := none, thoughtSignature := none }

/-- The texts of the parts that are thoughts, or of those that are none. -/
def textsOf (thought : Bool) (parts : List Part) : List String :=
  (parts.filter (·.thought.getD false == thought)).filterMap (·.text)

theorem answerOf_eq (parts : List Part) : answerOf parts = String.join (textsOf false parts) := by
  unfold answerOf textsOf
  rw [List.filterMap_filter]
  congr 2
  funext p
  cases h : p.thought.getD false <;> simp [Part.answer?, Part.isThought, h]

theorem reasoningOf_eq (parts : List Part) :
    reasoningOf parts = String.join (textsOf true parts) := by
  unfold reasoningOf textsOf
  rw [List.filterMap_filter]
  congr 2
  funext p
  cases h : p.thought.getD false <;> simp [Part.reasoning?, Part.isThought, h]

/-- Something that a part shows. -/
inductive Medium where
  | data (b : Blob)
  | file (f : FileUri)

def Part.media (p : Part) : List Medium :=
  (p.inlineData.map .data).toList ++ (p.fileData.map .file).toList

/-- The image that shows a medium. Data that is no base64 shows nothing. -/
inductive Medium.Shown : Medium → Option Chat.Image → Prop
  | data {b : Blob} {data : String} (h : Media.normalizeBase64 b.data = some data) :
    Shown (.data b) (some
      { b64Json := some data, url := none
        mimeType := if b.mimeType = "" then none else some b.mimeType, revisedPrompt := none })
  | dropped {b : Blob} (h : Media.normalizeBase64 b.data = none) : Shown (.data b) none
  | file (f : FileUri) :
    Shown (.file f) (some
      { b64Json := none, url := some f.uri
        mimeType := if f.mimeType = "" then none else some f.mimeType, revisedPrompt := none })

/-- The image of a medium. -/
def Medium.image? : Medium → Option Chat.Image
  | .data b => b.image?
  | .file f => some f.image

theorem Medium.shown_image? : (m : Medium) → m.Shown m.image?
  | .file f => .file f
  | .data b => by
    rw [image?, Blob.image?]
    cases h : Media.normalizeBase64 b.data with
    | none => exact .dropped h
    | some data => exact .data h

theorem Part.images_eq (p : Part) : p.images = p.media.filterMap Medium.image? := by
  unfold images media
  rw [List.filterMap_append]
  congr 1
  · cases p.inlineData with
    | none => rfl
    | some b =>
      change b.image?.toList = [Medium.data b].filterMap Medium.image?
      rw [List.filterMap_cons]
      cases h : b.image? <;> simp [Medium.image?, h]
  · cases p.fileData <;> rfl

theorem shown_images (parts : List Part) : ∃ images,
    List.Forall₂ Medium.Shown (parts.flatMap (·.media)) images ∧
      imagesOf parts = images.reduceOption := by
  refine ⟨(parts.flatMap (·.media)).map Medium.image?, ?_, ?_⟩
  · rw [List.forall₂_map_right_iff, List.forall₂_same]
    intro m _
    exact m.shown_image?
  · unfold imagesOf List.reduceOption
    simp only [Part.images_eq]
    rw [List.filterMap_map, List.filterMap_flatMap]
    rfl

/-- A part shows nothing if it has no file and its data is no base64. -/
theorem Part.images_eq_nil {p : Part} :
    p.images = [] ↔
      (∀ b ∈ p.inlineData, Media.normalizeBase64 b.data = none) ∧ p.fileData = none := by
  unfold images Blob.image?
  rw [List.append_eq_nil_iff, Option.toList_eq_nil_iff, Option.toList_eq_nil_iff,
    Option.bind_eq_none_iff, Option.map_eq_none_iff]
  simp only [Option.map_eq_none_iff, Option.mem_def]

/-- A part that leaves nothing to answer with: its text is empty or a thought, its data is no
base64, and there is neither a file nor a call. -/
structure Part.Mute (p : Part) : Prop where
  text : ∀ s ∈ p.text, s = "" ∨ p.thought = some true
  data : ∀ b ∈ p.inlineData, Media.normalizeBase64 b.data = none
  file : p.fileData = none
  call : p.functionCall = none

/-- Whether a part does not even think. -/
def Part.isSilent (p : Part) : Bool :=
  p.text.all (· = "") && p.inlineData.all (fun b => (Media.normalizeBase64 b.data).isNone) &&
    p.fileData.isNone && p.functionCall.isNone

theorem Part.mute_iff {p : Part} :
    p.Mute ↔ (∀ s ∈ p.answer?, s = "") ∧ p.images = [] ∧ p.functionCall = none := by
  have htext : (∀ s ∈ p.answer?, s = "") ↔ ∀ s ∈ p.text, s = "" ∨ p.thought = some true := by
    rcases h : p.thought with _ | _ | _ <;> simp [answer?, isThought, h]
  rw [htext, images_eq_nil]
  constructor
  · rintro ⟨text, data, file, call⟩
    exact ⟨text, ⟨data, file⟩, call⟩
  · rintro ⟨text, ⟨data, file⟩, call⟩
    exact ⟨text, data, file, call⟩

theorem Part.isSilent_iff {p : Part} :
    p.isSilent ↔ p.Mute ∧ ∀ s ∈ p.reasoning?, s = "" := by
  have htext : (∀ s ∈ p.text, s = "") ↔
      (∀ s ∈ p.text, s = "" ∨ p.thought = some true) ∧ ∀ s ∈ p.reasoning?, s = "" := by
    rcases h : p.thought with _ | _ | _ <;> simp [reasoning?, isThought, h]
  rw [isSilent, Bool.and_eq_true, Bool.and_eq_true, Bool.and_eq_true, Option.all_eq_true,
    Option.all_eq_true, Option.isNone_iff_eq_none, Option.isNone_iff_eq_none]
  simp only [decide_eq_true_eq, Option.isNone_iff_eq_none]
  constructor
  · rintro ⟨⟨⟨text, data⟩, file⟩, call⟩
    exact ⟨⟨(htext.mp text).1, data, file, call⟩, (htext.mp text).2⟩
  · rintro ⟨⟨text, data, file, call⟩, thought⟩
    exact ⟨⟨⟨htext.mpr ⟨text, thought⟩, data⟩, file⟩, call⟩

theorem join_filterMap_eq_empty {said : Part → Option String} {parts : List Part} :
    String.join (parts.filterMap said) = "" ↔ ∀ p ∈ parts, ∀ s ∈ said p, s = "" := by
  rw [Text.join_eq_empty]
  simp only [List.mem_filterMap, Option.mem_def]
  exact ⟨fun h p hp s hs => h s ⟨p, hp, hs⟩, fun h s ⟨p, hp, hs⟩ => h p hp s hs⟩

/-- There is nothing to answer with if and only if every part is mute. -/
theorem mute_iff (parts : List Part) :
    (answerOf parts = "" ∧ imagesOf parts = [] ∧ (callsOf parts).isEmpty) ↔
      ∀ p ∈ parts, p.Mute := by
  rw [answerOf, join_filterMap_eq_empty, imagesOf, List.flatMap_eq_nil_iff, List.isEmpty_iff,
    callsOf, List.filterMap_eq_nil_iff]
  simp only [Part.mute_iff]
  constructor
  · rintro ⟨htext, himages, hcalls⟩ p hp
    exact ⟨htext p hp, himages p hp, hcalls p hp⟩
  · intro h
    exact ⟨fun p hp => (h p hp).1, fun p hp => (h p hp).2.1, fun p hp => (h p hp).2.2⟩

/-- There is nothing to say if and only if every part is silent. -/
theorem silent_iff (parts : List Part) :
    (answerOf parts = "" ∧ reasoningOf parts = "" ∧ imagesOf parts = [] ∧
      (callsOf parts).isEmpty) ↔ parts.all (·.isSilent) := by
  rw [and_left_comm, mute_iff, reasoningOf, join_filterMap_eq_empty, List.all_eq_true]
  simp only [Part.isSilent_iff]
  constructor
  · rintro ⟨hthoughts, hmute⟩ p hp
    exact ⟨hmute p hp, hthoughts p hp⟩
  · intro h
    exact ⟨fun p hp => (h p hp).2, fun p hp => (h p hp).1⟩

end Vertex
end ChatDialect
