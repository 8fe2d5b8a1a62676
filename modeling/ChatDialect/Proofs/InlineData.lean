import ChatDialect.Proofs.Documents
import ChatDialect.Proofs.Text.Base64

/-! What the providers get as inline data. Of audio it is always base64, since all else is dropped; of
a data URL it is what stands behind the comma, base64 or not. -/
namespace ChatDialect

namespace Media

/-- Whether a text is base64, padded or not, with blanks around it or not. -/
def IsBase64 (data : String) : Prop := (normalizeBase64 data).isSome

instance (data : String) : Decidable (IsBase64 data) :=
  inferInstanceAs (Decidable ((normalizeBase64 data).isSome = true))

theorem IsBase64.of_normalized {data text : String} (h : normalizeBase64 data = some text) :
    IsBase64 text := by
  rw [IsBase64, normalizeBase64_normalized h]
  rfl

/-- The data that a URL holds itself. -/
def inline? (url : String) : Option DataUrl :=
  match classify url with
  | .inline data => some data
  | .remote _ => none
  | .unsupported => none

theorem inline?_eq_some {url : String} {data : DataUrl} :
    inline? url = some data ↔ classify url = .inline data := by
  rw [inline?]
  cases classify url <;> simp

end Media

open Media (inline? IsBase64)

namespace Chat

/-- The data URL of an image, a video or a file. -/
def Block.dataUrl? : Block → Option Media.DataUrl
  | .image m => inline? m.url
  | .video m => inline? m.url
  | .file f => f.url?.bind inline?
  | .text _ => none
  | .audio _ => none
  | .ignored _ => none

/-- The data URL of an image, or of a file that is a PDF. -/
def Block.depicted? : Block → Option Media.DataUrl
  | .image m => inline? m.url
  | .file f => (f.url?.bind inline?).filter (·.mimeType = pdf)
  | .video _ => none
  | .text _ => none
  | .audio _ => none
  | .ignored _ => none

/-- The blocks that the turns of a conversation are made of. -/
def Request.blocks (r : Request) : List Block :=
  (r.messages.filter (!·.role.isInstruction)).flatMap (·.said)

theorem Rendering.filterMap_spoken {β γ : Type} (R : Rendering β) {view : β → Option γ}
    (hcall : ∀ c, view (R.call c) = none) (r : Request) :
    ((R.spoken r.messages).flatMap R.items).filterMap view =
      r.blocks.filterMap fun b => (R.block? b).bind view := by
  rw [R.flatMap_spoken, Request.blocks, List.filterMap_flatMap, List.filterMap_flatMap]
  simp only [R.filterMap_items hcall]

end Chat

namespace Anthropic

def MediaSource.data? : MediaSource → Option String
  | .base64 _ data => some data
  | .url _ => none

/-- The data of a source that is given in base64. -/
def ContentBlock.data? : ContentBlock → Option String
  | .image source => source.data?
  | .document source => source.data?
  | .text _ => none
  | .toolUse _ _ _ => none

def Request.inlined (r : Request) : List String :=
  (r.messages.flatMap (·.content)).filterMap ContentBlock.data?

theorem data?_mediaSource? (url : String) :
    (mediaSource? url).bind MediaSource.data? = (inline? url).map (·.data) := by
  rw [mediaSource?, inline?]
  cases Media.classify url with
  | inline data => rfl
  | unsupported => rfl
  | remote place =>
    dsimp only
    split <;> rfl

theorem data?_ofBlock? (b : Chat.Block) :
    (ofBlock? b).bind ContentBlock.data? = b.depicted?.map (·.data) := by
  cases b with
  | image m =>
    rw [ofBlock?, Option.bind_map]
    exact data?_mediaSource? m.url
  | file f =>
    rw [Chat.Block.depicted?]
    cases hurl : f.url? with
    | none =>
      rw [ofBlock?, document?, hurl]
      rfl
    | some url =>
      rw [ofBlock?_file hurl, Option.bind_some, fileType, mediaSource?, inline?]
      cases Media.classify url with
      | inline data =>
        rw [Option.filter_some]
        by_cases htype : data.mimeType = pdf
        · simp only [htype, if_true, decide_true]
          rfl
        · simp only [htype, if_false, decide_false]
          rfl
      | unsupported => simp
      | remote place =>
        dsimp only
        split_ifs <;> rfl
  | text s =>
    rw [ofBlock?, Option.bind_map]
    exact Option.bind_eq_none_iff.mpr fun _ _ => rfl
  | audio a => rfl
  | video m => rfl
  | ignored kind => rfl

theorem inlined_ofChat (r : Chat.Request) (model : String) :
    (Request.ofChat r model).inlined = r.blocks.filterMap fun b => b.depicted?.map (·.data) := by
  have hturns : (turnsOf r.messages).flatMap (·.content) =
      (rendering.spoken r.messages).flatMap rendering.items := by
    rw [turnsOf_eq, List.flatMap_map]
  have hcall (c : Chat.ToolCall) : ContentBlock.data? (rendering.call c) = none := rfl
  rw [Request.inlined, Request.ofChat, hturns, rendering.filterMap_spoken hcall]
  exact List.filterMap_congr fun b _ => data?_ofBlock? b

end Anthropic

namespace Vertex

/-- The inline data of a request. -/
def Request.blobs (r : Request) : List Blob :=
  ((r.systemInstruction.toList ++ r.contents).flatMap (·.parts)).filterMap (·.inlineData)

/-- Audio in the padded form of its base64 text. -/
def recording? : Chat.Block → Option Blob
  | .audio a => (Media.normalizeBase64 a.data).map (⟨Media.ofAudioFormat a.format, ·⟩)
  | .text _ => none
  | .image _ => none
  | .video _ => none
  | .file _ => none
  | .ignored _ => none

theorem blob_mediaPart? (url : String) (format : Option String) :
    (mediaPart? url format).bind (·.inlineData) =
      (inline? url).map fun d => ⟨d.mimeType, d.data⟩ := by
  rw [mediaPart?, inline?]
  cases Media.classify url <;> rfl

theorem blob_ofBlock? (b : Chat.Block) :
    (ofBlock? b).bind (·.inlineData) =
      (b.dataUrl?.map fun d => ⟨d.mimeType, d.data⟩).or (recording? b) := by
  cases b with
  | image m => exact (blob_mediaPart? m.url m.format).trans Option.or_none.symm
  | video m => exact (blob_mediaPart? m.url _).trans Option.or_none.symm
  | file f =>
    rw [ofBlock?, Chat.Block.dataUrl?, recording?, Option.or_none]
    cases f.url? with
    | none => rfl
    | some url => exact blob_mediaPart? url f.format
  | audio a =>
    rw [ofBlock?, recording?]
    cases Media.normalizeBase64 a.data <;> rfl
  | text s =>
    rw [ofBlock?, Option.bind_map]
    exact Option.bind_eq_none_iff.mpr fun _ _ => rfl
  | ignored kind => rfl

theorem blobs_ofChat (r : Chat.Request) (model : String) :
    (Request.ofChat r model).blobs =
      r.blocks.filterMap fun b =>
        (b.dataUrl?.map fun d => ⟨d.mimeType, d.data⟩).or (recording? b) := by
  have hsystem : ((systemOf r.messages).toList.flatMap (·.parts)).filterMap (·.inlineData) = [] := by
    rw [systemOf, Option.toList_map, List.flatMap_map, List.filterMap_flatMap]
    exact List.flatMap_eq_nil_iff.mpr fun _ _ => rfl
  have hturns : (turnsOf r.messages).flatMap (·.parts) =
      (rendering.spoken r.messages).flatMap rendering.items := by
    rw [turnsOf_eq, List.flatMap_map]
  have hcall (c : Chat.ToolCall) : (rendering.call c).inlineData = none := rfl
  rw [Request.blobs, Request.ofChat, List.flatMap_append, List.filterMap_append, hsystem,
    List.nil_append, hturns, rendering.filterMap_spoken hcall]
  exact List.filterMap_congr fun b _ => blob_ofBlock? b

theorem base64_of_recording {b : Chat.Block} {blob : Blob} (h : recording? b = some blob) :
    IsBase64 blob.data := by
  cases b with
  | audio a =>
    obtain ⟨data, hdata, rfl⟩ := Option.map_eq_some_iff.mp h
    exact .of_normalized hdata
  | _ => cases h

theorem ofBlock?_dataUrl {b : Chat.Block} {d : Media.DataUrl} (h : b.dataUrl? = some d) :
    ofBlock? b = some (Item.data d.mimeType d.data).part := by
  have hmedia {url : String} {format : Option String} (hurl : inline? url = some d) :
      mediaPart? url format = some (Item.data d.mimeType d.data).part := by
    rw [mediaPart?, Media.inline?_eq_some.mp hurl]
    rfl
  cases b with
  | image m => exact hmedia h
  | video m => exact hmedia h
  | file f =>
    obtain ⟨url, hgiven, hurl⟩ := Option.bind_eq_some_iff.mp h
    rw [ofBlock?, hgiven]
    exact hmedia hurl
  | _ => cases h

end Vertex

/-- Inline data is base64 but for what stands in a data URL: that is sent as it is, so all inline data
of a request is base64 if and only if the data URLs that a provider gets are. Audio is dropped if it
is not base64; a data URL never is for what it holds. -/
theorem inline_base64_iff (r : Chat.Request) (model : String) :
    ((∀ blob ∈ (Vertex.Request.ofChat r model).blobs, IsBase64 blob.data) ↔
      ∀ b ∈ r.blocks, ∀ d, b.dataUrl? = some d → IsBase64 d.data) ∧
    ((∀ data ∈ (Anthropic.Request.ofChat r model).inlined, IsBase64 data) ↔
      ∀ b ∈ r.blocks, ∀ d, b.depicted? = some d → IsBase64 d.data) ∧
    (∀ b d, b.dataUrl? = some d →
      Vertex.ofBlock? b = some (Vertex.Item.data d.mimeType d.data).part) ∧
    (∀ b d, b.depicted? = some d →
      ∃ item, Anthropic.ofBlock? b = some item ∧ item.data? = some d.data) ∧
    ∀ a, Vertex.ofBlock? (.audio a) = none ↔ ¬ IsBase64 a.data := by
  refine ⟨⟨?_, ?_⟩, ⟨?_, ?_⟩, fun b d h => Vertex.ofBlock?_dataUrl h, ?_, ?_⟩
  · intro hblobs b hb d hd
    refine hblobs ⟨d.mimeType, d.data⟩ ?_
    rw [Vertex.blobs_ofChat]
    exact List.mem_filterMap.mpr ⟨b, hb, by rw [hd]; rfl⟩
  · intro hurls blob hblob
    rw [Vertex.blobs_ofChat] at hblob
    obtain ⟨b, hb, hsource⟩ := List.mem_filterMap.mp hblob
    rcases Option.or_eq_some_iff.mp hsource with hurl | ⟨-, hrecording⟩
    · obtain ⟨d, hd, rfl⟩ := Option.map_eq_some_iff.mp hurl
      exact hurls b hb d hd
    · exact Vertex.base64_of_recording hrecording
  · intro hinlined b hb d hd
    refine hinlined d.data ?_
    rw [Anthropic.inlined_ofChat]
    exact List.mem_filterMap.mpr ⟨b, hb, by rw [hd]; rfl⟩
  · intro hurls data hdata
    rw [Anthropic.inlined_ofChat] at hdata
    obtain ⟨b, hb, hsource⟩ := List.mem_filterMap.mp hdata
    obtain ⟨d, hd, rfl⟩ := Option.map_eq_some_iff.mp hsource
    exact hurls b hb d hd
  · intro b d hd
    have hdata := Anthropic.data?_ofBlock? b
    rw [hd] at hdata
    exact Option.bind_eq_some_iff.mp hdata
  · intro a
    rw [Vertex.ofBlock?, Option.map_eq_none_iff, IsBase64, Option.not_isSome_iff_eq_none]

/-- An image whose data is no base64. -/
def brokenPicture : Chat.MediaUrl := ⟨"data:image/png;base64,not base64!!", none, none⟩

def brokenPictureRequest : Chat.Request :=
  .ofMessages "m"
    [{ Chat.Message.ofText .user "" with content := some (.blocks [.image brokenPicture]) }]

theorem brokenPicture_kept :
    let d : Media.DataUrl := ⟨"image/png", "not base64!!"⟩
    ((Chat.Block.image brokenPicture).dataUrl? = some d ∧
      (Chat.Block.image brokenPicture).depicted? = some d ∧ ¬ IsBase64 d.data) ∧
    Vertex.ofBlock? (.image brokenPicture) =
      some (Vertex.Item.data "image/png" "not base64!!").part ∧
    (∃ item, Anthropic.ofBlock? (.image brokenPicture) = some item ∧
      item.data? = some "not base64!!") ∧
    (¬ ∀ blob ∈ (Vertex.Request.ofChat brokenPictureRequest "").blobs, IsBase64 blob.data) ∧
    ¬ ∀ data ∈ (Anthropic.Request.ofChat brokenPictureRequest "").inlined, IsBase64 data := by
  intro d
  have hurl : (Chat.Block.image brokenPicture).dataUrl? = some d := by rfl
  have hdepicted : (Chat.Block.image brokenPicture).depicted? = some d := by rfl
  have hbroken : ¬ IsBase64 d.data := by decide
  have hblocks : Chat.Block.image brokenPicture ∈ brokenPictureRequest.blocks :=
    List.mem_singleton_self _
  obtain ⟨hblobs, hinlined, hpart, hitem, -⟩ := inline_base64_iff brokenPictureRequest ""
  refine ⟨⟨hurl, hdepicted, hbroken⟩, hpart _ d hurl, hitem _ d hdepicted, ?_, ?_⟩
  · intro hall
    exact hbroken (hblobs.mp hall _ hblocks d hurl)
  · intro hall
    exact hbroken (hinlined.mp hall _ hblocks d hdepicted)

/-- What is no base64 goes to both providers. -/
theorem brokenPicture_sent :
    (∃ blob ∈ (Vertex.Request.ofChat brokenPictureRequest "").blobs, ¬ IsBase64 blob.data) ∧
      ∃ data ∈ (Anthropic.Request.ofChat brokenPictureRequest "").inlined, ¬ IsBase64 data := by
  have hbroken : ¬ IsBase64 "not base64!!" := by decide
  constructor
  · exact ⟨⟨"image/png", "not base64!!"⟩, by decide, hbroken⟩
  · exact ⟨"not base64!!", by decide, hbroken⟩

end ChatDialect
