import ChatDialect.Proofs.Vertex.Answers
import ChatDialect.Vertex.Images

/-! The images of a response. The answer to an image request shows the ones that the choices of a
chat show, one after the other, and what all candidates say becomes the caption of the first. -/
namespace ChatDialect.Vertex

/-- The image without its caption. -/
def uncaptioned (image : Chat.Image) : Chat.Image := { image with revisedPrompt := none }

theorem revisedPrompt_of_mem {parts : List Part} {image : Chat.Image} (h : image ∈ imagesOf parts) :
    image.revisedPrompt = none := by
  obtain ⟨p, -, hp⟩ := List.mem_flatMap.mp h
  rw [p.images_eq] at hp
  obtain ⟨m, -, hm⟩ := List.mem_filterMap.mp hp
  have hshown := m.shown_image?
  rw [hm] at hshown
  cases hshown <;> rfl

theorem map_uncaptioned (parts : List Part) :
    (imagesOf parts).map uncaptioned = imagesOf parts := by
  have hsame : ∀ image ∈ imagesOf parts, uncaptioned image = image := by
    intro image h
    rw [uncaptioned, ← revisedPrompt_of_mem h]
  rw [List.map_congr_left hsame, List.map_id']

section Caption

variable {text : String} {images : List Chat.Image}

theorem map_captionFirst : (captionFirst text images).map uncaptioned = images.map uncaptioned := by
  cases images with
  | nil => rfl
  | cons image images =>
    rw [captionFirst]
    split <;> rfl

theorem tail_captionFirst : (captionFirst text images).tail = images.tail := by
  cases images with
  | nil => rfl
  | cons image images =>
    rw [captionFirst]
    split <;> rfl

theorem head?_captionFirst {image : Chat.Image}
    (hplain : ∀ image ∈ images, image.revisedPrompt = none)
    (h : (captionFirst text images).head? = some image) :
    image.revisedPrompt = if text = "" then none else some text := by
  cases images with
  | nil => cases h
  | cons first images =>
    rw [captionFirst] at h
    split at h
    · next hempty =>
      rw [if_pos hempty, ← Option.some.inj h]
      exact hplain first List.mem_cons_self
    · next hsome => rw [if_neg hsome, ← Option.some.inj h]

end Caption

theorem images_choicesFrom (position : Nat) (ids : Ids) (cs : List Candidate) :
    ((choicesFrom position ids cs).1.flatMap fun choice => choice.message.images.getD []) =
      imagesOf (cs.flatMap (·.parts)) := by
  induction cs generalizing position ids with
  | nil => rfl
  | cons c cs ih =>
    rw [choicesFrom, List.flatMap_cons, ih, List.flatMap_cons, imagesOf, imagesOf,
      List.flatMap_append]
    exact congrArg (· ++ _) (Chat.listed?_getD _)

theorem images_choices (r : Response) (model : String) (now : Int64) (ids : Ids) :
    ((r.toChat model now ids).1.choices.flatMap fun choice => choice.message.images.getD []) =
      imagesOf (r.candidates.flatMap (·.parts)) := by
  by_cases h : r.candidates = []
  · rw [choices_of_blank model now ids h, h]
    rfl
  · rw [choices_of_candidates model now ids h, images_choicesFrom]

/-- An image request is answered with the images of the choices that a chat has for the same
response: those that show its media, in order. The first one takes all that is said aloud as its
caption, if anything is, and no other has a caption. -/
theorem images_agree (r : Response) (model : String) (now now' : Int64) (ids : Ids) :
    let images := (r.toImages now).data
    let choices := (r.toChat model now' ids).1.choices
    let parts := r.candidates.flatMap (·.parts)
    let caption := String.join (textsOf false parts)
    images.map uncaptioned = choices.flatMap (fun choice => choice.message.images.getD []) ∧
    (∃ shown, List.Forall₂ Medium.Shown (parts.flatMap (·.media)) shown ∧
      images.map uncaptioned = shown.reduceOption) ∧
    (∀ image, images.head? = some image →
      image.revisedPrompt = if caption = "" then none else some caption) ∧
    ∀ image ∈ images.tail, image.revisedPrompt = none := by
  intro images choices parts caption
  have himages : images.map uncaptioned = imagesOf parts :=
    map_captionFirst.trans (map_uncaptioned parts)
  obtain ⟨shown, hshown, hall⟩ := shown_images parts
  refine ⟨himages.trans (images_choices r model now' ids).symm,
    ⟨shown, hshown, himages.trans hall⟩, fun image h => ?_, fun image h => ?_⟩
  · have hcaption : caption = answerOf parts := (answerOf_eq parts).symm
    rw [hcaption]
    exact head?_captionFirst (fun _ => revisedPrompt_of_mem) h
  · have htail : images.tail = (imagesOf parts).tail := tail_captionFirst
    rw [htail] at h
    exact revisedPrompt_of_mem (List.mem_of_mem_tail h)

/-- A thought and a picture in one candidate, text around data that is no base64 and a file in the
other. -/
def drawing : Response where
  candidates := [
    { content := some ⟨none, [{ (Item.text "A cat?").part with thought := some true },
        (Item.data "image/png" "AA").part]⟩
      finishReason := none, index := some 1 },
    { content := some ⟨none, [(Item.text "A ").part, (Item.data "" "A").part,
        (Item.file "" "gs://a/b").part, (Item.text "cat").part]⟩
      finishReason := none, index := some 0 }]
  usage := none
  modelVersion := none
  responseId := none
  promptFeedback := none

theorem drawing_captioned :
    (drawing.toImages 7).data.map (·.revisedPrompt) = [some "A cat", none] ∧
    ((drawing.toChat "" 7 (.ofSource (.sequential "r"))).1.choices.flatMap
        fun choice => choice.message.images.getD []) =
      [⟨some "AA==", none, some "image/png", none⟩, ⟨none, some "gs://a/b", none, none⟩] := by
  obtain ⟨himages, -, hfirst, htail⟩ :=
    images_agree drawing "" 7 7 (.ofSource (.sequential "r"))
  constructor
  · have hhead := hfirst _ rfl
    have hlast := htail _ (.head [])
    exact congrArg₂ (fun first last => [first, last]) hhead hlast
  · rw [← himages]
    rfl

end ChatDialect.Vertex
