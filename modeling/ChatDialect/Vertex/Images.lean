import ChatDialect.Chat.Picture
import ChatDialect.Vertex.FromChat
import ChatDialect.Vertex.Predict
import ChatDialect.Vertex.ToChat

/-!
Image generation on Vertex. Imagen models take a prediction request; Gemini models make images in a
chat, so that an image request becomes a chat request for them.
-/
namespace ChatDialect.Vertex

def maxSamples : Int64 := 10

/-- The number of images asked for, between 1 and 10. -/
def sampleCount : Option Int64 → UInt32
  | none => 1
  | some n => if maxSamples < n then 10 else if 0 < n then n.toInt.toNat.toUInt32 else 1

/-- The aspect ratio of a size in pixels; a size that is not listed counts as square. -/
def aspectRatio (size : Option String) : String :=
  match size.map Text.trim with
  | some "1792x1024" => "16:9"
  | some "1024x1792" => "9:16"
  | some "1024x768" => "4:3"
  | some "1536x1024" => "4:3"
  | some "768x1024" => "3:4"
  | some "1024x1536" => "3:4"
  | _ => "1:1"

/-- The size class of a size in pixels, by its longer side. -/
def imageSizeHint (size : String) : Option String := do
  let (width, height) ← Text.splitFirst (fun c => c == 'x' || c == 'X') (Text.trimChars size.toList)
  let width ← Text.natBelow? UInt32.size (Text.trimChars width)
  let height ← Text.natBelow? UInt32.size (Text.trimChars height)
  let longest := max width height
  some (if longest ≤ 1792 then "1K" else if longest ≤ 3072 then "2K" else "4K")

def isGeminiModel (model : String) : Bool :=
  Text.hasInfix "gemini".toList (model.toList.map Char.toLower)

/-- The filter is stricter for images of high quality. -/
def safetyFilterLevel (quality : Option String) : String :=
  if quality.any (Text.sameLetters · "hd") then "block_low_and_above" else "block_medium_and_above"

def PredictRequest.ofChat (r : Chat.ImageRequest) : PredictRequest where
  instances := [{ prompt := r.prompt }]
  parameters := {
    sampleCount := sampleCount r.n
    aspectRatio := aspectRatio r.size
    safetyFilterLevel := safetyFilterLevel r.quality
    personGeneration := "allow_adult" }

/-- The extensions of a chat request that ask for images of a size. -/
def imageExtensions (size : Option String) : Chat.ExtraBody where
  generationConfig := some { Chat.GenerationOverrides.none with
    imageConfig := some {
      aspectRatio := some (aspectRatio size)
      imageSize := size.bind imageSizeHint } }
  modalities := none
  other := []

/-- The chat request that asks a Gemini model for images. -/
def imageChat (r : Chat.ImageRequest) (model : String) : Chat.Request :=
  let count := sampleCount r.n
  { Chat.Request.ofMessages model [.ofText .user r.prompt] with
    n := if 1 < count then some count else none
    modalities := some ["image", "text"]
    user := r.user
    extraBody := some (imageExtensions r.size) }

/-- The images of a prediction; one without bytes has none. -/
def PredictResponse.toChat (r : PredictResponse) (now : Int64) : Chat.ImagesResponse where
  created := now
  data := r.predictions.filterMap fun p => p.bytesBase64.map fun data => .inline data p.mimeType

/-- Gives the first image a text. -/
def captionFirst (text : String) : List Chat.Image → List Chat.Image
  | [] => []
  | image :: images =>
    if text = "" then image :: images else { image with revisedPrompt := some text } :: images

/-- The images of all candidates; what they say goes with the first one. -/
def Response.toImages (r : Response) (now : Int64) : Chat.ImagesResponse :=
  let parts := r.candidates.flatMap (·.parts)
  { created := now, data := captionFirst (answerOf parts) (imagesOf parts) }

end ChatDialect.Vertex
