import ChatDialect.Proofs.Chat.Arguments
import ChatDialect.Proofs.Conversation
import ChatDialect.Proofs.Media.DataUrl
import ChatDialect.Proofs.Vertex.Parts

/-! What both providers can express they get alike: the same turns, item by item, and the same
tools. -/
namespace ChatDialect

/-- The blocks that no provider renders in a way of its own. -/
def Chat.Block.IsCommon : Block → Prop
  | .text _ => True
  | .image m => ¬ "file://".toList <+: (Text.trimChars m.url.toList).map Char.toLower
  | .ignored _ => True
  | .audio _ => False
  | .video _ => False
  | .file _ => False

/-- Items that say the same. -/
inductive Corresponds : Anthropic.ContentBlock → Vertex.Part → Prop
  | text (s : String) : Corresponds (.text s) (Vertex.Item.text s).part
  | data (mediaType data : String) :
    Corresponds (.image (.base64 mediaType data)) (Vertex.Item.data mediaType data).part
  | url (mediaType url : String) :
    Corresponds (.image (.url url)) (Vertex.Item.file mediaType url).part
  | call (id name : String) (fields : List (String × Json)) :
    Corresponds (.toolUse id name (.obj fields)) (Vertex.Item.call name (.obj fields)).part

/-- Turns of the same speaker that say the same. -/
structure TurnsCorrespond (turn : Anthropic.Message) (content : Vertex.Content) : Prop where
  role : content.role = some (if turn.role = .assistant then "model" else "user")
  items : List.Forall₂ Corresponds turn.content content.parts

theorem image_corresponds {m : Chat.MediaUrl}
    (h : ¬ "file://".toList <+: (Text.trimChars m.url.toList).map Char.toLower) :
    Option.Rel Corresponds (Anthropic.ofBlock? (.image m)) (Vertex.ofBlock? (.image m)) := by
  rw [Anthropic.ofBlock?, Vertex.ofBlock?, Anthropic.mediaSource?, Vertex.mediaPart?]
  cases hplace : Media.classify m.url with
  | inline data => exact .some (.data data.mimeType data.data)
  | unsupported => exact .none
  | remote url =>
    have hweb : (Text.afterIgnoringCase? "file://".toList url.toList).isSome = false := by
      rw [← Bool.not_eq_true, Text.isSome_afterIgnoringCase?, Media.toList_remote hplace]
      exact h
    dsimp only
    rw [hweb]
    exact .some (.url _ url)

theorem block_corresponds {b : Chat.Block} (h : b.IsCommon) :
    Option.Rel Corresponds (Anthropic.ofBlock? b) (Vertex.ofBlock? b) := by
  cases b with
  | text s =>
    rw [Anthropic.ofBlock?, Vertex.ofBlock?]
    cases Text.nonEmpty? s with
    | none => exact .none
    | some s => exact .some (.text s)
  | image m => exact image_corresponds h
  | ignored kind => exact .none
  | audio a => cases h
  | video m => cases h
  | file f => cases h

/-- Both get the object that the arguments stand for. -/
theorem call_corresponds (c : Chat.ToolCall) :
    Corresponds (Anthropic.ofToolCall c) (Vertex.ofToolCall c) := by
  obtain ⟨fields, hfields⟩ := Chat.Arguments.exists_fields c.function.arguments
  rw [Anthropic.ofToolCall, Vertex.ofToolCall, hfields]
  exact .call c.id c.function.name fields

theorem items_correspond {m : Chat.Message} (h : ∀ b ∈ m.said, b.IsCommon) :
    List.Forall₂ Corresponds (Anthropic.rendering.items m) (Vertex.rendering.items m) := by
  refine List.rel_append ?_ ?_
  · apply List.rel_filterMap (R := fun b b' => b = b' ∧ b.IsCommon)
    · rintro b _ ⟨rfl, hb⟩
      exact block_corresponds hb
    · rw [List.forall₂_same]
      intro b hb
      exact ⟨rfl, h b hb⟩
  · rw [List.forall₂_map_left_iff, List.forall₂_map_right_iff, List.forall₂_same]
    intro c _
    exact call_corresponds c

/-- Whether something is said does not depend on the provider, since the items correspond. -/
theorem turn_corresponds {m : Chat.Message} (h : ∀ b ∈ m.said, b.IsCommon) :
    Option.Rel TurnsCorrespond (Anthropic.turn? m) (Vertex.turn? m) := by
  have hitems := items_correspond h
  rw [Anthropic.turn?, Vertex.turn?, Anthropic.turnContent_eq, Vertex.turnParts_eq]
  have hempty : (Vertex.rendering.items m).isEmpty = (Anthropic.rendering.items m).isEmpty := by
    rw [Bool.eq_iff_iff, List.isEmpty_iff_length_eq_zero, List.isEmpty_iff_length_eq_zero,
      hitems.length_eq]
  simp only [hempty]
  cases (Anthropic.rendering.items m).isEmpty with
  | true => exact .none
  | false =>
    refine .some ⟨?_, hitems⟩
    cases m.role <;> rfl

theorem forall₂_turnsCorrespond {messages : List Chat.Message}
    (h : ∀ m ∈ messages, m.role.isInstruction = false → m.role ≠ .tool →
      ∀ b ∈ Chat.Content.blocksOf m.content, b.IsCommon) :
    List.Forall₂ TurnsCorrespond (Anthropic.turnsOf messages) (Vertex.turnsOf messages) := by
  have hsaid (m : Chat.Message) (hm : m ∈ messages.filter (!·.role.isInstruction)) :
      ∀ b ∈ m.said, b.IsCommon := by
    rw [List.mem_filter, Bool.not_eq_true'] at hm
    intro b hb
    rw [Chat.Message.said, List.mem_filter] at hb
    by_cases htool : m.role = .tool
    · cases b with
      | text s => trivial
      | _ => simp [htool, Chat.Block.isText] at hb
    · exact h m hm.1 hm.2 htool b hb.1
  apply List.rel_filterMap (R := fun m m' => m = m' ∧ ∀ b ∈ m.said, b.IsCommon)
  · rintro m _ ⟨rfl, hm⟩
    exact turn_corresponds hm
  · rw [List.forall₂_same]
    intro m hm
    exact ⟨rfl, hsaid m hm⟩

/-- What a tool is called and what is said of it. -/
theorem declared_alike {tools : Option (List Chat.Tool)}
    (h : ∀ tool ∈ tools.getD [], tool.kind = "function") :
    (((tools.map (·.map Anthropic.ofTool)).getD []).map fun t => (t.name, t.description)) =
      ((Vertex.toolsOf tools).getD []).flatMap fun t =>
        t.declarations.map fun f => (f.name, f.description) := by
  have hall : (tools.getD []).filter (·.kind = "function") = tools.getD [] :=
    List.filter_eq_self.mpr fun tool htool => decide_eq_true (h tool htool)
  rw [Vertex.toolsOf, hall]
  cases tools with
  | none => rfl
  | some tools =>
    cases tools with
    | nil => rfl
    | cons first rest => simp [Anthropic.ofTool, Vertex.declaration]

/-- Of conversations with texts, images that are no local files and calls both providers get the
same turns, item by item; of functions both get the same tools. -/
theorem requests_correspond (r : Chat.Request) (model : String)
    (h : ∀ m ∈ r.messages, m.role.isInstruction = false → m.role ≠ .tool →
      ∀ b ∈ Chat.Content.blocksOf m.content, b.IsCommon) :
    let a := Anthropic.Request.ofChat r model
    let v := Vertex.Request.ofChat r model
    List.Forall₂ TurnsCorrespond a.messages v.contents ∧
    ((∀ tool ∈ r.tools.getD [], tool.kind = "function") →
      ((a.tools.getD []).map fun t => (t.name, t.description)) =
        (v.tools.getD []).flatMap fun t => t.declarations.map fun f => (f.name, f.description)) :=
  ⟨forall₂_turnsCorrespond h, declared_alike⟩

/-- A picture in the request and one on the web, with blanks around its address. -/
def png : Chat.MediaUrl := ⟨"data:image/png;base64,AA==", none, none⟩

def page : Chat.MediaUrl := ⟨" HTTPS://a.b/c ", none, none⟩

def picturesRequest : Chat.Request :=
  { Chat.Request.ofMessages "m"
      [⟨.user, some (.blocks [.text "See", .image png, .image page]), none, none, none⟩,
        ⟨.assistant, none, some [⟨"call_1", "function", "f", ""⟩], none, none⟩] with
    tools := some [⟨"function", "f", none, none, none⟩] }

theorem pictures_correspond :
    let a := Anthropic.Request.ofChat picturesRequest ""
    let v := Vertex.Request.ofChat picturesRequest ""
    ((∀ m ∈ picturesRequest.messages, m.role.isInstruction = false → m.role ≠ .tool →
        ∀ b ∈ Chat.Content.blocksOf m.content, b.IsCommon) ∧
      ∀ tool ∈ picturesRequest.tools.getD [], tool.kind = "function") ∧
    List.Forall₂ TurnsCorrespond a.messages v.contents ∧
    a.messages.map (·.content) =
      [[.text "See", .image (.base64 "image/png" "AA=="), .image (.url "HTTPS://a.b/c")],
        [.toolUse "call_1" "f" (.obj [])]] ∧
    (v.contents.map (·.parts.map (·.text)) = [[some "See", none, none], [none]] ∧
      v.contents.map (·.parts.map (·.inlineData)) =
        [[none, some ⟨"image/png", "AA=="⟩, none], [none]] ∧
      v.contents.map (·.parts.map (·.fileData)) =
        [[none, none, some ⟨"application/octet-stream", "HTTPS://a.b/c"⟩], [none]] ∧
      v.contents.map (·.parts.map (·.functionCall)) =
        [[none, none, none], [some ⟨"f", .obj []⟩]]) ∧
    ((a.tools.getD []).map fun t => (t.name, t.description)) =
      (v.tools.getD []).flatMap fun t => t.declarations.map fun f => (f.name, f.description) := by
  intro a v
  have hpng : (Chat.Block.image png).IsCommon := by
    unfold Chat.Block.IsCommon
    decide
  have hpage : (Chat.Block.image page).IsCommon := by
    unfold Chat.Block.IsCommon
    decide
  have hcommon : ∀ m ∈ picturesRequest.messages, m.role.isInstruction = false → m.role ≠ .tool →
      ∀ b ∈ Chat.Content.blocksOf m.content, b.IsCommon := by
    intro m hm _ _ b hb
    simp only [picturesRequest, Chat.Request.ofMessages, List.mem_cons, List.not_mem_nil,
      or_false] at hm
    obtain rfl | rfl := hm
    · simp only [Chat.Content.blocksOf, List.mem_cons, List.not_mem_nil, or_false] at hb
      obtain rfl | rfl | rfl := hb
      · trivial
      · exact hpng
      · exact hpage
    · cases hb
  have htools : ∀ tool ∈ picturesRequest.tools.getD [], tool.kind = "function" := by
    intro tool htool
    cases htool with
    | head => rfl
    | tail _ h => cases h
  obtain ⟨hturns, hdeclared⟩ := requests_correspond picturesRequest "" hcommon
  exact ⟨⟨hcommon, htools⟩, hturns, by rfl, ⟨by decide, by decide, by decide, by rfl⟩,
    hdeclared htools⟩

end ChatDialect
