import ChatDialect.Proofs.Chat.Arguments
import ChatDialect.Proofs.Chat.Feed
import ChatDialect.Proofs.Conversation
import ChatDialect.Proofs.Requests
import ChatDialect.Proofs.Responses
import ChatDialect.Proofs.Vertex.Choices

/-! What an assistant said comes back when a provider answers with the very items that it was sent:
the text, and the calls with their arguments. Anthropic keeps the ids of the calls; Vertex has none,
so new ones are drawn. -/
namespace ChatDialect

open Json Json.Codec

namespace Chat

/-- The arguments are an object without floating-point numbers, at most a hundred levels deep. -/
def ToolCall.Travels (call : ToolCall) : Prop :=
  ∃ fields, value.read (Utf8.ofString call.function.arguments) = .ok (.obj fields) ∧
    (Json.obj fields).isExact ∧ (Json.obj fields).depth ≤ 100

/-- The same function is called with the same arguments, which may be spelled differently. -/
structure ToolCall.Agrees (sent got : ToolCall) : Prop where
  name : got.function.name = sent.function.name
  arguments : value.read (Utf8.ofString got.function.arguments) =
    value.read (Utf8.ofString sent.function.arguments)

/-- What a choice says is what the message said. -/
structure Message.ReturnsAs (m : Message) (choice : Choice) : Prop where
  content : choice.message.content = some (String.join (Content.fragments m.content))
  calls : List.Forall₂ ToolCall.Agrees (m.toolCalls.getD []) (choice.message.toolCalls.getD [])

/-- Texts of the assistant, and calls that travel. -/
structure Message.Travels (m : Message) : Prop where
  role : m.role = .assistant
  texts : ∀ b ∈ Content.blocksOf m.content, b.isText
  calls : ∀ call ∈ m.toolCalls.getD [], call.Travels

theorem ToolCall.Travels.parse {call : ToolCall} (h : call.Travels) :
    (Arguments.parse call.function.arguments).Travels 100 := by
  obtain ⟨fields, hread, hexact, hdepth⟩ := h
  rw [Arguments.parse_of_read hread]
  exact ⟨hexact, normal_of_read hread, hdepth⟩

theorem ToolCall.Travels.agrees {call : ToolCall} (h : call.Travels) (id : String) :
    call.Agrees (.ofFunction id call.function.name
      (Arguments.print (Arguments.parse call.function.arguments))) := by
  have harguments := h.parse.faithful.mono (show 100 ≤ nestingLimit by decide)
  obtain ⟨fields, hread, -⟩ := h
  rw [Arguments.parse_of_read hread] at harguments ⊢
  exact ⟨rfl, (Arguments.read_print harguments).trans hread.symm⟩

theorem Message.Travels.items {m : Message} (h : m.Travels) {β : Type} (R : Rendering β) :
    R.items m =
      (Content.fragments m.content).map R.text ++ (m.toolCalls.getD []).map R.call := by
  have htexts : ∀ b ∈ m.said, b.isText := fun b hb => h.texts b (List.mem_of_mem_filter hb)
  rw [R.items_of_texts htexts, Message.called, if_pos h.role]

theorem Message.Travels.speaks {m : Message} (h : m.Travels) {β : Type} (R : Rendering β) :
    R.speaks m ↔ Content.fragments m.content ≠ [] ∨ m.toolCalls.getD [] ≠ [] := by
  rw [← Bool.not_eq_false, ← R.items_eq_nil, h.items R, List.append_eq_nil_iff, List.map_eq_nil_iff,
    List.map_eq_nil_iff]
  tauto

end Chat

open Chat (Content)

namespace Anthropic

/-- The blocks for a message as they stand in a reply. -/
def replyOf (m : Chat.Message) : List ReplyBlock :=
  (Content.fragments m.content).map .text ++ (m.toolCalls.getD []).map fun call =>
    .toolUse call.id call.function.name (Chat.Arguments.parse call.function.arguments)

theorem encodeItems_replyOf {m : Chat.Message} (h : m.Travels) :
    ReplyBlock.codec.encodeItems (replyOf m) =
      ContentBlock.codec.encodeItems (rendering.items m) := by
  rw [h.items rendering, replyOf]
  apply encodeItems_congr
  refine List.rel_append ?_ ?_
  · rw [List.forall₂_map_left_iff, List.forall₂_map_right_iff, List.forall₂_same]
    exact fun _ _ => rfl
  · rw [List.forall₂_map_left_iff, List.forall₂_map_right_iff, List.forall₂_same]
    exact fun _ _ => rfl

theorem replyOf_faithful {m : Chat.Message} (h : m.Travels) :
    ∀ b ∈ replyOf m, ReplyBlock.codec.Faithful 101 b := by
  intro b hb
  rcases List.mem_append.mp hb with hb | hb
  · obtain ⟨s, -, rfl⟩ := List.mem_map.mp hb
    exact ReplyBlock.text_faithful s 100
  · obtain ⟨call, hcall, rfl⟩ := List.mem_map.mp hb
    exact ReplyBlock.toolUse_faithful _ _ (h.calls call hcall).parse

theorem textOf_replyOf (m : Chat.Message) :
    textOf (replyOf m) = String.join (Content.fragments m.content) := by
  have htexts (texts : List String) :
      (texts.map ReplyBlock.text).filterMap (·.text?) = texts := by
    rw [List.filterMap_map]
    exact List.filterMap_some
  rw [textOf, replyOf, List.filterMap_append, htexts, List.filterMap_map]
  simp [Function.comp_def, ReplyBlock.text?]

theorem toolCallsOf_replyOf (m : Chat.Message) :
    toolCallsOf (replyOf m) = (m.toolCalls.getD []).map fun call =>
      .ofFunction call.id call.function.name
        (Chat.Arguments.print (Chat.Arguments.parse call.function.arguments)) := by
  simp [toolCallsOf, replyOf, List.filterMap_map, ReplyBlock.toolCall?]

/-- The turn of a message that says something stands behind those of the messages before it. -/
theorem getElem?_turnsOf {m : Chat.Message} (before after : List Chat.Message)
    (hrole : m.role = .assistant) (hspeaks : rendering.speaks m) :
    (turnsOf (before ++ m :: after))[(turnsOf before).length]? =
      some ⟨.assistant, rendering.items m⟩ := by
  have hinstruction : m.role.isInstruction = false := by
    rw [hrole]
    rfl
  rw [turnsOf_eq, turnsOf_eq, List.length_map, List.getElem?_map,
    rendering.getElem?_spoken before after hinstruction hspeaks, Option.map_some, hrole]
  rfl

theorem encode_turn {content : List ContentBlock} {blocks : List Json}
    (h : ContentBlock.codec.encodeItems content = some blocks) :
    Message.codec.encode ⟨.assistant, content⟩ =
      some (.obj [("role", .str "assistant"), ("content", .arr blocks)]) := by
  simp [Message.codec, Codec.record, Fields.encode, Field.required, Codec.list, h, Role.codec,
    Codec.name, Role.name]

/-- The blocks of a message stand in the request in its place. -/
theorem item?_turn {r : Chat.Request} {before after : List Chat.Message} {m : Chat.Message}
    {model : String} {doc : Json} {blocks : List Json}
    (hmessages : r.messages = before ++ m :: after) (hrole : m.role = .assistant)
    (hdoc : Request.codec.encode (Request.ofChat r model) = some doc)
    (hblocks : ContentBlock.codec.encodeItems (turnContent m) = some blocks) (hsome : blocks ≠ []) :
    doc.item? "messages" (turnsOf before).length =
      some (.obj [("role", .str "assistant"), ("content", .arr blocks)]) := by
  have hspeaks : rendering.speaks m := by
    rw [← Bool.not_eq_false, ← rendering.items_eq_nil, ← turnContent_eq]
    intro hnil
    rw [hnil] at hblocks
    exact hsome (Option.some.inj hblocks).symm
  have hturns : (Request.ofChat r model).messages = turnsOf (before ++ m :: after) :=
    congrArg turnsOf hmessages
  rw [Request.item?_messages hdoc, hturns, getElem?_turnsOf before after hrole hspeaks,
    Option.bind_some, ← turnContent_eq, encode_turn hblocks]

/-- A reply with the blocks of a message gives back what the message said. -/
theorem reply_returns {m : Chat.Message} (hm : m.Travels) {blocks : List Json}
    (hblocks : ContentBlock.codec.encodeItems (turnContent m) = some blocks) (reply : Response)
    (chosen : String) (now : Int64) :
    let answered := { reply with content := replyOf m }
    ∃ response, Response.codec.encode answered = some response ∧
      response.get? "content" = some (.arr blocks) ∧
      Response.codec.read response.bytes = .ok answered ∧
      ∃ choice, (answered.toChat chosen now).choices = [choice] ∧ m.ReturnsAs choice ∧
        (choice.message.toolCalls.getD []).map (·.id) = (m.toolCalls.getD []).map (·.id) := by
  intro answered
  have hfaithful : Response.codec.Faithful nestingLimit answered :=
    (Response.codec_faithful (r := answered) (replyOf_faithful hm)).mono (by decide)
  obtain ⟨response, hresponse, -⟩ := id hfaithful
  obtain ⟨-, -, hread⟩ := hfaithful.read_write hresponse
  refine ⟨response, hresponse, ?_, hread, _, rfl, ⟨?_, ?_⟩, ?_⟩
  · rw [turnContent_eq, ← encodeItems_replyOf hm] at hblocks
    rw [Response.get?_content hresponse]
    simp [answered, Codec.list, hblocks]
  · exact congrArg some (textOf_replyOf m)
  · simp only [Response.reply, Chat.listed?_getD, answered, toolCallsOf_replyOf]
    rw [List.forall₂_map_right_iff, List.forall₂_same]
    intro call hcall
    exact (hm.calls call hcall).agrees call.id
  · simp [Response.reply, Chat.listed?_getD, answered, toolCallsOf_replyOf, Function.comp_def,
      Chat.ToolCall.ofFunction]

end Anthropic

namespace Vertex

theorem items_faithful {m : Chat.Message} (h : m.Travels) :
    ∀ p ∈ rendering.items m, Part.codec.Faithful 102 p := by
  intro p hp
  rw [h.items rendering] at hp
  rcases List.mem_append.mp hp with hp | hp
  · obtain ⟨s, -, rfl⟩ := List.mem_map.mp hp
    exact Part.text_faithful s 101
  · obtain ⟨call, hcall, rfl⟩ := List.mem_map.mp hp
    exact Part.call_faithful _ (h.calls call hcall).parse

/-- The turn of a message that says something stands behind those of the messages before it. -/
theorem getElem?_turnsOf {m : Chat.Message} (before after : List Chat.Message)
    (hrole : m.role = .assistant) (hspeaks : rendering.speaks m) :
    (turnsOf (before ++ m :: after))[(turnsOf before).length]? =
      some ⟨some "model", rendering.items m⟩ := by
  have hinstruction : m.role.isInstruction = false := by
    rw [hrole]
    rfl
  rw [turnsOf_eq, turnsOf_eq, List.length_map, List.getElem?_map,
    rendering.getElem?_spoken before after hinstruction hspeaks, Option.map_some, hrole]
  rfl

/-- The turn of a message stands in the request in its place. -/
theorem item?_turn {r : Chat.Request} {before after : List Chat.Message} {m : Chat.Message}
    {model : String} {doc : Json} (hmessages : r.messages = before ++ m :: after)
    (hrole : m.role = .assistant) (hspeaks : rendering.speaks m)
    (hdoc : Request.codec.encode (Request.ofChat r model) = some doc) :
    doc.item? "contents" (turnsOf before).length =
      Content.codec.encode ⟨some "model", rendering.items m⟩ := by
  have hturns : (Request.ofChat r model).contents = turnsOf (before ++ m :: after) :=
    congrArg turnsOf hmessages
  rw [Request.item?_contents hdoc, hturns, getElem?_turnsOf before after hrole hspeaks,
    Option.bind_some]

section Answer
variable {m : Chat.Message} (hm : m.Travels)
include hm

theorem answerOf_items :
    answerOf (rendering.items m) = String.join (Content.fragments m.content) := by
  have htexts (texts : List String) :
      (texts.map rendering.text).filterMap (·.answer?) = texts := by
    rw [List.filterMap_map]
    exact List.filterMap_some
  have hcalls (calls : List Chat.ToolCall) :
      (calls.map rendering.call).filterMap (·.answer?) = [] := by
    rw [List.filterMap_map]
    exact List.filterMap_eq_nil_iff.mpr fun _ _ => rfl
  rw [hm.items rendering, answerOf, List.filterMap_append, htexts, hcalls, List.append_nil]

theorem callsOf_items :
    callsOf (rendering.items m) = (m.toolCalls.getD []).map fun call =>
      ⟨call.function.name, Chat.Arguments.parse call.function.arguments⟩ := by
  have htexts (texts : List String) : callsOf (texts.map rendering.text) = [] := by
    rw [callsOf, List.filterMap_map]
    exact List.filterMap_eq_nil_iff.mpr fun _ _ => rfl
  have hcalls (calls : List Chat.ToolCall) :
      callsOf (calls.map rendering.call) = calls.map fun call =>
        ⟨call.function.name, Chat.Arguments.parse call.function.arguments⟩ := by
    rw [callsOf, List.filterMap_map, ← List.filterMap_eq_map]
    rfl
  rw [hm.items rendering, ← hcalls, callsOf, List.filterMap_append]
  exact congrArg (· ++ _) (htexts _)

/-- There is something to say, so no placeholder stands for it. -/
theorem contentOf_items
    (hspoke : Content.fragments m.content ≠ [] ∨ m.toolCalls.getD [] ≠ [])
    (finish : Chat.FinishReason) :
    contentOf (rendering.items m) finish = String.join (Content.fragments m.content) := by
  have hanswer := answerOf_items hm
  unfold contentOf
  rw [if_neg, hanswer]
  rintro ⟨hempty, -, hcalls⟩
  rcases hspoke with htexts | hsent
  · exact Chat.Content.join_ne_empty htexts (hanswer.symm.trans hempty)
  · rw [callsOf_items hm, List.isEmpty_iff, List.map_eq_nil_iff] at hcalls
    exact hsent hcalls

theorem forall₂_nameCalls (ids : Ids) :
    List.Forall₂ Chat.ToolCall.Agrees (m.toolCalls.getD [])
      (nameCalls ids (callsOf (rendering.items m))).1 := by
  rw [callsOf_items hm]
  have hcalls := hm.calls
  generalize m.toolCalls.getD [] = calls at hcalls
  induction calls generalizing ids with
  | nil => exact .nil
  | cons call calls ih =>
    obtain ⟨hcall, hcalls⟩ := List.forall_mem_cons.mp hcalls
    exact .cons (hcall.agrees _) (ih _ hcalls)

/-- A choice of the parts for a message gives back what the message said. -/
theorem choice_returns (hspoke : Content.fragments m.content ≠ [] ∨ m.toolCalls.getD [] ≠ [])
    {c : Candidate} (hparts : c.parts = rendering.items m) (position : Nat) (ids : Ids) :
    let choice := (c.choice position ids).1
    m.ReturnsAs choice ∧ (choice.message.toolCalls.getD []).map (·.id) =
      (List.range' ids.next (m.toolCalls.getD []).length).map ids.source.toolCall := by
  have hcalls := callsOf_items hm
  have hcontent := contentOf_items hm hspoke c.finish
  refine ⟨⟨?_, ?_⟩, ?_⟩
  · rw [Candidate.choice, hparts, hcontent]
  · rw [Candidate.choice, hparts, Chat.listed?_getD]
    exact forall₂_nameCalls hm ids
  · rw [Candidate.choice, hparts, Chat.listed?_getD, map_id_nameCalls, hcalls, List.length_map]

end Answer

theorem encode_turn {parts : List Part} {items : Json} (h : Part.codec.list.encode parts = some items) :
    Content.codec.encode ⟨some "model", parts⟩ =
      some (.obj [("role", .str "model"), ("parts", items)]) := by
  simp [Content.codec, Codec.record, Fields.encode, Field.optional, Field.withDefault, h,
    Codec.option, Codec.string]

/-- A reply with the parts for a message as a candidate's content gives back what the message
said. -/
theorem reply_returns {m : Chat.Message} (hm : m.Travels)
    (hspoke : Content.fragments m.content ≠ [] ∨ m.toolCalls.getD [] ≠ []) {parts : Json}
    (hparts : Part.codec.list.encode (rendering.items m) = some parts) (reply : Response)
    (candidate : Candidate) (role : Option String) {earlier later : List Candidate}
    (hothers : ∀ other ∈ earlier ++ later, Candidate.codec.Faithful (nestingLimit - 2) other)
    (chosen : String) (now : Int64) (ids : Ids) :
    let answer := { candidate with content := some ⟨role, rendering.items m⟩ }
    let answered := { reply with candidates := earlier ++ answer :: later }
    ∃ response, Response.codec.encode answered = some response ∧
      ((response.item? "candidates" earlier.length).bind (·.get? "content")).bind
        (·.get? "parts") = some parts ∧
      Response.codec.read response.bytes = .ok answered ∧
      ∃ choice first, (answered.toChat chosen now ids).1.choices[earlier.length]? = some choice ∧
        m.ReturnsAs choice ∧ ids.next ≤ first ∧
        (choice.message.toolCalls.getD []).map (·.id) =
          (List.range' first (m.toolCalls.getD []).length).map ids.source.toolCall := by
  intro answer answered
  have hplace : answered.candidates[earlier.length]? = some answer := by
    simp [answered]
  have hanswer : Candidate.codec.Faithful (nestingLimit - 2) answer := by
    have hcontent : ∀ content ∈ answer.content, Content.codec.Faithful 104 content := by
      rintro _ ⟨⟩
      exact Content.codec_faithful (items_faithful hm)
    exact (Candidate.codec_faithful hcontent).mono (by decide)
  have hcandidates : ∀ c ∈ answered.candidates, Candidate.codec.Faithful (nestingLimit - 2) c := by
    intro c hc
    rcases List.mem_append.mp hc with hc | hc
    · exact hothers c (List.mem_append_left _ hc)
    · rcases List.mem_cons.mp hc with rfl | hc
      · exact hanswer
      · exact hothers c (List.mem_append_right _ hc)
  have hfaithful : Response.codec.Faithful nestingLimit answered :=
    Response.codec_faithful hcandidates
  obtain ⟨response, hresponse, -⟩ := id hfaithful
  obtain ⟨-, -, hread⟩ := hfaithful.read_write hresponse
  have hany : answered.candidates.isEmpty = false := by simp [answered]
  have hchoices := answered.toChat_choices chosen now ids
  rw [hany, if_neg nofun] at hchoices
  obtain ⟨first, hfirst, hchoice⟩ := getElem?_choicesFrom hplace 0 (answered.idsLeft ids)
  obtain ⟨hreturns, hids⟩ :=
    choice_returns hm hspoke (c := answer) rfl (0 + earlier.length) { ids with next := first }
  refine ⟨response, hresponse, ?_, hread, _, first, ?_, hreturns,
    Nat.le_trans (answered.le_idsLeft ids) hfirst, hids⟩
  · obtain ⟨doc, hdoc, -⟩ := hanswer
    obtain ⟨content, hcontent⟩ := Content.codec_total ⟨role, rendering.items m⟩
    rw [Response.item?_candidates hresponse, hplace, Option.bind_some, hdoc, Option.bind_some,
      Candidate.get?_content hdoc]
    exact (congrArg (Option.bind · _) hcontent).trans ((Content.get?_parts hcontent).trans hparts)
  · rw [hchoices, hchoice]
    rfl

end Vertex

/-- What an assistant said in texts and calls comes back from either provider. The blocks that
Anthropic gets, fed back as the content of any response, say the same text and make the same calls
under the same ids. The parts that Vertex gets, fed back as the content of any candidate, do so
under new ids, if anything was said at all. -/
theorem assistant_returns {body : List UInt8} {r : Chat.Request} {m : Chat.Message}
    (before after : List Chat.Message) (model : String) (hbody : Chat.Request.codec.read body = .ok r)
    (hmessages : r.messages = before ++ m :: after) (hm : m.Travels) :
    (∃ doc blocks, Provider.anthropic.writeRequest body model = .ok (Json.bytes doc) ∧
      Anthropic.ContentBlock.codec.encodeItems (Anthropic.turnContent m) = some blocks ∧
      (blocks ≠ [] → doc.item? "messages" (Anthropic.turnsOf before).length =
        some (.obj [("role", .str "assistant"), ("content", .arr blocks)])) ∧
      ∀ (reply : Anthropic.Response) (chosen : String) (now : Int64), ∃ content response,
        let answered := { reply with content }
        Anthropic.Response.codec.encode answered = some response ∧
        response.get? "content" = some (.arr blocks) ∧
        Anthropic.Response.codec.read response.bytes = .ok answered ∧
        ∃ choice, (answered.toChat chosen now).choices = [choice] ∧ m.ReturnsAs choice ∧
          (choice.message.toolCalls.getD []).map (·.id) = (m.toolCalls.getD []).map (·.id)) ∧
    (Content.fragments m.content ≠ [] ∨ m.toolCalls.getD [] ≠ [] →
      ∃ doc parts, Provider.vertex.writeRequest body model = .ok (Json.bytes doc) ∧
      doc.item? "contents" (Vertex.turnsOf before).length =
        some (.obj [("role", .str "model"), ("parts", parts)]) ∧
      ∀ (reply : Vertex.Response) (candidate : Vertex.Candidate) (role : Option String)
        (earlier later : List Vertex.Candidate) (chosen : String) (now : Int64) (ids : Ids),
        (∀ other ∈ earlier ++ later, Vertex.Candidate.codec.Faithful (nestingLimit - 2) other) →
        ∃ items response,
          let answer := { candidate with content := some ⟨role, items⟩ }
          let answered := { reply with candidates := earlier ++ answer :: later }
          Vertex.Response.codec.encode answered = some response ∧
          ((response.item? "candidates" earlier.length).bind (·.get? "content")).bind
            (·.get? "parts") = some parts ∧
          Vertex.Response.codec.read response.bytes = .ok answered ∧
          ∃ choice first,
            (answered.toChat chosen now ids).1.choices[earlier.length]? = some choice ∧
            m.ReturnsAs choice ∧ ids.next ≤ first ∧
            (choice.message.toolCalls.getD []).map (·.id) =
              (List.range' first (m.toolCalls.getD []).length).map ids.source.toolCall) := by
  constructor
  · obtain ⟨doc, hdoc⟩ := Anthropic.Request.codec_total (Anthropic.Request.ofChat r model)
    obtain ⟨blocks, hblocks⟩ :=
      Anthropic.ContentBlock.codec_total.encodeItems (Anthropic.turnContent m)
    refine ⟨doc, blocks, Anthropic.writeRequest_eq hbody hdoc, hblocks, ?_, ?_⟩
    · exact Anthropic.item?_turn hmessages hm.role hdoc hblocks
    · intro reply chosen now
      exact ⟨_, Anthropic.reply_returns hm hblocks reply chosen now⟩
  · intro hspoke
    have hspeaks : Vertex.rendering.speaks m := (hm.speaks Vertex.rendering).mpr hspoke
    obtain ⟨doc, hdoc⟩ := Vertex.Request.codec_total (Vertex.Request.ofChat r model)
    obtain ⟨parts, hparts⟩ := list_total Vertex.Part.codec_total (Vertex.rendering.items m)
    refine ⟨doc, parts, Vertex.writeRequest_eq hbody hdoc, ?_, ?_⟩
    · exact (Vertex.item?_turn hmessages hm.role hspeaks hdoc).trans (Vertex.encode_turn hparts)
    · intro reply candidate role earlier later chosen now ids hothers
      exact ⟨_, Vertex.reply_returns hm hspoke hparts reply candidate role hothers chosen now ids⟩

/-- A question to a tool about the weather. -/
def weatherCall : Chat.Message where
  role := .assistant
  content := some (.text "Looking.")
  toolCalls := some [.ofFunction "call_1" "weather"
    (Chat.Arguments.print (.obj [("city", .str "London"), ("days", .num (.int (.ofUInt64 2)))]))]
  toolCallId := none
  name := none

/-- A request with the question, as it is written. -/
def weatherRequest : Json :=
  .obj [("messages", .arr [.obj [("role", .str "assistant"), ("content", .str "Looking."),
    ("tool_calls", .arr [.obj [("id", .str "call_1"), ("function", .obj [("name", .str "weather"),
      ("arguments", .str (Chat.Arguments.print
        (.obj [("city", .str "London"), ("days", .num (.int (.ofUInt64 2)))])))])]])]])]

theorem read_weatherRequest :
    Chat.Request.codec.read weatherRequest.bytes = .ok (.ofMessages "" [weatherCall]) := by
  rw [Codec.read, readDocument_bytes (by rfl)]
  rfl

theorem weatherCall_travels : weatherCall.Travels where
  role := rfl
  texts := by
    intro b hb
    rw [List.mem_singleton.mp hb]
    rfl
  calls := by
    intro call hcall
    rw [List.mem_singleton.mp hcall]
    have harguments : Json.Travels 100
        (.obj [("city", .str "London"), ("days", .num (.int (.ofUInt64 2)))]) :=
      ⟨rfl, by rfl, by decide⟩
    exact ⟨_, Chat.Arguments.read_print (harguments.faithful.mono (by decide)), harguments.exact,
      harguments.depth_le⟩

theorem weatherCall_returns :
    (Chat.Request.codec.read weatherRequest.bytes = .ok (.ofMessages "" [weatherCall]) ∧
      weatherCall.Travels) ∧
    (∃ answered choice, (Anthropic.Response.toChat answered "" 0).choices = [choice] ∧
      weatherCall.ReturnsAs choice) ∧
    ∃ answered choice,
      (Vertex.Response.toChat answered "" 0 (.ofSource (.sequential "r"))).1.choices[0]? =
        some choice ∧ weatherCall.ReturnsAs choice := by
  obtain ⟨⟨_, _, -, -, -, hblocks⟩, hparts⟩ :=
    assistant_returns [] [] "" read_weatherRequest rfl weatherCall_travels
  obtain ⟨_, _, -, -, hparts⟩ := hparts (.inr (by decide))
  obtain ⟨_, _, -, -, -, choice, hchoice, hreturns, -⟩ :=
    hblocks ⟨"", "", "", [], "", none, none, Anthropic.Usage.zero⟩ "" 0
  obtain ⟨_, _, -, -, -, choice', _, hchoice', hreturns', -⟩ :=
    hparts ⟨[], none, none, none, none⟩ ⟨none, none, none⟩ none [] [] "" 0
      (.ofSource (.sequential "r")) nofun
  exact ⟨⟨read_weatherRequest, weatherCall_travels⟩, ⟨_, choice, hchoice, hreturns⟩,
    ⟨_, choice', hchoice', hreturns'⟩⟩

end ChatDialect
