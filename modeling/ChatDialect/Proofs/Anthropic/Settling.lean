import ChatDialect.Anthropic.Event
import ChatDialect.Anthropic.Prompt
import ChatDialect.Proofs.Json.Settling
import ChatDialect.Proofs.Responses

/-! What is read in the Anthropic dialect reads back from what is written of it: requests and
responses without floating-point numbers, and every event. The types that are not known here are
written under a name that no known type has. -/
namespace ChatDialect.Anthropic

open Json Json.Codec Json.Field

theorem SystemBlock.codec_faithful (b : SystemBlock) : codec.Faithful 1 b := by
  cases b with
  | text s =>
    exact tagged_faithful "text" (s, ()) rfl rfl (by decide) (by decide) rfl
      ⟨required_faithful _ (string_faithful s 0), trivial⟩

theorem MediaSource.codec_faithful (m : MediaSource) : codec.Faithful 1 m := by
  cases m with
  | base64 mediaType data =>
    exact tagged_faithful "base64" (mediaType, data, ()) rfl rfl (by decide) (by decide) rfl
      ⟨required_faithful _ (string_faithful mediaType 0),
        required_faithful _ (string_faithful data 0), trivial⟩
  | url u =>
    exact tagged_faithful "url" (u, ()) rfl rfl (by decide) (by decide) rfl
      ⟨required_faithful _ (string_faithful u 0), trivial⟩

namespace ContentBlock

/-- There is no floating-point number in the block. -/
def IsExact : ContentBlock → Prop
  | .toolUse _ _ input => input.isExact
  | _ => True

theorem reads_input {id name : String} {input : Json} {d : Nat}
    (h : codec.Reads (d + 1) (.toolUse id name input)) : Codec.value.Reads d input := by
  obtain ⟨v, hv, hreads⟩ := h.tagged
  simp only [Option.toList_none, List.append_nil, List.mem_cons, List.not_mem_nil, or_false] at hv
  rcases hv with rfl | rfl | rfl | rfl
  · obtain ⟨r, hr, -⟩ := hreads.row
    cases hr
  · obtain ⟨r, hr, -⟩ := hreads.row
    cases hr
  · obtain ⟨r, hr, -⟩ := hreads.row
    cases hr
  · obtain ⟨r, hr, -, -, hinput, -⟩ := hreads.row
    cases hr
    exact hinput.required

theorem codec_faithful {b : ContentBlock} {d : Nat} (h : codec.Reads (d + 2) b)
    (hexact : b.IsExact) : codec.Faithful (d + 2) b := by
  have hsource (m : MediaSource) : MediaSource.codec.Faithful (d + 1) m :=
    m.codec_faithful.mono (Nat.le_add_left 1 d)
  cases b with
  | text s =>
    exact tagged_faithful "text" (s, ()) rfl rfl (by decide) (by decide) rfl
      ⟨required_faithful _ (string_faithful s _), trivial⟩
  | image source =>
    exact tagged_faithful "image" (source, ()) rfl rfl (by decide) (by decide) rfl
      ⟨required_faithful _ (hsource source), trivial⟩
  | document source =>
    exact tagged_faithful "document" (source, ()) rfl rfl (by decide) (by decide) rfl
      ⟨required_faithful _ (hsource source), trivial⟩
  | toolUse id name input =>
    exact tagged_faithful "tool_use" (id, name, input, ()) rfl rfl (by decide) (by decide) rfl
      ⟨required_faithful _ (string_faithful id _), required_faithful _ (string_faithful name _),
        required_faithful _ ((reads_input h).value_faithful hexact), trivial⟩

end ContentBlock

theorem Role.codec_faithful (r : Role) (d : Nat) : codec.Faithful d r := by
  refine name_faithful d ?_
  cases r <;> rfl

/-- There is no floating-point number in the message. -/
def Message.IsExact (m : Message) : Prop := ∀ b ∈ m.content, b.IsExact

theorem Message.codec_faithful {m : Message} {d : Nat} (h : codec.Reads (d + 4) m)
    (hexact : m.IsExact) : codec.Faithful (d + 4) m := by
  obtain ⟨-, hcontent, -⟩ := h.record fun _ => rfl
  refine record_faithful (by decide) rfl ⟨?_, ?_, trivial⟩
  · exact required_faithful _ (Role.codec_faithful m.role _)
  · exact required_faithful _ (list_faithful fun b hb =>
      ContentBlock.codec_faithful (hcontent.required.list b hb) (hexact b hb))

theorem Tool.codec_faithful {t : Tool} {d : Nat} (h : codec.Reads (d + 1) t)
    (hexact : t.inputSchema.isExact) : codec.Faithful (d + 1) t := by
  obtain ⟨-, -, hschema, -⟩ := h.record fun _ => rfl
  refine record_faithful (by decide) rfl ⟨?_, ?_, ?_, trivial⟩
  · exact required_faithful _ (string_faithful t.name d)
  · exact optionalInPlace_text _
  · exact required_faithful _ (hschema.required.value_faithful hexact)

theorem Metadata.codec_faithful (m : Metadata) : codec.Faithful 1 m :=
  record_faithful (by decide) rfl ⟨optionalInPlace_text _, trivial⟩

namespace Request

/-- There is no floating-point number in the request. -/
structure IsExact (r : Request) : Prop where
  messages : ∀ m ∈ r.messages, m.IsExact
  temperature : r.temperature = none
  topP : r.topP = none
  tools : ∀ tools ∈ r.tools, ∀ tool ∈ tools, tool.inputSchema.isExact
  toolChoice : ∀ j ∈ r.toolChoice, j.isExact

/-- A system prompt without blocks is left out. -/
theorem system_faithful (blocks : List SystemBlock) (d : Nat) :
    ({ Field.withDefault "system" [] (.list SystemBlock.codec) with
      omitted := List.isEmpty }).Faithful (d + 2) blocks := by
  unfold Field.Faithful
  split
  · next homitted => exact congrArg some (List.isEmpty_iff.mp homitted).symm
  · exact list_faithful fun b _ => b.codec_faithful.mono (Nat.le_add_left 1 d)

theorem codec_faithful {r : Request} {d : Nat} (h : codec.Reads (d + 6) r) (hexact : r.IsExact) :
    codec.Faithful (d + 6) r := by
  obtain ⟨-, -, hmessages, -, -, -, -, htools, hchoice, -⟩ := h.record fun _ => rfl
  have hmessage (m : Message) (hm : m ∈ r.messages) : Message.codec.Faithful (d + 4) m :=
    Message.codec_faithful (hmessages.required.list m hm) (hexact.messages m hm)
  have htool (tools : List Tool) (hsome : tools ∈ r.tools) (tool : Tool) (hmem : tool ∈ tools) :
      Tool.codec.Faithful (d + 4) tool :=
    Tool.codec_faithful ((htools.optionalInPlace tools hsome).option.list tool hmem)
      (hexact.tools tools hsome tool hmem)
  refine record_faithful (by decide) rfl ⟨?_, ?_, ?_, ?_, ?_, ?_, ?_, ?_, ?_, ?_, ?_, trivial⟩
  · exact required_faithful _ (string_faithful r.model _)
  · exact required_faithful _ (uint64_faithful r.maxTokens _)
  · exact required_faithful _ (list_faithful hmessage)
  · exact system_faithful r.system _
  · exact optionalInPlace_faithful _ bool_solid fun b _ => bool_faithful b _
  · exact optionalInPlace_of_none _ hexact.temperature
  · exact optionalInPlace_of_none _ hexact.topP
  · exact optionalInPlace_faithful _ (list_solid _) fun tools hsome =>
      list_faithful (htool tools hsome)
  · exact optionalInPlace_value hchoice hexact.toolChoice
  · exact optionalInPlace_faithful _ (list_solid _) fun texts _ => strings_faithful texts _
  · exact optionalInPlace_faithful _ (record_solid _ _ _) fun m _ =>
      m.codec_faithful.mono (by omega)

end Request

namespace ReplyBlock

/-- There is no floating-point number in the block. -/
def IsExact : ReplyBlock → Prop
  | .toolUse _ _ input => input.isExact
  | _ => True

theorem travels_input {id name : String} {input : Json} {d : Nat}
    (h : codec.Reads (d + 1) (.toolUse id name input)) (hexact : input.isExact) :
    input.Travels d := by
  obtain ⟨v, hv, hreads⟩ := h.tagged
  simp only [Option.toList_some, List.cons_append, List.nil_append, List.mem_cons,
    List.not_mem_nil, or_false] at hv
  rcases hv with rfl | rfl | rfl | rfl
  · obtain ⟨r, hr, -⟩ := hreads.row
    cases hr
  · obtain ⟨r, hr, -, -, hinput, -⟩ := hreads.row
    cases hr
    exact hinput.travels hexact
  · obtain ⟨r, hr, -⟩ := hreads.row
    cases hr
  · obtain ⟨r, hr, -⟩ := Variant.Reads.row hreads
    cases hr

theorem unsupported_faithful (d : Nat) : codec.Faithful (d + 1) .unsupported :=
  tagged_faithful "Unsupported" () rfl rfl (by decide) (by decide) rfl trivial

theorem codec_faithful {b : ReplyBlock} {d : Nat} (h : codec.Reads (d + 1) b)
    (hexact : b.IsExact) : codec.Faithful (d + 1) b := by
  cases b with
  | text s => exact text_faithful s d
  | toolUse id name input => exact toolUse_faithful id name (travels_input h hexact)
  | thinking s =>
    exact tagged_faithful "thinking" (s, ()) rfl rfl (by decide) (by decide) rfl
      ⟨withDefault_faithful _ _ (string_faithful s d), trivial⟩
  | unsupported => exact unsupported_faithful d

end ReplyBlock

/-- There is no floating-point number in the response. -/
def Response.IsExact (r : Response) : Prop := ∀ b ∈ r.content, b.IsExact

theorem Response.codec_faithful_of_reads {r : Response} {d : Nat} (h : codec.Reads (d + 3) r)
    (hexact : r.IsExact) : codec.Faithful (d + 3) r := by
  obtain ⟨-, -, -, hcontent, -⟩ := h.record fun _ => rfl
  refine Response.codec_faithful ?_
  intro b hb
  exact ReplyBlock.codec_faithful (hcontent.items b hb) (hexact b hb)

theorem StreamMessage.codec_faithful (m : StreamMessage) : codec.Faithful 2 m := by
  refine record_faithful (by decide) rfl ⟨?_, ?_, ?_, trivial⟩
  · exact withDefault_faithful _ _ (string_faithful m.id 1)
  · exact withDefault_faithful _ _ (string_faithful m.model 1)
  · exact nullable_faithful _ (record_solid _ _ _) fun u _ => u.codec_faithful

theorem StreamBlock.codec_faithful (b : StreamBlock) : codec.Faithful 1 b := by
  cases b with
  | toolUse id name =>
    exact tagged_faithful "tool_use" (id, name, ()) rfl rfl (by decide) (by decide) rfl
      ⟨required_faithful _ (string_faithful id 0), required_faithful _ (string_faithful name 0),
        trivial⟩
  | other => exact tagged_faithful "Other" () rfl rfl (by decide) (by decide) rfl trivial

theorem BlockDelta.codec_faithful (b : BlockDelta) : codec.Faithful 1 b := by
  cases b with
  | text s =>
    exact tagged_faithful "text_delta" (s, ()) rfl rfl (by decide) (by decide) rfl
      ⟨required_faithful _ (string_faithful s 0), trivial⟩
  | inputJson s =>
    exact tagged_faithful "input_json_delta" (s, ()) rfl rfl (by decide) (by decide) rfl
      ⟨required_faithful _ (string_faithful s 0), trivial⟩
  | thinking s =>
    exact tagged_faithful "thinking_delta" (s, ()) rfl rfl (by decide) (by decide) rfl
      ⟨required_faithful _ (string_faithful s 0), trivial⟩
  | other => exact tagged_faithful "Other" () rfl rfl (by decide) (by decide) rfl trivial

theorem MessageDelta.codec_faithful (m : MessageDelta) : codec.Faithful 1 m :=
  record_faithful (by decide) rfl ⟨nullable_text _, nullable_text _, trivial⟩

theorem DeltaUsage.codec_faithful (u : DeltaUsage) : codec.Faithful 1 u := by
  have hcount (o : Option UInt64) : ∀ n ∈ o, uint64.Faithful 0 n := fun n _ => uint64_faithful n 0
  refine record_faithful (by decide) rfl ⟨?_, ?_, ?_, trivial⟩
  · exact nullable_faithful _ (number_solid _ _) (hcount _)
  · exact withDefault_faithful _ _ (uint64_faithful u.outputTokens 0)
  · exact nullable_faithful _ (number_solid _ _) (hcount _)

theorem Event.codec_faithful (e : Event) : codec.Faithful 3 e := by
  have hindex (index : UInt64) : uint64.Faithful 2 index := uint64_faithful index 2
  cases e with
  | messageStart message =>
    exact tagged_faithful "message_start" (message, ()) rfl rfl (by decide) (by decide) rfl
      ⟨required_faithful _ message.codec_faithful, trivial⟩
  | blockStart index block =>
    exact tagged_faithful "content_block_start" (index, block, ()) rfl rfl (by decide) (by decide)
      rfl ⟨required_faithful _ (hindex index),
        required_faithful _ (block.codec_faithful.mono (by decide)), trivial⟩
  | blockDelta index delta =>
    exact tagged_faithful "content_block_delta" (index, delta, ()) rfl rfl (by decide) (by decide)
      rfl ⟨required_faithful _ (hindex index),
        required_faithful _ (delta.codec_faithful.mono (by decide)), trivial⟩
  | blockStop index =>
    exact tagged_faithful "content_block_stop" (index, ()) rfl rfl (by decide) (by decide) rfl
      ⟨required_faithful _ (hindex index), trivial⟩
  | messageDelta delta usage =>
    exact tagged_faithful "message_delta" (delta, usage, ()) rfl rfl (by decide) (by decide) rfl
      ⟨required_faithful _ (delta.codec_faithful.mono (by decide)),
        nullable_faithful _ (record_solid _ _ _) fun u _ => u.codec_faithful.mono (by decide),
        trivial⟩
  | messageStop =>
    exact tagged_faithful "message_stop" () rfl rfl (by decide) (by decide) rfl trivial
  | ping => exact tagged_faithful "ping" () rfl rfl (by decide) (by decide) rfl trivial
  | unknown => exact tagged_faithful "Unknown" () rfl rfl (by decide) (by decide) rfl trivial

end ChatDialect.Anthropic
