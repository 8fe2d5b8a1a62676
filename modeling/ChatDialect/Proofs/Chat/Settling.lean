import Mathlib
import ChatDialect.Chat.Picture
import ChatDialect.Chat.Request
import ChatDialect.Proofs.Chat.Written
import ChatDialect.Proofs.Json.Lookup
import ChatDialect.Proofs.Json.Settling

/-! One pass through the codecs of the canonical dialect settles a value. However it was spelled, it
is written in one form, and that form is read as the same value, unless it holds a floating-point
number or a content block that was ignored, which has no written form. -/
namespace ChatDialect.Chat

open Json Json.Codec Json.Field

theorem FunctionCall.arguments_faithful (s : String) (d : Nat) :
    arguments.codec.Faithful d s :=
  ⟨.str s, rfl, rfl, Nat.zero_le d, fun _ _ => rfl⟩

theorem FunctionCall.codec_faithful (c : FunctionCall) : codec.Faithful 1 c :=
  record_faithful (by decide) rfl
    ⟨required_faithful _ (string_faithful c.name 0),
      withDefault_faithful _ _ (arguments_faithful c.arguments 0), trivial⟩

theorem ToolCall.codec_faithful (c : ToolCall) : codec.Faithful 2 c :=
  record_faithful (by decide) rfl
    ⟨withDefault_faithful _ _ (string_faithful c.id 1),
      withDefault_faithful _ _ (string_faithful c.kind 1),
      required_faithful _ c.function.codec_faithful, trivial⟩

theorem ToolCall.list_faithful (calls : List ToolCall) : codec.list.Faithful 3 calls :=
  Codec.list_faithful fun call _ => call.codec_faithful

theorem Image.list_faithful (images : List Image) : codec.list.Faithful 2 images :=
  Codec.list_faithful fun image _ => image.codec_faithful

theorem Reply.codec_faithful (r : Reply) : codec.Faithful 4 r := by
  refine record_faithful (by decide) rfl ⟨?_, ?_, ?_, ?_, ?_, trivial⟩
  · exact required_faithful _ (string_faithful r.role 3)
  · exact nullable_text _
  · exact optional_text _
  · exact optional_faithful _ (list_solid _) fun images _ =>
      (Image.list_faithful images).mono (by decide)
  · exact optional_faithful _ (list_solid _) fun calls _ => ToolCall.list_faithful calls

theorem Choice.codec_faithful (c : Choice) : codec.Faithful 5 c := by
  refine record_faithful (by decide) rfl ⟨?_, ?_, ?_, trivial⟩
  · exact required_faithful _ (uint32_faithful c.index 4)
  · exact required_faithful _ c.message.codec_faithful
  · exact nullableInPlace_faithful _ FinishReason.codec_solid fun r _ => r.codec_faithful 4

theorem Response.codec_faithful (r : Response) : codec.Faithful 7 r := by
  refine record_faithful (by decide) rfl ⟨?_, ?_, ?_, ?_, ?_, ?_, trivial⟩
  · exact required_faithful _ (string_faithful r.id 6)
  · exact required_faithful _ (string_faithful r.object 6)
  · exact withDefault_faithful _ _ (int64_faithful r.created 6)
  · exact required_faithful _ (string_faithful r.model 6)
  · exact required_faithful _ (Codec.list_faithful fun choice _ => choice.codec_faithful)
  · exact optionalInPlace_faithful _ (record_solid _ _ _) fun usage _ =>
      usage.codec_faithful.mono (by decide)

theorem ImageRequest.codec_faithful (r : ImageRequest) : codec.Faithful 1 r := by
  refine record_faithful (by decide) rfl ⟨?_, ?_, ?_, ?_, ?_, ?_, ?_, trivial⟩
  · exact required_faithful _ (string_faithful r.prompt 0)
  · exact optional_text _
  · exact optional_faithful _ (number_solid _ _) fun n _ => int64_faithful n 0
  all_goals exact optional_text _

theorem ImagesResponse.codec_faithful (r : ImagesResponse) : codec.Faithful 3 r :=
  record_faithful (by decide) rfl
    ⟨required_faithful _ (int64_faithful r.created 2),
      required_faithful _ (Image.list_faithful r.data), trivial⟩

theorem MediaUrl.codec_faithful (m : MediaUrl) : codec.Faithful 1 m :=
  record_faithful (by decide) rfl
    ⟨required_faithful _ (string_faithful m.url 0), optional_text _, optional_text _, trivial⟩

theorem Audio.codec_faithful (a : Audio) : codec.Faithful 1 a :=
  record_faithful (by decide) rfl
    ⟨required_faithful _ (string_faithful a.data 0),
      withDefault_faithful _ _ (string_faithful a.format 0), trivial⟩

theorem FileRef.codec_faithful (f : FileRef) : codec.Faithful 1 f :=
  record_faithful (by decide) rfl
    ⟨optional_text _, optional_text _, optional_text _, optional_text _, trivial⟩

theorem StreamOptions.codec_faithful (o : StreamOptions) : codec.Faithful 1 o :=
  record_faithful (by decide) rfl
    ⟨withDefault_faithful _ _ (bool_faithful o.includeUsage 0), trivial⟩

theorem ImageHint.codec_faithful (h : ImageHint) : codec.Faithful 1 h :=
  record_faithful (by decide) rfl
    ⟨orNamed_faithful _ (optional_text _), orNamed_faithful _ (optional_text _), trivial⟩

theorem Role.codec_faithful (r : Role) (d : Nat) : codec.Faithful d r := by
  refine name_faithful d ?_
  cases r <;> rfl

theorem Stop.codec_faithful (s : Stop) : codec.Faithful 1 s := by
  cases s with
  | single text => exact buffered_faithful rfl rfl (Nat.zero_le 1) rfl
  | many texts =>
    have htexts : isExactItems (texts.map .str) ∧ depthItems (texts.map .str) = 0 ∧
        (texts.map .str).mapM str? = some texts := by
      induction texts with
      | nil => exact ⟨rfl, rfl, rfl⟩
      | cons text texts ih =>
        obtain ⟨hexact, hdepth, htake⟩ := ih
        refine ⟨isExactItems_cons.mpr ⟨rfl, hexact⟩, ?_, ?_⟩
        · rw [List.map_cons, depthItems, hdepth]
          rfl
        · rw [List.map_cons, List.mapM_cons, htake]
          rfl
    obtain ⟨hexact, hdepth, htake⟩ := htexts
    refine buffered_faithful rfl hexact ?_ (congrArg (Option.map many) htake)
    rw [depth, hdepth]

theorem Stop.codec_solid : codec.Solid := by
  intro s h
  cases s <;> cases h

/-- A block that says nothing and has no written form. -/
def Block.isIgnored : Block → Bool
  | .ignored _ => true
  | _ => false

namespace Block

theorem ofJson_payload (kind : String) (hkind : kind ≠ "type") (payload : Json) :
    let j := (Json.obj [("type", .str kind), (kind, payload)]).normalize
    kindOf j = kind ∧ j.get? kind = some payload.normalize := by
  intro j
  have hkeys : ([("type", Json.str kind), (kind, payload)].map Prod.fst).Nodup := by
    simpa using hkind.symm
  have htype : j.get? "type" = some (.str kind) := by
    rw [get?_normalize hkeys, List.lookup_cons_self]
    rfl
  refine ⟨?_, ?_⟩
  · rw [kindOf, textAt, htype]
    rfl
  · rw [get?_normalize hkeys, Keyed.lookup_cons, if_neg hkind, List.lookup_cons_self]
    rfl

/-- The written form of a block, which is found again after its fields were sorted. -/
def Written (b : Block) (j : Json) : Prop :=
  b.encode = some j ∧ j.isExact ∧ j.depth ≤ 2 ∧ ofJson j.normalize = b

/-- A block whose payload is a record. -/
theorem written_record {α ρ σ : Type} {fs : Json.Fields ρ σ} {build : ρ → α} {row : α → ρ} {x : α}
    {b : Block} (kind : String) (hkind : kind ≠ "type")
    (h : (Codec.record fs build row).Faithful 1 x) (hplain : fs.plain) (hfs : fs.distinct)
    (hunordered : fs.Unordered)
    (hencode : b.encode = ((Codec.record fs build row).encode x).map fun j =>
      .obj [("type", .str kind), (kind, j)])
    (hofJson : ∀ j fields, j.get? kind = some (Json.obj fields) →
      (Codec.record fs build row).ofJson? (.obj fields) = some x → decoded? kind j = some b) :
    ∃ j, b.Written j := by
  obtain ⟨fields, hfields, hexact, hdepth, hback⟩ := h.normalized hplain hfs hunordered
  obtain ⟨htype, hpayload⟩ := ofJson_payload kind hkind (.obj fields)
  refine ⟨.obj [("type", .str kind), (kind, .obj fields)], ?_, ?_, ?_, ?_⟩
  · rw [hencode, hfields]
    rfl
  · have hall : isExactFields [("type", .str kind), (kind, .obj fields)] :=
      isExactFields_cons.mpr ⟨rfl, isExactFields_cons.mpr ⟨hexact, rfl⟩⟩
    exact hall
  · simp only [depth, depthFields] at hdepth ⊢
    omega
  · rw [ofJson, htype, hofJson _ _ hpayload hback]
    rfl

theorem exists_written {b : Block} (h : b.isIgnored = false) : ∃ j, b.Written j := by
  cases b with
  | text s =>
    obtain ⟨htype, hpayload⟩ := ofJson_payload "text" (by decide) (.str s)
    refine ⟨.obj [("type", .str "text"), ("text", .str s)], rfl, rfl, Nat.le_succ 1, ?_⟩
    rw [ofJson, htype, decoded?, if_pos rfl, hpayload]
    rfl
  | image m =>
    refine written_record "image_url" (by decide) m.codec_faithful (by decide) (by decide)
      ⟨string_unordered, option_unordered string_unordered, option_unordered string_unordered,
        trivial⟩ rfl ?_
    intro j fields hpayload hback
    have hm : MediaUrl.ofJson? (.obj fields) = some m := hback
    simp [decoded?, hpayload, hm]
  | audio a =>
    refine written_record "input_audio" (by decide) a.codec_faithful (by decide)
      (by decide) ⟨string_unordered, string_unordered, trivial⟩ rfl ?_
    intro j fields hpayload hback
    have ha : Audio.codec.ofJson? (.obj fields) = some a := hback
    simp [decoded?, hpayload, ha]
  | video m =>
    refine written_record "video_url" (by decide) m.codec_faithful (by decide) (by decide)
      ⟨string_unordered, option_unordered string_unordered, option_unordered string_unordered,
        trivial⟩ rfl ?_
    intro j fields hpayload hback
    have hm : MediaUrl.ofJson? (.obj fields) = some m := hback
    simp [decoded?, hpayload, hm]
  | file f =>
    have htext := option_unordered string_unordered
    refine written_record "file" (by decide) f.codec_faithful (by decide) (by decide)
      ⟨htext, htext, htext, htext, trivial⟩ rfl ?_
    intro j fields hpayload hback
    have hf : FileRef.codec.ofJson? (.obj fields) = some f := hback
    simp [decoded?, hpayload, hf]
  | ignored kind => cases h

theorem codec_faithful {b : Block} (h : b.isIgnored = false) : codec.Faithful 2 b := by
  obtain ⟨j, hencode, hexact, hdepth, hback⟩ := exists_written h
  exact buffered_faithful hencode hexact hdepth (congrArg some hback)

end Block

namespace Content

/-- No block of the content was ignored. -/
def IsWhole : Content → Prop
  | .blocks bs => ∀ b ∈ bs, b.isIgnored = false
  | _ => True

/-- There is no floating-point number in the content. -/
def IsExact : Content → Prop
  | .other j => j.isExact
  | _ => True

theorem exists_written {bs : List Block} (h : ∀ b ∈ bs, b.isIgnored = false) :
    ∃ js, bs.mapM Block.encode = some js ∧ isExactItems js ∧ depthItems js ≤ 2 ∧
      (normalizeItems js).map Block.ofJson = bs := by
  induction bs with
  | nil => exact ⟨[], rfl, rfl, Nat.zero_le 2, rfl⟩
  | cons b bs ih =>
    obtain ⟨j, hj, hexact, hdepth, hback⟩ := Block.exists_written (h b List.mem_cons_self)
    obtain ⟨js, hjs, hexacts, hdepths, hbacks⟩ := ih fun b hb => h b (List.mem_cons_of_mem _ hb)
    refine ⟨j :: js, ?_, isExactItems_cons.mpr ⟨hexact, hexacts⟩,
      Nat.max_le.mpr ⟨hdepth, hdepths⟩, ?_⟩
    · rw [List.mapM_cons, hj, hjs]
      rfl
    · rw [normalizeItems, List.map_cons, hback, hbacks]

/-- The content of a message that was read: never `null`. -/
theorem codec_faithful {c : Content} {d : Nat} (h : codec.option.Reads (d + 3) (some c))
    (hexact : c.IsExact) (hwhole : c.IsWhole) :
    codec.encode c ≠ some .null ∧ codec.Faithful (d + 3) c := by
  cases c with
  | text s => exact ⟨nofun, buffered_faithful rfl rfl (Nat.zero_le _) rfl⟩
  | blocks bs =>
    obtain ⟨js, hjs, hexacts, hdepth, hback⟩ := exists_written hwhole
    have hencode : encode (.blocks bs) = some (.arr js) := congrArg (Option.map Json.arr) hjs
    constructor
    · intro hnull
      cases hencode.symm.trans hnull
    · refine buffered_faithful hencode hexacts ?_ (congrArg (fun bs => some (blocks bs)) hback)
      simp only [depth]
      omega
  | other j =>
    obtain ⟨k, hk, hdepth, htake⟩ := h.option_buffered
    have hofJson : ofJson k.normalize = .other j := Option.some.inj htake
    have hj : k.normalize = j := by
      cases k <;> cases hofJson <;> rfl
    have hback : ofJson j.normalize = .other j := by
      rw [← hj, normalize_normalize, hj, ← hofJson, hj]
    have hj_depth : j.depth ≤ d + 3 := hj ▸ Nat.le_trans (depth_normalize_le k) hdepth
    constructor
    · intro hnull
      exact normalize_ne_null hk (hj.trans (Option.some.inj hnull))
    · exact buffered_faithful rfl hexact hj_depth (congrArg some hback)

end Content

namespace Message

/-- No block of the message was ignored. -/
def IsWhole (m : Message) : Prop := ∀ c ∈ m.content, c.IsWhole

/-- There is no floating-point number in the message. -/
def IsExact (m : Message) : Prop := ∀ c ∈ m.content, c.IsExact

theorem codec_faithful {m : Message} {d : Nat} (h : codec.Reads (d + 4) m) (hexact : m.IsExact)
    (hwhole : m.IsWhole) : codec.Faithful (d + 4) m := by
  obtain ⟨-, hcontent, -⟩ := h.record fun _ => rfl
  have hvalue (c : Content) (hc : c ∈ m.content) :=
    Content.codec_faithful (hcontent.optional c hc) (hexact c hc) (hwhole c hc)
  refine record_faithful (by decide) rfl ⟨?_, ?_, ?_, ?_, ?_, trivial⟩
  · exact required_faithful _ (Role.codec_faithful m.role _)
  · exact option_faithful rfl rfl (.inl rfl) (fun c hc => (hvalue c hc).1)
      fun c hc => (hvalue c hc).2
  · exact optional_faithful _ (list_solid _) fun calls _ =>
      (ToolCall.list_faithful calls).mono (Nat.le_add_left 3 d)
  · exact optional_text _
  · exact optional_text _

end Message

/-- There is no floating-point number in the specification. -/
def FunctionSpec.IsExact (f : FunctionSpec) : Prop := ∀ j ∈ f.parameters, j.isExact

theorem FunctionSpec.codec_faithful {f : FunctionSpec} {d : Nat} (h : codec.Reads (d + 1) f)
    (hexact : f.IsExact) : codec.Faithful (d + 1) f := by
  obtain ⟨-, -, hparameters, -⟩ := h.record fun _ => rfl
  refine record_faithful (by decide) rfl ⟨?_, ?_, ?_, ?_, trivial⟩
  · exact required_faithful _ (string_faithful f.name d)
  · exact optional_text _
  · exact optional_value hparameters hexact
  · exact optional_faithful _ bool_solid fun b _ => bool_faithful b d

/-- There is no floating-point number in the tool. -/
def Tool.IsExact (t : Tool) : Prop := t.function.IsExact

theorem Tool.codec_faithful {t : Tool} {d : Nat} (h : codec.Reads (d + 2) t)
    (hexact : t.IsExact) : codec.Faithful (d + 2) t := by
  obtain ⟨-, hfunction, -⟩ := h.record fun _ => rfl
  refine record_faithful (by decide) rfl ⟨?_, ?_, trivial⟩
  · exact withDefault_faithful _ _ (string_faithful t.kind _)
  · exact required_faithful _ (FunctionSpec.codec_faithful hfunction.required hexact)

/-- There is no floating-point number in the schema. -/
def SchemaFormat.IsExact (s : SchemaFormat) : Prop := ∀ j ∈ s.schema, j.isExact

theorem SchemaFormat.codec_faithful {s : SchemaFormat} {d : Nat} (h : codec.Reads (d + 1) s)
    (hexact : s.IsExact) : codec.Faithful (d + 1) s := by
  obtain ⟨-, hschema, -⟩ := h.record fun _ => rfl
  refine record_faithful (by decide) rfl ⟨?_, ?_, ?_, trivial⟩
  · exact optional_text _
  · exact optional_value hschema hexact
  · exact optional_faithful _ bool_solid fun b _ => bool_faithful b d

/-- There is no floating-point number in the format. -/
def ResponseFormat.IsExact (f : ResponseFormat) : Prop := ∀ s ∈ f.jsonSchema, s.IsExact

theorem ResponseFormat.codec_faithful {f : ResponseFormat} {d : Nat} (h : codec.Reads (d + 2) f)
    (hexact : f.IsExact) : codec.Faithful (d + 2) f := by
  obtain ⟨-, hschema, -⟩ := h.record fun _ => rfl
  refine record_faithful (by decide) rfl ⟨?_, ?_, trivial⟩
  · exact required_faithful _ (string_faithful f.kind _)
  · exact optional_faithful _ (record_solid _ _ _) fun s hs =>
      SchemaFormat.codec_faithful (hschema.optional s hs).option (hexact s hs)

/-- No temperature, the only floating-point number, is set. -/
def GenerationOverrides.IsExact (g : GenerationOverrides) : Prop := g.temperature = .none

theorem GenerationOverrides.codec_faithful {g : GenerationOverrides} (hexact : g.IsExact) :
    codec.Faithful 2 g := by
  refine record_faithful (by decide) rfl ⟨?_, ?_, ?_, ?_, ?_, ?_, trivial⟩
  · exact optional_of_none _ hexact
  · exact optional_faithful _ (number_solid _ _) fun n _ => int64_faithful n 1
  · exact orNamed_faithful _ (optional_faithful _ (number_solid _ _) fun n _ => uint32_faithful n 1)
  · exact orNamed_faithful _ (optional_text _)
  · exact orNamed_faithful _ (optional_faithful _ (list_solid _) fun names _ =>
      strings_faithful names 0)
  · exact orNamed_faithful _ (optional_faithful _ (record_solid _ _ _) fun hint _ =>
      hint.codec_faithful)

/-- There is no floating-point number in the extensions. -/
structure ExtraBody.IsExact (e : ExtraBody) : Prop where
  generationConfig : ∀ g ∈ e.generationConfig, g.IsExact
  other : isExactFields e.other

theorem ExtraBody.codec_faithful {e : ExtraBody} {d : Nat} (h : codec.Reads (d + 3) e)
    (hexact : e.IsExact) : codec.Faithful (d + 3) e := by
  obtain ⟨-, hsorted, hkept⟩ := h.openRecord fun _ _ => rfl
  refine openRecord_faithful (by decide) rfl ⟨?_, ?_, trivial⟩ hsorted hkept hexact.other
  · exact optional_faithful _ (record_solid _ _ _) fun g hg =>
      (GenerationOverrides.codec_faithful (hexact.generationConfig g hg)).mono (Nat.le_add_left 2 d)
  · exact optional_faithful _ (list_solid _) fun names _ => strings_faithful names _

namespace Request

/-- No content block of the request was ignored. -/
def IsWhole (r : Request) : Prop := ∀ m ∈ r.messages, m.IsWhole

/-- There is no floating-point number in the request. -/
structure IsExact (r : Request) : Prop where
  messages : ∀ m ∈ r.messages, m.IsExact
  temperature : r.temperature = none
  topP : r.topP = none
  frequencyPenalty : r.frequencyPenalty = none
  presencePenalty : r.presencePenalty = none
  responseFormat : ∀ f ∈ r.responseFormat, f.IsExact
  tools : ∀ tools ∈ r.tools, ∀ tool ∈ tools, tool.IsExact
  toolChoice : ∀ j ∈ r.toolChoice, j.isExact
  extraBody : ∀ e ∈ r.extraBody, e.IsExact

/-- A request reads back if what it is made of does. -/
theorem codec_faithful_of_parts {r : Request} {d : Nat} (hexact : r.IsExact)
    (hmessages : ∀ m ∈ r.messages, Message.codec.Faithful (d + 4) m)
    (hformat : ∀ f ∈ r.responseFormat, ResponseFormat.codec.Faithful (d + 5) f)
    (htools : ∀ tools ∈ r.tools, ∀ tool ∈ tools, Tool.codec.Faithful (d + 4) tool)
    (hchoice : (optionalInPlace "tool_choice" .value).Faithful (d + 5) r.toolChoice)
    (hextra : ∀ e ∈ r.extraBody, ExtraBody.codec.Faithful (d + 5) e) :
    codec.Faithful (d + 6) r := by
  have hcount (o : Option UInt64) : ∀ n ∈ o, uint64.Faithful (d + 5) n :=
    fun n _ => uint64_faithful n _
  have hnames (o : Option (List String)) :
      ∀ names ∈ o, Codec.string.list.Faithful (d + 5) names :=
    fun names _ => strings_faithful names _
  refine record_faithful (by decide) rfl ⟨?_, ?_, ?_, ?_, ?_, ?_, ?_, ?_, ?_, ?_, ?_, ?_, ?_, ?_,
    ?_, hchoice, ?_, ?_, ?_, ?_, trivial⟩
  · exact withDefault_faithful _ _ (string_faithful r.model _)
  · exact required_faithful _ (Codec.list_faithful hmessages)
  · exact optionalInPlace_of_none _ hexact.temperature
  · exact optionalInPlace_of_none _ hexact.topP
  · exact optionalInPlace_faithful _ (number_solid _ _) (hcount _)
  · exact optionalInPlace_faithful _ (number_solid _ _) (hcount _)
  · exact optionalInPlace_faithful _ (number_solid _ _) fun n _ => uint32_faithful n _
  · exact optionalInPlace_faithful _ (number_solid _ _) fun n _ => int64_faithful n _
  · exact optionalInPlace_of_none _ hexact.frequencyPenalty
  · exact optionalInPlace_of_none _ hexact.presencePenalty
  · exact optionalInPlace_faithful _ Stop.codec_solid fun s _ => s.codec_faithful.mono (by omega)
  · exact optionalInPlace_faithful _ (record_solid _ _ _) hformat
  · exact optionalInPlace_faithful _ (list_solid _) (hnames _)
  · exact optionalInPlace_text _
  · exact optionalInPlace_faithful _ (list_solid _) fun tools hsome =>
      Codec.list_faithful (htools tools hsome)
  · exact optionalInPlace_faithful _ bool_solid fun b _ => bool_faithful b _
  · exact optionalInPlace_faithful _ (record_solid _ _ _) fun o _ =>
      o.codec_faithful.mono (by omega)
  · exact optionalInPlace_text _
  · exact optionalInPlace_faithful _ (openRecord_solid _ _ _) hextra

theorem codec_faithful {r : Request} {d : Nat} (h : codec.Reads (d + 6) r) (hexact : r.IsExact)
    (hwhole : r.IsWhole) : codec.Faithful (d + 6) r := by
  obtain ⟨-, hmessages, -, -, -, -, -, -, -, -, -, hformat, -, -, htools, hchoice, -, -, -, hextra,
    -⟩ := h.record fun _ => rfl
  refine codec_faithful_of_parts hexact ?_ ?_ ?_ ?_ ?_
  · intro m hm
    exact Message.codec_faithful (hmessages.required.list m hm) (hexact.messages m hm) (hwhole m hm)
  · intro f hf
    exact ResponseFormat.codec_faithful (hformat.optionalInPlace f hf).option
      (hexact.responseFormat f hf)
  · intro tools hsome tool hmem
    exact Tool.codec_faithful ((htools.optionalInPlace tools hsome).option.list tool hmem)
      (hexact.tools tools hsome tool hmem)
  · exact optionalInPlace_value hchoice hexact.toolChoice
  · intro e he
    exact ExtraBody.codec_faithful (hextra.optionalInPlace e he).option (hexact.extraBody e he)

end Request

/-- What is read in the canonical dialect is settled by one pass: it is written, and read back as it
was, unless it holds an ignored block or a floating-point number. -/
theorem spellings_settle :
    Request.codec.Settles (fun r => r.IsExact ∧ r.IsWhole) ∧
    Message.codec.Settles (fun m => m.IsExact ∧ m.IsWhole) ∧
    Block.codec.Settles (fun b => b.isIgnored = false) ∧
    ToolCall.codec.Settles (fun _ => True) ∧
    ExtraBody.codec.Settles (fun e => e.IsExact) ∧
    Response.codec.Settles (fun _ => True) ∧
    Chunk.codec.Settles (fun _ => True) ∧
    ImageRequest.codec.Settles (fun _ => True) ∧
    ImagesResponse.codec.Settles (fun _ => True) := by
  refine ⟨?_, ?_, ?_, ?_, ?_, ?_, ?_, ?_, ?_⟩
  · exact settles_of_reads fun r hr ⟨hexact, hwhole⟩ => Request.codec_faithful hr hexact hwhole
  · exact settles_of_reads fun m hm ⟨hexact, hwhole⟩ => Message.codec_faithful hm hexact hwhole
  · exact settles_of_reads fun b _ hb => (Block.codec_faithful hb).mono (by decide)
  · exact settles_of_reads fun c _ _ => c.codec_faithful.mono (by decide)
  · exact settles_of_reads fun e he hexact => ExtraBody.codec_faithful he hexact
  · exact settles_of_reads fun r _ _ => r.codec_faithful.mono (by decide)
  · exact settles_of_reads fun c _ _ => c.codec_faithful.mono (by decide)
  · exact settles_of_reads fun r _ _ => r.codec_faithful.mono (by decide)
  · exact settles_of_reads fun r _ _ => r.codec_faithful.mono (by decide)

/-- A message with its role as an object, a bare URL, a name that is `null`, a call as an array, and
arguments as an object. -/
def oddMessage : Json :=
  .obj
    [("role", .obj [("user", .null)]),
      ("content", .arr [.obj [("type", .str "image_url"), ("image_url", .str "u")]]),
      ("name", .null),
      ("tool_calls", .arr
        [.arr [.str "c", .str "function",
          .obj [("name", .str "f"), ("arguments", .obj [("a", .null)])]]])]

/-- The same message as it is written. -/
def settledMessage : Json :=
  .obj
    [("role", .str "user"),
      ("content", .arr
        [.obj [("type", .str "image_url"), ("image_url", .obj [("url", .str "u")])]]),
      ("tool_calls", .arr
        [.obj [("id", .str "c"), ("type", .str "function"),
          ("function", .obj [("name", .str "f"), ("arguments", .str "\x7b\"a\":null\x7d")])]])]

theorem oddMessage_settles :
    let m : Message :=
      ⟨.user, some (.blocks [.image ⟨"u", none, none⟩]),
        some [.ofFunction "c" "f" "\x7b\"a\":null\x7d"], none, none⟩
    (Message.codec.read oddMessage.bytes = .ok m ∧ m.IsExact ∧ m.IsWhole) ∧
      Message.codec.write m = some settledMessage.bytes ∧
      Message.codec.read settledMessage.bytes = .ok m := by
  intro m
  have hread : Message.codec.read oddMessage.bytes = .ok m := read_bytes rfl (by cbv)
  have hexact : m.IsExact := by
    rintro c ⟨⟩
    trivial
  have hwhole : m.IsWhole := by
    rintro c ⟨⟩ b hb
    cases List.mem_singleton.mp hb
    rfl
  have hencode : Message.codec.encode m = some settledMessage := rfl
  have hwrite : Message.codec.write m = some settledMessage.bytes := by
    unfold Codec.write
    rw [hencode]
    rfl
  obtain ⟨text, htext, hback⟩ := spellings_settle.2.1 oddMessage.bytes m hread ⟨hexact, hwhole⟩
  obtain rfl : settledMessage.bytes = text := Option.some.inj (hwrite.symm.trans htext)
  exact ⟨⟨hread, hexact, hwhole⟩, hwrite, hback⟩

end ChatDialect.Chat
