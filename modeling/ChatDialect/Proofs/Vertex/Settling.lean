import ChatDialect.Proofs.Json.Settling
import ChatDialect.Proofs.Responses
import ChatDialect.Vertex.Predict
import ChatDialect.Vertex.Prompt

/-! What is read in the Vertex dialect reads back from what is written of it, unless it holds a
floating-point number. For schemas the argument goes by the level of nesting: one layer reads back
if the schemas inside it do. -/
namespace ChatDialect.Vertex

open Json Json.Codec Json.Field

theorem SchemaKind.codec_faithful (k : SchemaKind) (d : Nat) : codec.Faithful d k := by
  refine name_faithful d ?_
  cases k <;> rfl

/-- There is no floating-point number in the keywords. -/
structure Keywords.IsExact (k : Keywords) : Prop where
  enumValues : ∀ values ∈ k.enumValues, ∀ x ∈ values, x.isExact
  minimum : k.minimum = .none
  maximum : k.maximum = .none
  fallback : ∀ j ∈ k.fallback, j.isExact
  sample : ∀ j ∈ k.sample, j.isExact

namespace Schema

/-- There is no floating-point number in the schema, nor in the schemas inside it. -/
inductive IsExact : Schema → Prop
  | intro {k : Keywords} {properties : Option (List (String × Schema))} {items : Option Schema}
      {anyOf : Option (List Schema)} (keywords : k.IsExact)
      (properties_exact : ∀ ps ∈ properties, ∀ p ∈ ps, IsExact p.2)
      (items_exact : ∀ s ∈ items, IsExact s)
      (anyOf_exact : ∀ ss ∈ anyOf, ∀ s ∈ ss, IsExact s) : IsExact ⟨k, properties, items, anyOf⟩

section Layout
variable {inner : Codec Schema} (hinner : ∀ s, inner.encode s = some s.toJson)
include hinner

theorem encodeItems_inner (ss : List Schema) : inner.encodeItems ss = some (toJsonAll ss) := by
  induction ss with
  | nil => rfl
  | cons s ss ih =>
    rw [encodeItems, hinner, ih]
    rfl

theorem encodeEntries_inner (ps : List (String × Schema)) :
    inner.encodeEntries ps = some (toJsonNamed ps) := by
  induction ps with
  | nil => rfl
  | cons p ps ih =>
    rw [encodeEntries, hinner, ih]
    rfl

omit hinner in
/-- An optional field is written as an entry, if there is one. -/
theorem encode_entry {α ρ σ : Type} {c : Codec α} {f : α → Json} {rest : Fields ρ σ} {r : ρ}
    {js : List (String × Json)} (name : String) (o : Option α)
    (hf : ∀ x, c.encode x = some (f x)) (hrest : rest.encode r = some js) :
    (Fields.cons (.optionalInPlace name c) rest).encode (o, r) =
      some (entry name (o.map f) ++ js) := by
  cases o with
  | none => exact hrest
  | some x =>
    have hx : (Field.optionalInPlace name c).codec.encode (some x) = some (f x) := hf x
    rw [Fields.encode, hx, hrest]
    rfl

/-- The fields of a schema in order make its written form. -/
theorem layout_encode (s : Schema) : (layout inner).encode s = some s.toJson := by
  obtain ⟨k, properties, items, anyOf⟩ := s
  have htexts (texts : List String) : Codec.string.list.encode texts = some (ofTexts texts) :=
    list_encode (fun _ => rfl) texts
  have hvalues (xs : List Json) : Codec.value.list.encode xs = some (.arr xs) := by
    rw [list_encode (f := id) (fun _ => rfl) xs, List.map_id]
  have hnamed (ps : List (String × Schema)) :
      inner.keyed.encode ps = some (.obj (toJsonNamed ps)) := by
    simp only [keyed, encodeEntries_inner hinner]
    rfl
  have hall (ss : List Schema) : inner.list.encode ss = some (.arr (toJsonAll ss)) := by
    simp only [list, encodeItems_inner hinner]
    rfl
  refine Option.bind_eq_some_iff.mpr ⟨_,
    encode_entry "type" k.kind (fun _ => rfl) <|
    encode_entry "format" k.format (fun _ => rfl) <|
    encode_entry "title" k.title (fun _ => rfl) <|
    encode_entry "description" k.description (fun _ => rfl) <|
    encode_entry "nullable" k.nullable (fun _ => rfl) <|
    encode_entry "enum" k.enumValues hvalues <|
    encode_entry "properties" properties hnamed <|
    encode_entry "propertyOrdering" k.propertyOrdering htexts <|
    encode_entry "required" k.required htexts <|
    encode_entry "items" items hinner <|
    encode_entry "anyOf" anyOf hall <|
    encode_entry "minimum" k.minimum (fun _ => rfl) <|
    encode_entry "maximum" k.maximum (fun _ => rfl) <|
    encode_entry "minLength" k.minLength (fun _ => rfl) <|
    encode_entry "maxLength" k.maxLength (fun _ => rfl) <|
    encode_entry "minItems" k.minItems (fun _ => rfl) <|
    encode_entry "maxItems" k.maxItems (fun _ => rfl) <|
    encode_entry "minProperties" k.minProperties (fun _ => rfl) <|
    encode_entry "maxProperties" k.maxProperties (fun _ => rfl) <|
    encode_entry "pattern" k.pattern (fun _ => rfl) <|
    encode_entry "default" k.fallback (fun _ => rfl) <|
    encode_entry "example" k.sample (fun _ => rfl) rfl, ?_⟩
  cases properties <;> cases items <;> cases anyOf
  all_goals
    refine congrArg (fun js => some (Json.obj js)) ?_
    simp only [List.append_assoc, List.append_nil, Option.map_id']
    rfl

end Layout

/-- One layer reads back if the schemas inside it do. -/
theorem layout_faithful {inner : Codec Schema} {d : Nat} {s : Schema} (hsolid : inner.Solid)
    (hfaithful : ∀ d' s, d' ≤ d → inner.Reads d' s → s.IsExact → inner.Faithful d' s)
    (h : (layout inner).Reads (d + 1) s) (hexact : s.IsExact) :
    (layout inner).Faithful (d + 1) s := by
  cases hexact with
  | @intro k properties items anyOf hk hproperties hitems hanyOf =>
    obtain ⟨-, -, -, -, -, henum, hreadNamed, hordering, hrequired, hreadItems, hreadAll, -, -, -,
      -, -, -, -, -, -, hfallback, hsample, -⟩ := h.record fun _ => rfl
    have hcount (o : Option UInt64) : ∀ n ∈ o, uint64.Faithful d n := fun n _ => uint64_faithful n d
    have htexts {name : String} {o : Option (List String)}
        (h : (Field.optionalInPlace name Codec.string.list).Reads d o) :
        (Field.optionalInPlace name Codec.string.list).Faithful d o :=
      optionalInPlace_faithful _ (list_solid _) fun texts hsome =>
        (h.optionalInPlace texts hsome).option.list_faithful fun text _ d' _ _ =>
          string_faithful text d'
    have hvalues (values : List Json) (hsome : values ∈ k.enumValues) :
        Codec.value.list.Faithful d values :=
      (henum.optionalInPlace values hsome).option.list_faithful fun x hx _ _ hread =>
        hread.value_faithful (hk.enumValues values hsome x hx)
    have hnamed (ps : List (String × Schema)) (hsome : ps ∈ properties) :
        inner.keyed.Faithful d ps :=
      (hreadNamed.optionalInPlace ps hsome).option.keyed_faithful fun p hp d' hd' hread =>
        hfaithful d' p.2 (Nat.le_of_lt hd') hread (hproperties ps hsome p hp)
    have hall (ss : List Schema) (hsome : ss ∈ anyOf) : inner.list.Faithful d ss :=
      (hreadAll.optionalInPlace ss hsome).option.list_faithful fun s hs d' hd' hread =>
        hfaithful d' s (Nat.le_of_lt hd') hread (hanyOf ss hsome s hs)
    refine record_faithful rfl rfl ⟨?_, ?_, ?_, ?_, ?_, ?_, ?_, ?_, ?_, ?_, ?_, ?_, ?_, ?_, ?_, ?_,
      ?_, ?_, ?_, ?_, ?_, ?_, trivial⟩
    · exact optionalInPlace_faithful _ (name_solid _ _) fun kind _ => kind.codec_faithful d
    · exact optionalInPlace_text _
    · exact optionalInPlace_text _
    · exact optionalInPlace_text _
    · exact optionalInPlace_faithful _ bool_solid fun b _ => bool_faithful b d
    · exact optionalInPlace_faithful _ (list_solid _) hvalues
    · exact optionalInPlace_faithful _ (keyed_solid _) hnamed
    · exact htexts hordering
    · exact htexts hrequired
    · exact optionalInPlace_faithful _ hsolid fun s hs =>
        hfaithful d s (Nat.le_refl d) (hreadItems.optionalInPlace s hs).option (hitems s hs)
    · exact optionalInPlace_faithful _ (list_solid _) hall
    · exact optionalInPlace_of_none _ hk.minimum
    · exact optionalInPlace_of_none _ hk.maximum
    · exact optionalInPlace_faithful _ (number_solid _ _) (hcount _)
    · exact optionalInPlace_faithful _ (number_solid _ _) (hcount _)
    · exact optionalInPlace_faithful _ (number_solid _ _) (hcount _)
    · exact optionalInPlace_faithful _ (number_solid _ _) (hcount _)
    · exact optionalInPlace_faithful _ (number_solid _ _) (hcount _)
    · exact optionalInPlace_faithful _ (number_solid _ _) (hcount _)
    · exact optionalInPlace_text _
    · exact optionalInPlace_value hfallback hk.fallback
    · exact optionalInPlace_value hsample hk.sample

theorem codecAt_encode (n : Nat) (s : Schema) : (codecAt n).encode s = some s.toJson := by
  cases n <;> rfl

theorem codecAt_solid (n : Nat) : (codecAt n).Solid := by
  intro s h
  rw [codecAt_encode, ← layout_encode (codecAt_encode n)] at h
  exact record_solid _ _ _ s h

/-- Schemas that were read at some level read back there: by induction on the level, since each
schema inside another is read one level below. -/
theorem codecAt_faithful {n d : Nat} {s : Schema} (hd : d < n) (h : (codecAt n).Reads d s)
    (hexact : s.IsExact) : (codecAt n).Faithful d s := by
  induction n generalizing d s with
  | zero => exact absurd hd (Nat.not_lt_zero d)
  | succ n ih =>
    have hread : (layout (codecAt n)).Reads d s := h
    cases d with
    | zero => exact absurd hread.record_pos (Nat.lt_irrefl 0)
    | succ d =>
      have hinner (d' : Nat) (s : Schema) (hd' : d' ≤ d) (h : (codecAt n).Reads d' s)
          (hexact : s.IsExact) : (codecAt n).Faithful d' s := by
        refine ih ?_ h hexact
        omega
      obtain ⟨j, hencode, hrest⟩ :=
        layout_faithful (codecAt_solid n) hinner hread hexact
      rw [layout_encode (codecAt_encode n)] at hencode
      exact ⟨j, hencode, hrest⟩

theorem codec_faithful {s : Schema} {d : Nat} (hd : d ≤ nestingLimit) (h : codec.Reads d s)
    (hexact : s.IsExact) : codec.Faithful d s :=
  codecAt_faithful (Nat.lt_succ_of_le hd) h hexact

theorem codec_solid : codec.Solid := codecAt_solid _

end Schema

theorem Blob.codec_faithful (b : Blob) : codec.Faithful 1 b :=
  record_faithful (by decide) rfl
    ⟨withDefault_faithful _ _ (string_faithful b.mimeType 0),
      withDefault_faithful _ _ (string_faithful b.data 0), trivial⟩

theorem FileUri.codec_faithful (f : FileUri) : codec.Faithful 1 f :=
  record_faithful (by decide) rfl
    ⟨withDefault_faithful _ _ (string_faithful f.mimeType 0),
      required_faithful _ (string_faithful f.uri 0), trivial⟩

/-- Arguments that were read travel; missing ones are `null`. -/
theorem FunctionCall.travels_args {c : FunctionCall} {d : Nat} (h : codec.Reads (d + 1) c)
    (hexact : c.args.isExact) : c.args.Travels d := by
  obtain ⟨-, hargs, -⟩ := h.record fun _ => rfl
  exact hargs.travels hexact

/-- There is no floating-point number in the part. -/
structure Part.IsExact (p : Part) : Prop where
  functionCall : ∀ c ∈ p.functionCall, c.args.isExact
  functionResponse : ∀ j ∈ p.functionResponse, j.isExact

theorem Part.codec_faithful {p : Part} {d : Nat} (h : codec.Reads (d + 2) p)
    (hexact : p.IsExact) : codec.Faithful (d + 2) p := by
  obtain ⟨-, -, -, -, hcall, hresponse, -⟩ := h.record fun _ => rfl
  refine record_faithful (by decide) rfl ⟨?_, ?_, ?_, ?_, ?_, ?_, ?_, trivial⟩
  · exact optional_text _
  · exact optional_faithful _ bool_solid fun b _ => bool_faithful b _
  · exact optional_faithful _ (record_solid _ _ _) fun b _ => b.codec_faithful.mono (by omega)
  · exact optional_faithful _ (record_solid _ _ _) fun f _ => f.codec_faithful.mono (by omega)
  · exact optional_faithful _ (record_solid _ _ _) fun c hc =>
      FunctionCall.codec_faithful
        (FunctionCall.travels_args (hcall.optional c hc).option (hexact.functionCall c hc))
  · exact optional_value hresponse hexact.functionResponse
  · exact optional_text _

/-- There is no floating-point number in the content. -/
def Content.IsExact (c : Content) : Prop := ∀ p ∈ c.parts, p.IsExact

theorem Content.codec_faithful_of_reads {c : Content} {d : Nat} (h : codec.Reads (d + 4) c)
    (hexact : c.IsExact) : codec.Faithful (d + 4) c := by
  obtain ⟨-, hparts, -⟩ := h.record fun _ => rfl
  refine Content.codec_faithful ?_
  intro p hp
  exact Part.codec_faithful (hparts.items p hp) (hexact p hp)

/-- There is no floating-point number in the response. -/
def Response.IsExact (r : Response) : Prop :=
  ∀ c ∈ r.candidates, ∀ content ∈ c.content, content.IsExact

theorem Response.codec_faithful_of_reads {r : Response} {d : Nat} (h : codec.Reads (d + 7) r)
    (hexact : r.IsExact) : codec.Faithful (d + 7) r := by
  obtain ⟨hcandidates, -⟩ := h.record fun _ => rfl
  refine Response.codec_faithful ?_
  intro c hc
  obtain ⟨hcontent, -⟩ := (hcandidates.items c hc).record fun _ => rfl
  refine Candidate.codec_faithful ?_
  intro content hsome
  exact Content.codec_faithful_of_reads (hcontent.nullable content hsome).option
    (hexact c hc content hsome)

theorem ImageConfig.codec_faithful (c : ImageConfig) : codec.Faithful 1 c :=
  record_faithful (by decide) rfl ⟨optionalInPlace_text _, optionalInPlace_text _, trivial⟩

theorem ThinkingConfig.codec_faithful (c : ThinkingConfig) : codec.Faithful 1 c :=
  record_faithful (by decide) rfl
    ⟨required_faithful _ (uint32_faithful c.budget 0),
      required_faithful _ (bool_faithful c.includeThoughts 0), trivial⟩

/-- There is no floating-point number in the settings. -/
structure GenerationConfig.IsExact (c : GenerationConfig) : Prop where
  temperature : c.temperature = none
  topP : c.topP = none
  frequencyPenalty : c.frequencyPenalty = none
  presencePenalty : c.presencePenalty = none
  responseSchema : ∀ s ∈ c.responseSchema, s.IsExact

theorem GenerationConfig.codec_faithful {c : GenerationConfig} {d : Nat}
    (hd : d + 2 ≤ nestingLimit) (h : codec.Reads (d + 2) c) (hexact : c.IsExact) :
    codec.Faithful (d + 2) c := by
  obtain ⟨-, -, -, -, -, -, -, -, -, -, hschema, -⟩ := h.record fun _ => rfl
  have hnames (o : Option (List String)) :
      ∀ names ∈ o, Codec.string.list.Faithful (d + 1) names :=
    fun names _ => strings_faithful names d
  refine record_faithful (by decide) rfl ⟨?_, ?_, ?_, ?_, ?_, ?_, ?_, ?_, ?_, ?_, ?_, ?_, ?_, ?_,
    trivial⟩
  · exact optionalInPlace_of_none _ hexact.temperature
  · exact optionalInPlace_of_none _ hexact.topP
  · exact optionalInPlace_faithful _ (number_solid _ _) fun n _ => uint32_faithful n _
  · exact optionalInPlace_faithful _ (number_solid _ _) fun n _ => uint32_faithful n _
  · exact optionalInPlace_faithful _ (number_solid _ _) fun n _ => uint64_faithful n _
  · exact optionalInPlace_faithful _ (number_solid _ _) fun n _ => int64_faithful n _
  · exact optionalInPlace_of_none _ hexact.frequencyPenalty
  · exact optionalInPlace_of_none _ hexact.presencePenalty
  · exact optionalInPlace_faithful _ (list_solid _) (hnames _)
  · exact optionalInPlace_text _
  · exact optionalInPlace_faithful _ Schema.codec_solid fun s hs =>
      Schema.codec_faithful (by omega) (hschema.optionalInPlace s hs).option
        (hexact.responseSchema s hs)
  · exact optionalInPlace_faithful _ (list_solid _) (hnames _)
  · exact optionalInPlace_faithful _ (record_solid _ _ _) fun c _ =>
      c.codec_faithful.mono (by omega)
  · exact optionalInPlace_faithful _ (record_solid _ _ _) fun c _ =>
      c.codec_faithful.mono (by omega)

theorem FunctionDeclaration.codec_faithful {f : FunctionDeclaration} {d : Nat}
    (hd : d + 1 ≤ nestingLimit) (h : codec.Reads (d + 1) f) (hexact : f.parameters.IsExact) :
    codec.Faithful (d + 1) f := by
  obtain ⟨-, -, hparameters, -⟩ := h.record fun _ => rfl
  refine record_faithful (by decide) rfl ⟨?_, ?_, ?_, trivial⟩
  · exact required_faithful _ (string_faithful f.name d)
  · exact optionalInPlace_text _
  · exact required_faithful _ (Schema.codec_faithful (by omega) hparameters.required hexact)

/-- There is no floating-point number in the declarations. -/
def Tool.IsExact (t : Tool) : Prop := ∀ f ∈ t.declarations, f.parameters.IsExact

theorem Tool.codec_faithful {t : Tool} {d : Nat} (hd : d + 3 ≤ nestingLimit)
    (h : codec.Reads (d + 3) t) (hexact : t.IsExact) : codec.Faithful (d + 3) t := by
  obtain ⟨hdeclarations, -⟩ := h.record fun _ => rfl
  refine record_faithful (by decide) rfl ⟨?_, trivial⟩
  refine required_faithful _ (list_faithful ?_)
  intro f hf
  exact FunctionDeclaration.codec_faithful (by omega) (hdeclarations.required.list f hf)
    (hexact f hf)

theorem CallingConfig.codec_faithful (c : CallingConfig) : codec.Faithful 2 c :=
  record_faithful (by decide) rfl
    ⟨required_faithful _ (string_faithful c.mode 1),
      optionalInPlace_faithful _ (list_solid _) fun names _ => strings_faithful names 0, trivial⟩

theorem ToolConfig.codec_faithful (c : ToolConfig) : codec.Faithful 3 c :=
  record_faithful (by decide) rfl ⟨required_faithful _ c.calling.codec_faithful, trivial⟩

namespace Request

/-- There is no floating-point number in the request. -/
structure IsExact (r : Request) : Prop where
  contents : ∀ c ∈ r.contents, c.IsExact
  systemInstruction : ∀ c ∈ r.systemInstruction, c.IsExact
  generationConfig : ∀ c ∈ r.generationConfig, c.IsExact
  tools : ∀ tools ∈ r.tools, ∀ tool ∈ tools, tool.IsExact

theorem codec_faithful {r : Request} {d : Nat} (hd : d + 6 ≤ nestingLimit)
    (h : codec.Reads (d + 6) r) (hexact : r.IsExact) : codec.Faithful (d + 6) r := by
  obtain ⟨hcontents, hsystem, hconfig, htools, -⟩ := h.record fun _ => rfl
  have htool (tools : List Tool) (hsome : tools ∈ r.tools) (tool : Tool) (hmem : tool ∈ tools) :
      Tool.codec.Faithful (d + 4) tool :=
    Tool.codec_faithful (by omega) ((htools.optionalInPlace tools hsome).option.list tool hmem)
      (hexact.tools tools hsome tool hmem)
  refine record_faithful (by decide) rfl ⟨?_, ?_, ?_, ?_, ?_, trivial⟩
  · exact required_faithful _ (list_faithful fun c hc =>
      Content.codec_faithful_of_reads (hcontents.required.list c hc) (hexact.contents c hc))
  · exact optionalInPlace_faithful _ (record_solid _ _ _) fun c hc =>
      Content.codec_faithful_of_reads (hsystem.optionalInPlace c hc).option
        (hexact.systemInstruction c hc)
  · exact optionalInPlace_faithful _ (record_solid _ _ _) fun c hc =>
      GenerationConfig.codec_faithful (by omega) (hconfig.optionalInPlace c hc).option
        (hexact.generationConfig c hc)
  · exact optionalInPlace_faithful _ (list_solid _) fun tools hsome =>
      list_faithful (htool tools hsome)
  · exact optionalInPlace_faithful _ (record_solid _ _ _) fun c _ =>
      c.codec_faithful.mono (by omega)

end Request

theorem PredictInstance.codec_faithful (i : PredictInstance) : codec.Faithful 1 i :=
  record_faithful (by decide) rfl ⟨required_faithful _ (string_faithful i.prompt 0), trivial⟩

theorem PredictParameters.codec_faithful (p : PredictParameters) : codec.Faithful 1 p :=
  record_faithful (by decide) rfl
    ⟨required_faithful _ (uint32_faithful p.sampleCount 0),
      required_faithful _ (string_faithful p.aspectRatio 0),
      required_faithful _ (string_faithful p.safetyFilterLevel 0),
      required_faithful _ (string_faithful p.personGeneration 0), trivial⟩

theorem PredictRequest.codec_faithful (r : PredictRequest) : codec.Faithful 3 r :=
  record_faithful (by decide) rfl
    ⟨required_faithful _ (list_faithful fun i _ => i.codec_faithful),
      required_faithful _ (r.parameters.codec_faithful.mono (by decide)), trivial⟩

theorem Prediction.codec_faithful (p : Prediction) : codec.Faithful 1 p :=
  record_faithful (by decide) rfl ⟨nullable_text _, nullable_text _, trivial⟩

theorem PredictResponse.codec_faithful (r : PredictResponse) : codec.Faithful 3 r :=
  record_faithful (by decide) rfl
    ⟨withDefault_faithful _ _ (list_faithful fun p _ => p.codec_faithful), trivial⟩

end ChatDialect.Vertex
