import ChatDialect.Gateway
import ChatDialect.Proofs.Json.Encoding

/-! Every request for a provider can be written, and what is written has a turn in the place of each
turn. -/
namespace ChatDialect

open Json Json.Codec

namespace Anthropic

theorem SystemBlock.codec_total : codec.Total
  | .text _ => ⟨_, rfl⟩

theorem ContentBlock.codec_total : codec.Total
  | .text _ => ⟨_, rfl⟩
  | .image (.base64 _ _) => ⟨_, rfl⟩
  | .image (.url _) => ⟨_, rfl⟩
  | .document (.base64 _ _) => ⟨_, rfl⟩
  | .document (.url _) => ⟨_, rfl⟩
  | .toolUse _ _ _ => ⟨_, rfl⟩

theorem Message.codec_total : codec.Total :=
  record_total ⟨name_total _ _, list_total ContentBlock.codec_total, trivial⟩

theorem Tool.codec_total : codec.Total :=
  record_total ⟨string_total, option_total string_total, value_total, trivial⟩

theorem Metadata.codec_total : codec.Total := record_total ⟨option_total string_total, trivial⟩

theorem Request.codec_total : codec.Total :=
  record_total ⟨string_total, number_total _ _, list_total Message.codec_total,
    list_total SystemBlock.codec_total, option_total bool_total, option_total (number_total _ _),
    option_total (number_total _ _), option_total (list_total Tool.codec_total),
    option_total value_total, option_total (list_total string_total),
    option_total Metadata.codec_total, trivial⟩

theorem Request.item?_messages {r : Request} {doc : Json} (h : codec.encode r = some doc)
    (i : Nat) : doc.item? "messages" i = r.messages[i]?.bind Message.codec.encode := by
  obtain ⟨fields, hfields, hdoc⟩ := Option.bind_eq_some_iff.mp h
  obtain ⟨model, afterModel, -, hmodel, rfl⟩ := Json.Fields.encode_cons hfields rfl
  obtain ⟨limit, afterLimit, -, hlimit, rfl⟩ := Json.Fields.encode_cons hmodel rfl
  obtain ⟨messages, others, hmessages, -, rfl⟩ := Json.Fields.encode_cons hlimit rfl
  obtain ⟨turns, rfl, hturns⟩ := exists_items hmessages
  cases hdoc
  exact getElem?_encodeItems hturns i

theorem writeRequest_eq {body : List UInt8} {r : Chat.Request} {model : String} {doc : Json}
    (hbody : Chat.Request.codec.read body = .ok r)
    (hdoc : Request.codec.encode (Request.ofChat r model) = some doc) :
    Provider.anthropic.writeRequest body model = .ok doc.bytes := by
  simp [Provider.writeRequest, Payload.read, hbody, Except.mapError, writeBody, Codec.write, hdoc,
    bind, Except.bind]

end Anthropic

namespace Vertex

theorem Blob.codec_total : codec.Total := record_total ⟨string_total, string_total, trivial⟩

theorem FileUri.codec_total : codec.Total := record_total ⟨string_total, string_total, trivial⟩

theorem FunctionCall.codec_total : codec.Total := record_total ⟨string_total, value_total, trivial⟩

theorem Part.codec_total : codec.Total :=
  record_total ⟨option_total string_total, option_total bool_total, option_total Blob.codec_total,
    option_total FileUri.codec_total, option_total FunctionCall.codec_total,
    option_total value_total, option_total string_total, trivial⟩

theorem Content.codec_total : codec.Total :=
  record_total ⟨option_total string_total, list_total Part.codec_total, trivial⟩

theorem Schema.codec_total : codec.Total := fun s => ⟨s.toJson, rfl⟩

theorem ImageConfig.codec_total : codec.Total :=
  record_total ⟨option_total string_total, option_total string_total, trivial⟩

theorem ThinkingConfig.codec_total : codec.Total :=
  record_total ⟨number_total _ _, bool_total, trivial⟩

theorem GenerationConfig.codec_total : codec.Total :=
  record_total ⟨option_total (number_total _ _), option_total (number_total _ _),
    option_total (number_total _ _), option_total (number_total _ _),
    option_total (number_total _ _), option_total (number_total _ _),
    option_total (number_total _ _), option_total (number_total _ _),
    option_total (list_total string_total), option_total string_total,
    option_total Schema.codec_total, option_total (list_total string_total),
    option_total ImageConfig.codec_total, option_total ThinkingConfig.codec_total, trivial⟩

theorem FunctionDeclaration.codec_total : codec.Total :=
  record_total ⟨string_total, option_total string_total, Schema.codec_total, trivial⟩

theorem Tool.codec_total : codec.Total :=
  record_total ⟨list_total FunctionDeclaration.codec_total, trivial⟩

theorem CallingConfig.codec_total : codec.Total :=
  record_total ⟨string_total, option_total (list_total string_total), trivial⟩

theorem ToolConfig.codec_total : codec.Total := record_total ⟨CallingConfig.codec_total, trivial⟩

theorem Request.codec_total : codec.Total :=
  record_total ⟨list_total Content.codec_total, option_total Content.codec_total,
    option_total GenerationConfig.codec_total, option_total (list_total Tool.codec_total),
    option_total ToolConfig.codec_total, trivial⟩

theorem Request.item?_contents {r : Request} {doc : Json} (h : codec.encode r = some doc)
    (i : Nat) : doc.item? "contents" i = r.contents[i]?.bind Content.codec.encode := by
  obtain ⟨fields, hfields, hdoc⟩ := Option.bind_eq_some_iff.mp h
  obtain ⟨contents, others, hcontents, -, rfl⟩ := Json.Fields.encode_cons hfields rfl
  obtain ⟨turns, rfl, hturns⟩ := exists_items hcontents
  cases hdoc
  exact getElem?_encodeItems hturns i

theorem writeRequest_eq {body : List UInt8} {r : Chat.Request} {model : String} {doc : Json}
    (hbody : Chat.Request.codec.read body = .ok r)
    (hdoc : Request.codec.encode (Request.ofChat r model) = some doc) :
    Provider.vertex.writeRequest body model = .ok doc.bytes := by
  simp [Provider.writeRequest, Payload.read, hbody, Except.mapError, writeBody, Codec.write, hdoc,
    bind, Except.bind]

end Vertex

/-- Every request is written for a provider, and what is written depends on nothing but what the
provider is told. -/
theorem Provider.exists_written (p : Provider) (r : Chat.Request) (model : String) :
    ∃ out, ∀ body r', Chat.Request.codec.read body = .ok r' →
      Anthropic.Request.ofChat r' model = Anthropic.Request.ofChat r model →
      Vertex.Request.ofChat r' model = Vertex.Request.ofChat r model →
      p.writeRequest body model = .ok out := by
  cases p with
  | anthropic =>
    obtain ⟨doc, hdoc⟩ := Anthropic.Request.codec_total (Anthropic.Request.ofChat r model)
    refine ⟨doc.bytes, ?_⟩
    intro body r' hread ha _
    exact Anthropic.writeRequest_eq hread (ha ▸ hdoc)
  | vertex =>
    obtain ⟨doc, hdoc⟩ := Vertex.Request.codec_total (Vertex.Request.ofChat r model)
    refine ⟨doc.bytes, ?_⟩
    intro body r' hread _ hv
    exact Vertex.writeRequest_eq hread (hv ▸ hdoc)

end ChatDialect
