import ChatDialect.Anthropic.Reply
import ChatDialect.Proofs.Json.Buffered
import ChatDialect.Proofs.Json.Encoding
import ChatDialect.Proofs.Json.Settling
import ChatDialect.Vertex.Reply

/-! Responses of both providers read back from what is written of them. Only the arguments of calls
ask for something: their numbers are integers and their fields in order. -/
namespace ChatDialect

open Json Json.Codec Json.Field

/-- Arguments that read back: exact, in normal form, and not too deep. -/
structure Json.Travels (d : Nat) (j : Json) : Prop where
  exact : j.isExact
  normal : j.normalize = j
  depth_le : j.depth ≤ d

theorem Json.Travels.faithful {d : Nat} {j : Json} (h : j.Travels d) : value.Faithful d j :=
  value_faithful h.exact h.normal h.depth_le

/-- Arguments that were read travel, if they are exact; missing ones are `null`. -/
theorem Json.Field.Reads.travels {name : String} {d : Nat} {j : Json}
    (h : (Field.withDefault name .null .value).Reads d j) (hexact : j.isExact) : j.Travels d := by
  rcases h.withDefault with h | rfl
  · exact ⟨hexact, h.value.1, h.value.2⟩
  · exact ⟨rfl, rfl, Nat.zero_le d⟩

namespace Anthropic

theorem Usage.codec_faithful (u : Usage) : codec.Faithful 1 u := by
  have hcount (o : Option UInt64) : ∀ n ∈ o, uint64.Faithful 0 n := fun n _ => uint64_faithful n 0
  have hsolid : uint64.Solid := number_solid _ _
  refine record_faithful (by decide) rfl ⟨?_, ?_, ?_, ?_, trivial⟩
  · exact withDefault_faithful _ _ (uint64_faithful u.inputTokens 0)
  · exact withDefault_faithful _ _ (uint64_faithful u.outputTokens 0)
  · exact optionalInPlace_faithful _ hsolid (hcount _)
  · exact optionalInPlace_faithful _ hsolid (hcount _)

theorem ReplyBlock.text_faithful (s : String) (d : Nat) : codec.Faithful (d + 1) (.text s) :=
  tagged_faithful "text" (s, ()) rfl rfl (by decide) (by decide) rfl
    ⟨required_faithful _ (string_faithful s d), trivial⟩

theorem ReplyBlock.toolUse_faithful (id name : String) {input : Json} {d : Nat}
    (h : input.Travels d) : codec.Faithful (d + 1) (.toolUse id name input) :=
  tagged_faithful "tool_use" (id, name, input, ()) rfl rfl (by decide) (by decide) rfl
    ⟨required_faithful _ (string_faithful id d), required_faithful _ (string_faithful name d),
      withDefault_faithful _ _ h.faithful, trivial⟩

theorem Response.codec_faithful {r : Response} {d : Nat}
    (h : ∀ b ∈ r.content, ReplyBlock.codec.Faithful (d + 1) b) : codec.Faithful (d + 3) r := by
  have htext (s : String) : string.Faithful (d + 2) s := string_faithful s _
  refine record_faithful (by decide) rfl ⟨?_, ?_, ?_, ?_, ?_, ?_, ?_, ?_, trivial⟩
  · exact withDefault_faithful _ _ (htext r.id)
  · exact withDefault_faithful _ _ (htext r.kind)
  · exact withDefault_faithful _ _ (htext r.role)
  · exact withDefault_faithful _ _ (list_faithful h)
  · exact withDefault_faithful _ _ (htext r.model)
  · exact nullable_text _
  · exact nullable_text _
  · exact withDefault_faithful _ _ (r.usage.codec_faithful.mono (by omega))

theorem Response.get?_content {r : Response} {doc : Json} (h : codec.encode r = some doc) :
    doc.get? "content" = ReplyBlock.codec.list.encode r.content := by
  obtain ⟨fields, hfields, hdoc⟩ := Option.bind_eq_some_iff.mp h
  obtain ⟨id, afterId, -, hid, rfl⟩ := Fields.encode_cons hfields rfl
  obtain ⟨kind, afterKind, -, hkind, rfl⟩ := Fields.encode_cons hid rfl
  obtain ⟨role, afterRole, -, hrole, rfl⟩ := Fields.encode_cons hkind rfl
  obtain ⟨content, others, hcontent, -, rfl⟩ := Fields.encode_cons hrole rfl
  cases hdoc
  exact hcontent.symm

end Anthropic

namespace Vertex

theorem FunctionCall.codec_faithful {c : FunctionCall} {d : Nat} (h : c.args.Travels d) :
    codec.Faithful (d + 1) c :=
  record_faithful (by decide) rfl
    ⟨withDefault_faithful _ _ (string_faithful c.name d), withDefault_faithful _ _ h.faithful,
      trivial⟩

theorem Part.text_faithful (s : String) (d : Nat) : codec.Faithful (d + 1) (.ofText s) :=
  record_faithful (by decide) rfl
    ⟨optional_text _, optional_none _ _, optional_none _ _, optional_none _ _, optional_none _ _,
      optional_none _ _, optional_none _ _, trivial⟩

theorem Part.call_faithful (name : String) {args : Json} {d : Nat} (h : args.Travels d) :
    codec.Faithful (d + 2) (.ofCall name args) := by
  have hcall : ∀ c ∈ some (FunctionCall.mk name args), FunctionCall.codec.Faithful (d + 1) c := by
    rintro _ ⟨⟩
    exact FunctionCall.codec_faithful h
  exact record_faithful (by decide) rfl
    ⟨optional_none _ _, optional_none _ _, optional_none _ _, optional_none _ _,
      optional_faithful _ (record_solid _ _ _) hcall, optional_none _ _, optional_none _ _, trivial⟩

theorem Content.codec_faithful {c : Content} {d : Nat}
    (h : ∀ p ∈ c.parts, Part.codec.Faithful d p) : codec.Faithful (d + 2) c :=
  record_faithful (by decide) rfl
    ⟨optional_text _, withDefault_faithful _ _ (list_faithful h), trivial⟩

theorem Candidate.codec_faithful {c : Candidate} {d : Nat}
    (h : ∀ content ∈ c.content, Content.codec.Faithful d content) : codec.Faithful (d + 1) c := by
  refine record_faithful (by decide) rfl ⟨?_, nullable_text _, ?_, trivial⟩
  · exact nullable_faithful _ (record_solid _ _ _) h
  · exact nullable_faithful _ (number_solid _ _) fun n _ => uint32_faithful n d

theorem ModalityCount.codec_faithful (c : ModalityCount) : codec.Faithful 1 c :=
  record_faithful (by decide) rfl
    ⟨withDefault_faithful _ _ (string_faithful c.modality 0),
      withDefault_faithful _ _ (uint64_faithful c.tokens 0), trivial⟩

theorem Usage.codec_faithful (u : Usage) : codec.Faithful 3 u := by
  have hcount (o : Option UInt64) : ∀ n ∈ o, uint64.Faithful 2 n := fun n _ => uint64_faithful n 2
  have hsolid : uint64.Solid := number_solid _ _
  have hdetails (details : List ModalityCount) : ModalityCount.codec.list.Faithful 2 details :=
    list_faithful fun c _ => c.codec_faithful
  refine record_faithful (by decide) rfl ⟨?_, ?_, ?_, ?_, ?_, ?_, ?_, trivial⟩
  · exact withDefault_faithful _ _ (uint64_faithful u.promptTokens 2)
  · exact withDefault_faithful _ _ (uint64_faithful u.candidateTokens 2)
  · exact nullable_faithful _ hsolid (hcount _)
  · exact nullable_faithful _ hsolid (hcount _)
  · exact nullable_faithful _ hsolid (hcount _)
  · exact withDefault_faithful _ _ (hdetails u.promptDetails)
  · exact withDefault_faithful _ _ (hdetails u.candidateDetails)

theorem PromptFeedback.codec_faithful (f : PromptFeedback) : codec.Faithful 1 f :=
  record_faithful (by decide) rfl ⟨nullable_text _, trivial⟩

theorem Response.codec_faithful {r : Response} {d : Nat}
    (h : ∀ c ∈ r.candidates, Candidate.codec.Faithful (d + 2) c) : codec.Faithful (d + 4) r := by
  refine record_faithful (by decide) rfl ⟨?_, ?_, nullable_text _, nullable_text _, ?_, trivial⟩
  · exact withDefault_faithful _ _ (list_faithful h)
  · exact nullable_faithful _ (record_solid _ _ _) fun u _ => u.codec_faithful.mono (by omega)
  · exact nullable_faithful _ (record_solid _ _ _) fun f _ => f.codec_faithful.mono (by omega)

theorem Content.get?_parts {c : Content} {doc : Json} (h : codec.encode c = some doc) :
    doc.get? "parts" = Part.codec.list.encode c.parts := by
  obtain ⟨role, parts⟩ := c
  obtain ⟨fields, hfields, hdoc⟩ := Option.bind_eq_some_iff.mp h
  cases role with
  | none =>
    obtain ⟨items, others, hitems, -, rfl⟩ := Fields.encode_cons (r := ()) hfields rfl
    cases hdoc
    exact hitems.symm
  | some role =>
    obtain ⟨name, afterName, -, hname, rfl⟩ := Fields.encode_cons hfields rfl
    obtain ⟨items, others, hitems, -, rfl⟩ := Fields.encode_cons hname rfl
    cases hdoc
    exact hitems.symm

theorem Candidate.get?_content {c : Candidate} {doc : Json} (h : codec.encode c = some doc) :
    doc.get? "content" = Content.codec.option.encode c.content := by
  obtain ⟨fields, hfields, hdoc⟩ := Option.bind_eq_some_iff.mp h
  obtain ⟨content, others, hcontent, -, rfl⟩ := Fields.encode_cons hfields rfl
  cases hdoc
  exact hcontent.symm

theorem Response.item?_candidates {r : Response} {doc : Json} (h : codec.encode r = some doc)
    (i : Nat) : doc.item? "candidates" i = r.candidates[i]?.bind Candidate.codec.encode := by
  obtain ⟨fields, hfields, hdoc⟩ := Option.bind_eq_some_iff.mp h
  obtain ⟨candidates, others, hcandidates, -, rfl⟩ := Fields.encode_cons hfields rfl
  obtain ⟨items, rfl, hitems⟩ := exists_items hcandidates
  cases hdoc
  exact getElem?_encodeItems hitems i

end Vertex
end ChatDialect
