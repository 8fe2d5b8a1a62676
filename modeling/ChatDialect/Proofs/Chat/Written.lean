import ChatDialect.Chat.Chunk
import ChatDialect.Proofs.Json.Codec

/-! Every chunk can be written, and reads back from what was written. -/
namespace ChatDialect.Chat

open Json Json.Codec Json.Field

theorem FinishReason.ofName_name (r : FinishReason) : ofName r.name = r := by
  cases r <;> rfl

theorem FinishReason.codec_faithful (r : FinishReason) (d : Nat) : codec.Faithful d r := by
  refine ⟨.str r.name, rfl, rfl, Nat.zero_le d, ?_⟩
  intro src _
  exact congrArg Except.ok (ofName_name r)

theorem FinishReason.codec_solid : codec.Solid := by
  intro r h
  cases h

theorem PromptDetails.codec_faithful (x : PromptDetails) : codec.Faithful 1 x := by
  have hcount (o : Option UInt64) : ∀ n ∈ o, uint64.Faithful 0 n := fun n _ => uint64_faithful n 0
  have hsolid : uint64.Solid := number_solid _ _
  refine record_faithful (by decide) rfl ⟨?_, ?_, trivial⟩
  · exact optional_faithful _ hsolid (hcount _)
  · exact optional_faithful _ hsolid (hcount _)

theorem CompletionDetails.codec_faithful (x : CompletionDetails) : codec.Faithful 1 x := by
  have hcount (o : Option UInt64) : ∀ n ∈ o, uint64.Faithful 0 n := fun n _ => uint64_faithful n 0
  have hsolid : uint64.Solid := number_solid _ _
  refine record_faithful (by decide) rfl ⟨?_, ?_, ?_, trivial⟩
  · exact optional_faithful _ hsolid (hcount _)
  · exact optional_faithful _ hsolid (hcount _)
  · exact optional_faithful _ hsolid (hcount _)

theorem Usage.codec_faithful (x : Usage) : codec.Faithful 2 x := by
  refine record_faithful (by decide) rfl ⟨?_, ?_, ?_, ?_, ?_, trivial⟩
  · exact withDefault_faithful _ _ (uint64_faithful x.promptTokens 1)
  · exact withDefault_faithful _ _ (uint64_faithful x.completionTokens 1)
  · exact withDefault_faithful _ _ (uint64_faithful x.totalTokens 1)
  · exact optional_faithful _ (record_solid _ _ _) fun details _ => details.codec_faithful
  · exact optional_faithful _ (record_solid _ _ _) fun details _ => details.codec_faithful

theorem Image.codec_faithful (x : Image) : codec.Faithful 1 x := by
  refine record_faithful (by decide) rfl ⟨?_, ?_, ?_, ?_, trivial⟩
  all_goals exact optional_text _

theorem FunctionFragment.codec_faithful (x : FunctionFragment) : codec.Faithful 1 x := by
  refine record_faithful (by decide) rfl ⟨?_, ?_, trivial⟩
  all_goals exact optionalInPlace_text _

theorem CallFragment.codec_faithful (x : CallFragment) : codec.Faithful 2 x := by
  refine record_faithful (by decide) rfl ⟨?_, ?_, ?_, ?_, trivial⟩
  · exact required_faithful _ (uint32_faithful x.index 1)
  · exact optionalInPlace_text _
  · exact optionalInPlace_text _
  · exact optionalInPlace_faithful _ (record_solid _ _ _) fun f _ => f.codec_faithful

theorem Delta.codec_faithful (x : Delta) : codec.Faithful 4 x := by
  have hcalls (calls : List CallFragment) : CallFragment.codec.list.Faithful 3 calls :=
    list_faithful fun call _ => call.codec_faithful
  have himages (images : List Image) : Image.codec.list.Faithful 2 images :=
    list_faithful fun image _ => image.codec_faithful
  refine record_faithful (by decide) rfl ⟨?_, ?_, ?_, ?_, ?_, trivial⟩
  · exact optionalInPlace_text _
  · exact optionalInPlace_text _
  · exact optionalInPlace_text _
  · exact optionalInPlace_faithful _ (list_solid _) fun calls _ => hcalls calls
  · exact optionalInPlace_faithful _ (list_solid _) fun images _ =>
      (himages images).mono (by decide)

theorem ChunkChoice.codec_faithful (x : ChunkChoice) : codec.Faithful 5 x := by
  refine record_faithful (by decide) rfl ⟨?_, ?_, ?_, trivial⟩
  · exact required_faithful _ (uint32_faithful x.index 4)
  · exact required_faithful _ x.delta.codec_faithful
  · exact nullableInPlace_faithful _ FinishReason.codec_solid fun r _ => r.codec_faithful 4

theorem Chunk.codec_faithful (c : Chunk) : codec.Faithful 7 c := by
  refine record_faithful (by decide) rfl ⟨?_, ?_, ?_, ?_, ?_, ?_, trivial⟩
  · exact required_faithful _ (string_faithful c.id 6)
  · exact required_faithful _ (string_faithful c.object 6)
  · exact withDefault_faithful _ _ (int64_faithful c.created 6)
  · exact required_faithful _ (string_faithful c.model 6)
  · exact required_faithful _ (list_faithful fun choice _ => choice.codec_faithful)
  · exact optionalInPlace_faithful _ (record_solid _ _ _) fun usage _ =>
      usage.codec_faithful.mono (by decide)

/-- A chunk is written as an object, and its text reads back as the chunk. -/
theorem Chunk.read_write (c : Chunk) :
    ∃ fields, isExactFields fields ∧ codec.write c = some (obj fields).bytes ∧
      codec.read (obj fields).bytes = .ok c := by
  have hfaithful : codec.Faithful nestingLimit c := c.codec_faithful.mono (by decide)
  obtain ⟨j, hj, -⟩ := c.codec_faithful
  obtain ⟨fields, rfl⟩ := exists_fields hj
  obtain ⟨hexact, hwrite, hread⟩ := hfaithful.read_write hj
  exact ⟨fields, hexact, hwrite, hread⟩

end ChatDialect.Chat
