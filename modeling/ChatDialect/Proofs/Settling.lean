import ChatDialect.Proofs.Anthropic.Settling
import ChatDialect.Proofs.Vertex.Settling

/-! One pass through the codecs of the providers settles a value: however it was spelled, it is
written in one form, and that form is read as the same value. Types that are not known here are no
exception, since what is written for them is not known either. -/
namespace ChatDialect

open Json

/-- What is read in the dialects of the providers is settled by one pass, unless it holds a
floating-point number; in particular an unknown event stays unknown, and so do blocks and deltas. -/
theorem provider_spellings_settle :
    Anthropic.Request.codec.Settles (fun r => r.IsExact) ∧
    Anthropic.Response.codec.Settles (fun r => r.IsExact) ∧
    Anthropic.Event.codec.Settles (fun _ => True) ∧
    Vertex.Request.codec.Settles (fun r => r.IsExact) ∧
    Vertex.Response.codec.Settles (fun r => r.IsExact) ∧
    Vertex.PredictRequest.codec.Settles (fun _ => True) ∧
    Vertex.PredictResponse.codec.Settles (fun _ => True) ∧
    Vertex.Schema.codec.Settles (fun s => s.IsExact) ∧
    Anthropic.Event.codec.ReadsBack .unknown ∧
    Anthropic.ReplyBlock.codec.ReadsBack .unsupported ∧
    Anthropic.StreamBlock.codec.ReadsBack .other ∧
    Anthropic.BlockDelta.codec.ReadsBack .other := by
  have hevent (e : Anthropic.Event) : Anthropic.Event.codec.Faithful nestingLimit e :=
    e.codec_faithful.mono (by decide)
  have hblock : Anthropic.ReplyBlock.codec.Faithful nestingLimit .unsupported :=
    Anthropic.ReplyBlock.unsupported_faithful _
  refine ⟨?_, ?_, ?_, ?_, ?_, ?_, ?_, ?_, ?_, ?_, ?_, ?_⟩
  · exact Codec.settles_of_reads fun r hr hexact => Anthropic.Request.codec_faithful hr hexact
  · exact Codec.settles_of_reads fun r hr hexact =>
      Anthropic.Response.codec_faithful_of_reads hr hexact
  · exact Codec.settles_of_reads fun e _ _ => hevent e
  · exact Codec.settles_of_reads fun r hr hexact =>
      Vertex.Request.codec_faithful (Nat.le_refl _) hr hexact
  · exact Codec.settles_of_reads fun r hr hexact =>
      Vertex.Response.codec_faithful_of_reads hr hexact
  · exact Codec.settles_of_reads fun r _ _ => r.codec_faithful.mono (by decide)
  · exact Codec.settles_of_reads fun r _ _ => r.codec_faithful.mono (by decide)
  · exact Codec.settles_of_reads fun s hs hexact =>
      Vertex.Schema.codec_faithful (Nat.le_refl _) hs hexact
  · exact (hevent .unknown).readsBack
  · exact hblock.readsBack
  · exact ((Anthropic.StreamBlock.codec_faithful .other).mono (by decide)).readsBack
  · exact ((Anthropic.BlockDelta.codec_faithful .other).mono (by decide)).readsBack

/-- An event of a type that is not known here, with a field that nobody asks for. -/
def ghostEvent : Json := .obj [("type", .str "ghost"), ("index", .null)]

theorem ghostEvent_settles :
    Anthropic.Event.codec.read ghostEvent.bytes = .ok .unknown ∧
      Anthropic.Event.codec.read (Json.obj [("type", .str "Unknown")]).bytes = .ok .unknown := by
  have hread : Anthropic.Event.codec.read ghostEvent.bytes = .ok .unknown :=
    Codec.read_bytes rfl rfl
  have hencode : Anthropic.Event.codec.encode .unknown = some (.obj [("type", .str "Unknown")]) :=
    rfl
  have hwrite : Anthropic.Event.codec.write .unknown =
      some (Json.obj [("type", .str "Unknown")]).bytes := by
    unfold Codec.write
    rw [hencode]
    rfl
  obtain ⟨text, htext, hback⟩ :=
    provider_spellings_settle.2.2.1 ghostEvent.bytes .unknown hread trivial
  rw [Option.some.inj (hwrite.symm.trans htext)]
  exact ⟨hread, hback⟩

end ChatDialect
