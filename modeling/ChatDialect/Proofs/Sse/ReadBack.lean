import Mathlib.Data.List.Forall2
import ChatDialect.Gateway
import ChatDialect.Proofs.Sse.Emission
import ChatDialect.Proofs.Sse.Frames

/-! What a relay writes, read back by the rules that it reads its own input by: one payload for each
chunk, which is the text of that chunk, and the terminator behind them. -/
namespace ChatDialect.Sse

open Chat

/-- The payloads that a reader finds. -/
def readBack (bytes : List UInt8) : List String := (Input.lines ⟨bytes, none⟩).filterMap payload?

/-- A frame is read back as its payload; the empty line behind it is none. -/
theorem readBack_frame {text : String} (h : Fits text) (rest : List UInt8) :
    readBack (dataLine text ++ [10] ++ rest) = text :: readBack rest := by
  have hempty : payload? [10] = none := by decide
  have hlf : cutLines [10] = ([[10]], []) := rfl
  unfold readBack
  rw [List.append_assoc, Input.lines_dataLine h, Input.lines_append, hlf, List.singleton_append,
    List.filterMap_cons_some (payload?_dataLine h), List.filterMap_cons_none hempty,
    List.nil_append]

theorem readBack_terminator : readBack terminator = ["[DONE]"] := by
  have hread := readBack_frame fits_done []
  rw [List.append_nil] at hread
  exact hread

theorem readBack_frames (chunks : List Chunk) :
    ∃ payloads, readBack ((chunks.filterMap frame?).flatten ++ terminator) =
        payloads ++ ["[DONE]"] ∧
      List.Forall₂ (fun text c => text ≠ "[DONE]" ∧
        Chunk.codec.read (Utf8.ofString text) = .ok c ∧
        Chunk.codec.write c = some (Utf8.ofString text)) payloads chunks := by
  induction chunks with
  | nil => exact ⟨[], readBack_terminator, .nil⟩
  | cons c chunks ih =>
    obtain ⟨payloads, hrest, hpayloads⟩ := ih
    obtain ⟨text, hframe, hfits, hrenders⟩ := frame?_eq c
    refine ⟨text :: payloads, ?_, .cons hrenders hpayloads⟩
    rw [List.filterMap_cons_some hframe, List.flatten_cons, List.append_assoc,
      readBack_frame hfits, hrest, List.cons_append]

/-- A relay that ends without a fault leaves a stream that reads back as its chunks, as many as it
says, and the terminator. -/
theorem relay_reads_back (s : ProviderStream) (input : Input) (sink : Sink) (n : Nat)
    (h : (s.relay input sink).outcome = .ok n) :
    let texts := input.lines.filterMap payload?
    let chunks := (takePayloads ProviderStream.payload s texts).1
    ∃ payloads, readBack (s.relay input sink).output = payloads ++ ["[DONE]"] ∧
      payloads.length = n ∧
      List.Forall₂ (fun text c => text ≠ "[DONE]" ∧
        Chunk.codec.read (Utf8.ofString text) = .ok c ∧
        Chunk.codec.write c = some (Utf8.ofString text)) payloads chunks := by
  intro texts chunks
  obtain ⟨houtput, hn⟩ := relay_of_ok h
  change (s.relay input sink).output = _ at houtput
  obtain ⟨payloads, hread, hpayloads⟩ := readBack_frames chunks
  refine ⟨payloads, ?_, ?_, hpayloads⟩
  · rw [houtput]
    exact hread
  · rw [hpayloads.length_eq, hn]
    exact (length_frames chunks).symm

theorem greetings_read_back :
    let s := ProviderStream.new .anthropic "m" 7 (.ofSource (.sequential "chatcmpl-t"))
    let run := s.relay ⟨greetings, none⟩ .sound
    run.outcome = .ok 2 ∧ ∃ first second, readBack run.output = [first, second, "[DONE]"] ∧
      first ≠ "[DONE]" ∧ second ≠ "[DONE]" := by
  intro s run
  obtain ⟨c, d, s', htaken⟩ := takePayloads_greetings "m" 7 (.ofSource (.sequential "chatcmpl-t"))
  have houtcome : run.outcome = .ok 2 := by
    obtain ⟨-, hend⟩ :=
      relayLines_sound ProviderStream.payload none s 0 (Input.lines ⟨greetings, none⟩)
    simp only [takeLines_eq, payloads_greetings, s, htaken] at hend
    exact hend.trans (congrArg (fun n => Except.ok (0 + n)) (length_frames [c, d]))
  refine ⟨houtcome, ?_⟩
  obtain ⟨payloads, hread, -, hpayloads⟩ := relay_reads_back s ⟨greetings, none⟩ .sound 2 houtcome
  simp only [payloads_greetings, s, htaken] at hpayloads
  cases hpayloads with
  | cons hfirst hrest =>
    cases hrest with
    | cons hsecond hnil =>
      cases hnil
      exact ⟨_, _, hread, hfirst.1, hsecond.1⟩

end ChatDialect.Sse
