import ChatDialect.Proofs.Sse.Emission
import ChatDialect.Proofs.Sse.Frames

/-! A relay that meets a fault has written its items up to that fault and nothing else. A fault of
the writer counts at the item it concerns, a fault of the reader behind the items of all complete
lines. -/
namespace ChatDialect.Sse

open Chat

theorem emit_leaves_of_fault {sink : Sink} {items : List (List UInt8)} {k : Nat}
    (hk : k < items.length) (hbefore : ∀ j < k, sink.SoundAt j) (text : String) :
    (sink.writeFault k = some text →
        (emit sink 0 items).Leaves (items.take k) k (.error text)) ∧
      (sink.writeFault k = none → sink.flushFault k = some text →
        (emit sink 0 items).Leaves (items.take (k + 1)) k (.error text)) := by
  have hsound : ∀ j < k, sink.SoundAt (0 + j) := by simpa using hbefore
  have hfault := emit_of_fault sink hk hsound text
  rw [Nat.zero_add] at hfault
  have hlength : (items.take k).length = k := List.length_take_of_le (Nat.le_of_lt hk)
  have hw := Run.written_sent (items.take k)
  have hf := Run.flushes_sent (items.take k)
  rw [hlength] at hf
  constructor
  · intro hwrite
    rw [hfault.1 hwrite, ← List.append_nil (sent _)]
    constructor
    · exact (hw [] _).trans (List.append_nil _)
    · exact hf [] _
    · rfl
  · intro hwrite hflush
    rw [hfault.2 hwrite hflush]
    constructor
    · rw [hw, List.take_add_one, List.getElem?_eq_getElem hk]
      rfl
    · exact hf [.write items[k]] _
    · rfl

/-- The first fault decides how a relay ends. The items are the frames of the chunks, and the
terminator unless the reader fails before the stream is done. If write `k` fails, the first `k`
items are written; if flush `k` fails, one more; either way `k` items are flushed. If nothing fails
that is reached, all items are written and flushed, and the outcome is the fault of the reader, else
the number of chunks. A reader that fails hands out its complete lines only, and whenever it is
asked for a line, everything written was flushed. -/
theorem fault_cuts_output (s : ProviderStream) (input : Input) (sink : Sink) :
    let taken := takePayloads ProviderStream.payload s (input.lines.filterMap payload?)
    let frames := taken.1.filterMap frame?
    let items := frames ++ if taken.2.isNone ∨ input.fault = none then [terminator] else []
    let run := s.relay input sink
    run.output = run.written.flatten ∧
      (∀ k < items.length, (∀ j < k, sink.SoundAt j) → ∀ text,
        (sink.writeFault k = some text → run.Leaves (items.take k) k (.error text)) ∧
        (sink.writeFault k = none → sink.flushFault k = some text →
          run.Leaves (items.take (k + 1)) k (.error text))) ∧
      ((∀ k < items.length, sink.SoundAt k) →
        (taken.2.isNone ∨ input.fault = none →
          run.Leaves (frames ++ [terminator]) (frames.length + 1) (.ok frames.length)) ∧
        ∀ text, taken.2.isSome → input.fault = some text →
          run.Leaves frames frames.length (.error text)) ∧
      (∀ text, input.fault = some text → input.lines = (cutLines input.bytes).1) ∧
      ∀ before after, run.actions = before ++ .read :: after →
        ∀ early bytes late, before = early ++ .write bytes :: late → .flush ∈ late := by
  intro taken frames items run
  have hitems : frames ++ (closing taken.2 input.fault).events = items := by
    simp only [items]
    cases taken.2 <;> cases input.fault <;> rfl
  have hrun : run.Leaves (emit sink 0 items).written (emit sink 0 items).flushes
      ((emit sink 0 items).outcome.bind
        fun _ => ending (closing taken.2 input.fault) frames.length) := by
    rw [← hitems]
    exact relay_leaves ProviderStream.payload s input sink
  refine ⟨run.output_eq, ?_, ?_, ?_, ?_⟩
  · intro k hk hbefore text
    obtain ⟨hwrite, hflush⟩ := emit_leaves_of_fault hk hbefore text
    exact ⟨fun h => hrun.bind (hwrite h), fun h₁ h₂ => hrun.bind (hflush h₁ h₂)⟩
  · intro hsound
    have hreached : ∀ k < items.length, sink.SoundAt (0 + k) := by simpa using hsound
    have hall := hrun.bind (emit_leaves_of_sound hreached)
    rw [← hitems] at hall
    constructor
    · intro hend
      rw [closing_of_end hend] at hall
      rwa [Item.events, List.length_append] at hall
    · intro text hopen hfault
      rw [closing_of_fault hopen hfault] at hall
      rwa [Item.events, List.append_nil] at hall
  · intro text hfault
    have hinput : input = ⟨input.bytes, some text⟩ := by rw [← hfault]
    rw [hinput, Input.lines_of_fault]
  · intro before after hactions early bytes late hbefore
    have horderly := orderly_relayLines ProviderStream.payload sink input.fault s 0 input.lines
    change Orderly run.actions at horderly
    rw [hactions] at horderly
    exact horderly.flushed hbefore

/-- Four ends of a stream with two chunks: its second write fails, its second flush fails, its
reader fails within a third line, or nothing does. -/
theorem greetings_cut_off :
    let s := ProviderStream.new .anthropic "m" 7 (.ofSource (.sequential "chatcmpl-t"))
    let frames := (takePayloads ProviderStream.payload s
      [Anthropic.greetingText, Anthropic.greetingText]).1.filterMap frame?
    let full : Sink := ⟨fun n => if n = 1 then some "full" else none, fun _ => none⟩
    let stuck : Sink := ⟨fun _ => none, fun n => if n = 1 then some "stuck" else none⟩
    frames.length = 2 ∧
      (s.relay ⟨greetings, none⟩ full).Leaves (frames.take 1) 1 (.error "full") ∧
      (s.relay ⟨greetings, none⟩ stuck).Leaves frames 1 (.error "stuck") ∧
      (s.relay ⟨greetings ++ frameHead, some "gone"⟩ .sound).Leaves frames 2 (.error "gone") ∧
      (s.relay ⟨greetings, none⟩ .sound).Leaves (frames ++ [terminator]) 3 (.ok 2) := by
  intro s frames full stuck
  obtain ⟨c, d, s', htaken⟩ := takePayloads_greetings "m" 7 (.ofSource (.sequential "chatcmpl-t"))
  have hlength : frames.length = 2 := by
    simp only [frames, s, htaken]
    exact length_frames [c, d]
  have hpayloads := payloads_greetings none
  have hunfinished : (Input.lines ⟨greetings ++ frameHead, some "gone"⟩).filterMap payload? =
      [Anthropic.greetingText, Anthropic.greetingText] := by
    have hpart : Input.lines ⟨frameHead, some "gone"⟩ = [] := by decide
    rw [greetings, List.append_assoc, Input.lines_dataLine fits_greetingText,
      Input.lines_dataLine fits_greetingText, hpart]
    simp [payload?_dataLine fits_greetingText]
  have hitems : 1 < (frames ++ [terminator]).length := by
    rw [List.length_append, hlength]
    decide
  have hbefore (sink : Sink) (hsink : sink.SoundAt 0) : ∀ j < 1, sink.SoundAt j := by
    intro j hj
    rwa [Nat.lt_one_iff.mp hj]
  refine ⟨hlength, ?_, ?_, ?_, ?_⟩
  · obtain ⟨-, hfault, -⟩ := fault_cuts_output s ⟨greetings, none⟩ full
    simp only [hpayloads, or_true, if_true] at hfault
    have hcut := (hfault 1 hitems (hbefore full ⟨rfl, rfl⟩) "full").1 rfl
    have hfirst : (frames ++ [terminator]).take 1 = frames.take 1 :=
      List.take_append_of_le_length (by omega)
    rw [← hfirst]
    exact hcut
  · obtain ⟨-, hfault, -⟩ := fault_cuts_output s ⟨greetings, none⟩ stuck
    simp only [hpayloads, or_true, if_true] at hfault
    have hcut := (hfault 1 hitems (hbefore stuck ⟨rfl, rfl⟩) "stuck").2 rfl rfl
    have hboth : (frames ++ [terminator]).take 2 = frames := List.take_left' hlength
    rw [← hboth]
    exact hcut
  · obtain ⟨-, -, hsound, -⟩ := fault_cuts_output s ⟨greetings ++ frameHead, some "gone"⟩ .sound
    simp only [hunfinished] at hsound
    have hopen : (takePayloads ProviderStream.payload s
        [Anthropic.greetingText, Anthropic.greetingText]).2.isSome := by
      simp only [s, htaken, Option.isSome_some]
    have hcut := (hsound fun _ _ => ⟨rfl, rfl⟩).2 "gone" hopen rfl
    rw [← hlength]
    exact hcut
  · obtain ⟨-, -, hsound, -⟩ := fault_cuts_output s ⟨greetings, none⟩ .sound
    simp only [hpayloads] at hsound
    have hall := (hsound fun _ _ => ⟨rfl, rfl⟩).1 (.inr trivial)
    change Run.Leaves _ (frames ++ [terminator]) (frames.length + 1) (.ok frames.length) at hall
    rwa [hlength] at hall

end ChatDialect.Sse
