import ChatDialect.Proofs.Sse.Agreement
import ChatDialect.Proofs.Sse.Noise

/-! A relay is causal. What it has sent for the complete lines that it was given stays sent, and it
goes on from the state that these lines leave; once one of them ends the stream, nothing behind
them counts. -/
namespace ChatDialect

open Chat Sse

/-- Whether a payload ends the streams of a provider. -/
def Provider.ends (p : Provider) (text : String) : Bool :=
  match p with
  | .anthropic => Anthropic.Event.ofText? text = some .messageStop
  | .vertex => text = "[DONE]"

theorem Anthropic.Stream.event_eq_done (s : Stream) (e : Event) :
    (s.event e).2 = .done ↔ e = .messageStop := by
  rw [event_eq]
  cases hu : s.utterance? e with
  | some u =>
    have hstop : e ≠ .messageStop := by
      rintro rfl
      cases hu
    simp [hstop, Step.one]
  | none => by_cases hstop : e = .messageStop <;> simp [hstop, Step.skip]

/-- Which payloads end a stream does not depend on what came before them. -/
theorem ProviderStream.payload_eq_done (s : ProviderStream) (text : String) :
    (s.payload text).2 = .done ↔ s.provider.ends text := by
  cases s with
  | anthropic s =>
    have hstep : (ProviderStream.payload (.anthropic s) text).2 = (s.payload text).2 := rfl
    rw [hstep, s.payload_eq, provider, Provider.ends, decide_eq_true_iff]
    cases Anthropic.Event.ofText? text with
    | none => simp [Step.skip]
    | some e => simp [s.event_eq_done]
  | vertex s =>
    have hstep : (ProviderStream.payload (.vertex s) text).2 = (s.payload text).2 := rfl
    rw [hstep, s.payload_eq, provider, Provider.ends, decide_eq_true_iff]
    cases hr : Vertex.Response.ofText? text with
    | none => by_cases hdone : text = "[DONE]" <;> simp [hdone, Step.skip]
    | some r =>
      have hdone : text ≠ "[DONE]" := by
        rintro rfl
        cases hr
      simp [hdone, Vertex.Stream.response_eq]

namespace Sse

/-- Whether one of the lines ends a stream of the provider. -/
def EndsIn (p : Provider) (lines : List (List UInt8)) : Prop :=
  ∃ line ∈ lines, (payload? line).any p.ends

theorem takePayloads_eq_none (s : ProviderStream) (texts : List String) :
    (takePayloads ProviderStream.payload s texts).2 = none ↔
      ∃ text ∈ texts, s.provider.ends text := by
  induction texts generalizing s with
  | nil => simp [takePayloads]
  | cons text texts ih =>
    have hdone := s.payload_eq_done text
    have hprovider := s.provider_payload text
    rw [takePayloads, List.exists_mem_cons_iff, ← hdone]
    cases hstep : s.payload text with
    | mk s' step =>
      rw [hstep] at hprovider
      cases step with
      | done => simp
      | chunks chunks => simpa [hprovider] using ih s'

theorem takeLines_eq_none (s : ProviderStream) (lines : List (List UInt8)) :
    (takeLines ProviderStream.payload s lines).2 = none ↔ EndsIn s.provider lines := by
  have hlines : EndsIn s.provider lines ↔
      ∃ text ∈ lines.filterMap payload?, s.provider.ends text := by
    simp only [EndsIn, Option.any_eq_true, List.mem_filterMap]
    constructor
    · rintro ⟨line, hline, text, htext, hends⟩
      exact ⟨text, ⟨line, hline, htext⟩, hends⟩
    · rintro ⟨text, ⟨line, hline, htext⟩, hends⟩
      exact ⟨line, hline, text, htext, hends⟩
  rw [takeLines_eq, hlines]
  exact takePayloads_eq_none s _

section Cut

/-- Bytes that end with a line feed are cut into lines without a rest. -/
theorem cutLines_concat (bs : List UInt8) : ∃ lines line,
    cutLines (bs ++ [10]) = (lines ++ [line], []) := by
  induction bs with
  | nil => exact ⟨[], [10], rfl⟩
  | cons b bs ih =>
    obtain ⟨lines, line, hcut⟩ := ih
    rw [List.cons_append, cutLines, hcut]
    by_cases hb : b = 10
    · exact ⟨[b] :: lines, line, by simp [hb]⟩
    · cases lines with
      | nil => exact ⟨[], b :: line, by simp [hb]⟩
      | cons first lines => exact ⟨(b :: first) :: lines, line, by simp [hb]⟩

theorem cutLines_rest_eq_nil {bs : List UInt8} (h : ∀ b ∈ bs.getLast?, b = 10) :
    (cutLines bs).2 = [] := by
  rcases List.eq_nil_or_concat bs with rfl | ⟨init, b, rfl⟩
  · rfl
  · obtain rfl : b = 10 := h b (by simp)
    obtain ⟨lines, line, hcut⟩ := cutLines_concat init
    rw [List.concat_eq_append, hcut]

/-- At the end of a line an input is cut into two. -/
theorem Input.lines_append_of_rest {head : List UInt8} (hhead : (cutLines head).2 = [])
    (tail : List UInt8) (fault : Option String) :
    Input.lines ⟨head ++ tail, fault⟩ =
      Input.lines ⟨head, none⟩ ++ Input.lines ⟨tail, fault⟩ := by
  rw [Input.lines_append, hhead, List.nil_append, Input.lines_of_end, if_pos hhead, List.append_nil]

end Cut

section Lines
variable {σ : Type} {translate : Translator σ} {sink : Sink} {s : σ} {xs : List (List UInt8)}

theorem takeLines_append_of_open {s' : σ} (h : (takeLines translate s xs).2 = some s')
    (ys : List (List UInt8)) :
    takeLines translate s (xs ++ ys) =
      ((takeLines translate s xs).1 ++ (takeLines translate s' ys).1,
        (takeLines translate s' ys).2) := by
  rw [takeLines_append]
  cases htaken : takeLines translate s xs with
  | mk events t =>
    rw [htaken] at h
    cases h
    rfl

theorem takeLines_append_of_done (h : (takeLines translate s xs).2 = none)
    (ys : List (List UInt8)) : takeLines translate s (xs ++ ys) = takeLines translate s xs := by
  rw [takeLines_append]
  cases htaken : takeLines translate s xs with
  | mk events t =>
    rw [htaken] at h
    cases h
    rfl

/-- Behind a line that ends the stream nothing is read, and no fault is met. -/
theorem relayLines_append_of_done (h : (takeLines translate s xs).2 = none)
    (ys : List (List UInt8)) (fault : Option String) (n : Nat) :
    relayLines translate sink fault s n (xs ++ ys) = relayLines translate sink none s n xs := by
  induction xs generalizing s n with
  | nil => cases h
  | cons x xs ih =>
    rw [takeLines] at h
    rw [List.cons_append, relayLines, relayLines]
    cases hx : takeLine translate s x with
    | mk s' outcome =>
      rw [hx] at h
      cases outcome with
      | done => rfl
      | events events =>
        have hrest := ih h
        simp only [hrest]

end Lines

section Frames

/-- The frames of chunks that a run has written. -/
def Run.frames (r : Run) : List (List UInt8) := r.written.filter (· ≠ terminator)

theorem written_emit_append (sink : Sink) (n : Nat) (xs ys : List (List UInt8)) :
    (emit sink n (xs ++ ys)).written =
      match (emit sink n xs).outcome with
      | .ok m => xs ++ (emit sink m ys).written
      | .error _ => (emit sink n xs).written := by
  rw [emit_append]
  cases hemit : emit sink n xs with
  | mk actions outcome =>
    cases outcome with
    | error text => rfl
    | ok m =>
      obtain ⟨rfl, -⟩ := emit_of_ok sink hemit
      exact Run.written_sent xs _ _

theorem mem_of_mem_written_emit {n : Nat} {events : List (List UInt8)} {w : List UInt8}
    (h : w ∈ (emit sink n events).written) : w ∈ events := by
  induction events generalizing n with
  | nil => cases h
  | cons e es ih =>
    rw [emit] at h
    split at h
    · cases h
    · split at h
      · exact List.mem_cons.mpr (.inl (List.mem_singleton.mp h))
      · rcases List.mem_cons.mp h with rfl | hrest
        · exact List.mem_cons_self
        · exact List.mem_cons_of_mem _ (ih hrest)

/-- Whatever is to be written behind some events, what is written of the events is the same. -/
theorem frames_emit_append (sink : Sink) (events more : List (List UInt8)) {last : List (List UInt8)}
    (hlast : ∀ e ∈ last, e = terminator) :
    (emit sink 0 (events ++ last)).frames <+: (emit sink 0 (events ++ more)).frames := by
  unfold Run.frames
  rw [written_emit_append, written_emit_append]
  cases (emit sink 0 events).outcome with
  | error text => exact List.prefix_refl _
  | ok m =>
    have hnone : (emit sink m last).written.filter (· ≠ terminator) = [] := by
      rw [List.filter_eq_nil_iff]
      intro w hw
      have hterminator := hlast w (mem_of_mem_written_emit hw)
      simpa using hterminator
    simp only [List.filter_append, hnone, List.append_nil]
    exact List.prefix_append _ _

theorem closing_events {σ : Type} {open? : Option σ} {fault : Option String} :
    ∀ e ∈ (closing open? fault).events, e = terminator := by
  intro e he
  cases open? with
  | none => exact List.mem_singleton.mp he
  | some s =>
    cases fault with
    | none => exact List.mem_singleton.mp he
    | some text => cases he

theorem frames_relay (s : ProviderStream) (input : Input) (sink : Sink) :
    let taken := takeLines ProviderStream.payload s input.lines
    (s.relay input sink).frames =
      (emit sink 0 (taken.1 ++ (closing taken.2 input.fault).events)).frames := by
  have hleaves := relayLines_leaves ProviderStream.payload sink input.fault s 0 input.lines
  exact congrArg (List.filter (· ≠ terminator)) hleaves.written

/-- The frames of chunks among the items. -/
def framesOf (items : List Item) : List (List UInt8) :=
  (items.flatMap Item.events).filter (· ≠ terminator)

theorem relayBuffers_eq (s : ProviderStream) (arrivals : List Arrival) :
    let input := Input.ofArrivals arrivals
    let taken := takeLines ProviderStream.payload s input.lines
    s.relayBuffers arrivals = taken.1.map .event ++ [closing taken.2 input.fault] :=
  relayBuffers_eq_takeLines ProviderStream.payload s [] arrivals cutLines_nil

theorem framesOf_relayBuffers (s : ProviderStream) (arrivals : List Arrival) :
    framesOf (s.relayBuffers arrivals) =
      (takeLines ProviderStream.payload s (Input.ofArrivals arrivals).lines).1.filter
        (· ≠ terminator) := by
  have hevents (events : List (List UInt8)) :
      (events.map Item.event).flatMap Item.events = events := by
    rw [List.flatMap_map]
    exact List.flatMap_singleton' events
  have hclosing (open? : Option ProviderStream) (fault : Option String) :
      (closing open? fault).events.filter (· ≠ terminator) = [] := by
    rw [List.filter_eq_nil_iff]
    intro e he
    simpa using closing_events e he
  rw [framesOf, relayBuffers_eq, List.flatMap_append, hevents, List.filter_append,
    List.flatMap_singleton, hclosing, List.append_nil]

end Frames

/-- What a stream says for the complete lines of `head` does not depend on what comes behind them.
As long as none of these lines ends the stream, which only the line itself decides, the chunks sent
for `head` alone are the first of those sent for `head` and more. If one of them does, both relays do
the same whatever follows, be it bytes or a fault, and the reader is not asked for more. It does not
matter how the bytes come in buffers. -/
theorem relay_causal (s : ProviderStream) (head : List UInt8)
    (hhead : ∀ b ∈ head.getLast?, b = 10) :
    let ended := EndsIn s.provider (Input.lines ⟨head, none⟩)
    (∀ s text, (ProviderStream.payload s text).2 = .done ↔ s.provider.ends text) ∧
    (¬ended → ∀ tail fault,
      (∀ sink, (s.relay ⟨head, none⟩ sink).frames <+: (s.relay ⟨head ++ tail, fault⟩ sink).frames) ∧
      ∀ alone longer, Input.ofArrivals alone = ⟨head, none⟩ →
        Input.ofArrivals longer = ⟨head ++ tail, fault⟩ →
        framesOf (s.relayBuffers alone) <+: framesOf (s.relayBuffers longer)) ∧
    (ended → ∀ tail fault,
      (∀ sink, s.relay ⟨head ++ tail, fault⟩ sink = s.relay ⟨head, none⟩ sink) ∧
      ∀ alone longer, Input.ofArrivals alone = ⟨head, none⟩ →
        Input.ofArrivals longer = ⟨head ++ tail, fault⟩ →
        s.relayBuffers longer = s.relayBuffers alone ∧
          (s.relayBuffers alone).getLast? = some (.event terminator)) := by
  intro ended
  have hlines := Input.lines_append_of_rest (cutLines_rest_eq_nil hhead)
  have htaken := takeLines_eq_none s (Input.lines ⟨head, none⟩)
  refine ⟨ProviderStream.payload_eq_done, ?_, ?_⟩
  · intro hopen tail fault
    obtain ⟨s', hs'⟩ := Option.ne_none_iff_exists'.mp (mt htaken.mp hopen)
    have hmore := takeLines_append_of_open hs' (Input.lines ⟨tail, fault⟩)
    constructor
    · intro sink
      rw [frames_relay, frames_relay, hlines, hmore, List.append_assoc]
      exact frames_emit_append sink _ _ closing_events
    · intro alone longer halone hlonger
      rw [framesOf_relayBuffers, framesOf_relayBuffers, halone, hlonger, hlines, hmore,
        List.filter_append]
      exact List.prefix_append _ _
  · intro hended tail fault
    have hdone := htaken.mpr hended
    constructor
    · intro sink
      rw [ProviderStream.relay, ProviderStream.relay, relay, relay, hlines]
      exact relayLines_append_of_done hdone _ fault 0
    · intro alone longer halone hlonger
      rw [relayBuffers_eq, relayBuffers_eq, halone, hlonger, hlines,
        takeLines_append_of_done hdone, hdone]
      exact ⟨rfl, List.getLast?_concat⟩

theorem lines_one_dataLine {text : String} (h : Fits text) :
    Input.lines ⟨dataLine text, none⟩ = [dataLine text] := by
  have hline := Input.lines_dataLine h [] none
  rwa [List.append_nil] at hline

theorem getLast?_dataLine (text : String) : ∀ b ∈ (dataLine text).getLast?, b = 10 := by
  rw [dataLine, List.getLast?_concat]
  rintro b ⟨rfl⟩
  rfl

/-- A stream that is done before its reader fails, in the same buffer, and one that goes on. -/
theorem done_before_fault :
    let ids := Ids.ofSource (.sequential "chatcmpl-t")
    let s := ProviderStream.new .vertex "m" 7 ids
    let s' := ProviderStream.new .anthropic "m" 7 ids
    let stop := dataLine "[DONE]"
    let more := stop ++ dataLine Vertex.rollText
    let greeting := dataLine Anthropic.greetingText
    s.relay ⟨more, some "gone"⟩ .sound = s.relay ⟨stop, none⟩ .sound ∧
      s.relayBuffers [.buffer more, .fault "gone"] = s.relayBuffers [.buffer stop] ∧
      (s'.relay ⟨greeting, none⟩ .sound).frames <+: (s'.relay ⟨greetings, none⟩ .sound).frames := by
  intro ids s s' stop more greeting
  have hended : EndsIn s.provider (Input.lines ⟨stop, none⟩) := by
    refine ⟨stop, ?_, ?_⟩
    · rw [lines_one_dataLine fits_done]
      exact List.mem_singleton_self _
    · rw [payload?_dataLine fits_done]
      rfl
  have hopen : ¬EndsIn s'.provider (Input.lines ⟨greeting, none⟩) := by
    rw [lines_one_dataLine fits_greetingText]
    rintro ⟨line, hline, hends⟩
    rw [List.mem_singleton.mp hline, payload?_dataLine fits_greetingText, Option.any_some] at hends
    change decide (Anthropic.Event.ofText? Anthropic.greetingText = some .messageStop) = true at hends
    rw [Anthropic.ofText?_greetingText] at hends
    cases hends
  obtain ⟨-, -, hfinal⟩ := relay_causal s stop (getLast?_dataLine _)
  obtain ⟨hreader, hbuffers⟩ := hfinal hended (dataLine Vertex.rollText) (some "gone")
  obtain ⟨-, hgrowing, -⟩ := relay_causal s' greeting (getLast?_dataLine _)
  obtain ⟨hfirst, -⟩ := hgrowing hopen greeting none
  refine ⟨hreader .sound, ?_, hfirst .sound⟩
  have hstop : stop ++ [] = stop := List.append_nil stop
  have hmore : more ++ [] = more := List.append_nil more
  refine (hbuffers [.buffer stop] [.buffer more, .fault "gone"] ?_ ?_).1
  · simp only [Input.ofArrivals, hstop]
  · simp only [Input.ofArrivals, hmore, more]

end Sse
end ChatDialect
