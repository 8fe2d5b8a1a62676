import ChatDialect.Proofs.Sse.Emission
import ChatDialect.Proofs.Sse.Frames
import ChatDialect.Proofs.Text.Cuts
import ChatDialect.Proofs.Vertex.Identity

/-! Lines that a provider's stream does not understand are as good as not there, and so are payloads
that it understands but has nothing to say to, once it knows who it is. -/
namespace ChatDialect

open Chat Sse

def ProviderStream.provider : ProviderStream → Provider
  | .anthropic _ => .anthropic
  | .vertex _ => .vertex

/-- Whether a payload means anything to the streams of a provider. -/
def Provider.heeds (p : Provider) (text : String) : Bool :=
  match p with
  | .anthropic => (Anthropic.Event.ofText? text).isSome
  | .vertex => text = "[DONE]" || (Vertex.Response.ofText? text).isSome

/-- A line that carries no payload behind its `data:`, or one without a meaning. -/
def Provider.isNoise (p : Provider) (line : List UInt8) : Bool :=
  let text := Text.trimChars (Utf8.lossy line).toList
  let payload := String.ofList (Text.trimChars (text.drop "data:".length))
  !("data:".toList <+: text && payload ≠ "" && p.heeds payload)

theorem Provider.isNoise_eq (p : Provider) (line : List UInt8) :
    p.isNoise line = !(payload? line).any p.heeds := by
  let text := Text.trimChars (Utf8.lossy line).toList
  let payload := String.ofList (Text.trimChars (text.drop "data:".length))
  have hpayload : payload? line =
      (if "data:".toList <+: text then some payload else none).filter (· ≠ "") := by
    rw [payload?, dataPayload?, Text.after?_eq, apply_ite (Option.map _)]
    rfl
  rw [hpayload, Option.any_filter]
  change (!(decide ("data:".toList <+: text) && decide (payload ≠ "") && p.heeds payload)) = _
  by_cases hprefix : "data:".toList <+: text
  · rw [decide_eq_true hprefix, if_pos hprefix, Bool.true_and, Option.any_some]
  · rw [decide_eq_false hprefix, if_neg hprefix]
    rfl

theorem ProviderStream.provider_payload (s : ProviderStream) (text : String) :
    (s.payload text).1.provider = s.provider := by
  cases s <;> rfl

theorem ProviderStream.payload_of_unheeded (s : ProviderStream) {text : String}
    (h : s.provider.heeds text = false) : s.payload text = (s, .skip) := by
  cases s with
  | anthropic s =>
    have hnone : Anthropic.Event.ofText? text = none := by
      simpa [provider, Provider.heeds] using h
    rw [payload, s.payload_eq, hnone]
  | vertex s =>
    have hnone : text ≠ "[DONE]" ∧ Vertex.Response.ofText? text = none := by
      simpa [provider, Provider.heeds] using h
    rw [payload, s.payload_eq, hnone.2, if_neg hnone.1]

namespace Anthropic.Stream

variable {s : Stream}

/-- Once an event came, one that says nothing and names nothing leaves no trace. -/
theorem event_of_skip {e : Event} (hbegun : s.begun) (hskip : (s.event e).2 = .skip)
    (hstart : e.isStart = false) : (s.event e).1 = s := by
  have hstate : { s with begun := true } = s := by rw [← hbegun]
  rw [event_eq] at hskip ⊢
  cases hu : s.utterance? e with
  | some u =>
    rw [hu] at hskip
    cases hskip
  | none =>
    cases e with
    | messageStart m => cases hstart
    | blockStart index b =>
      cases b with
      | toolUse id name => cases hu
      | other => exact hstate
    | _ => exact hstate

theorem stateAfter_of_skip {before : List String} {text : String}
    (hbefore : ∃ t ∈ before, (Event.ofText? t).isSome)
    (hskip : ((stateAfter payload s before).payload text).2 = .skip)
    (hstart : ∀ m, Event.ofText? text ≠ some (.messageStart m)) :
    ((stateAfter payload s before).payload text).1 = stateAfter payload s before := by
  have hbegun : (stateAfter payload s before).begun := by
    obtain ⟨t, ht, he⟩ := hbefore
    obtain ⟨e, he⟩ := Option.isSome_iff_exists.mp he
    have hmem : e ∈ before.filterMap Event.ofText? := List.mem_filterMap.mpr ⟨t, ht, he⟩
    rw [stateAfter_payload, begun_stateAfter]
    cases hevents : before.filterMap Event.ofText? with
    | nil =>
      rw [hevents] at hmem
      cases hmem
    | cons _ _ => exact Bool.or_true _
  rw [payload_eq] at hskip ⊢
  cases he : Event.ofText? text with
  | none => rfl
  | some e =>
    rw [he] at hskip
    refine event_of_skip hbegun hskip ?_
    cases e with
    | messageStart m => exact absurd he (hstart m)
    | _ => rfl

end Anthropic.Stream

namespace Vertex.Stream

variable {s : Stream}

/-- Once a chunk has gone out, a response that says nothing leaves no trace. -/
theorem response_of_skip {r : Response} (hemitted : s.emitted) (hskip : (s.response r).2 = .skip) :
    (s.response r).1 = s := by
  have hidentify : s.identify r = s := if_pos hemitted
  rw [response_eq] at hskip ⊢
  have hchunk : s.chunk? r = none := by
    cases hc : s.chunk? r with
    | none => rfl
    | some c =>
      rw [hc] at hskip
      cases hskip
  have hchoices : s.choices r = [] := (s.chunk?_eq_none.mp hchunk).1
  have hsilent := (s.choices_eq_nil.mp hchoices).2
  rw [hidentify, hchunk, hchoices, choicesFrom_of_silent hsilent]
  simp

theorem emitted_payload (s : Stream) (text : String) :
    (s.payload text).1.emitted = (s.emitted || !(s.payload text).2.passed.isEmpty) := by
  rw [payload_eq]
  cases Response.ofText? text with
  | none => by_cases hdone : text = "[DONE]" <;> simp [hdone]
  | some r =>
    simp only [response_eq, Step.passed]
    cases s.chunk? r <;> rfl

theorem emitted_stateAfter (s : Stream) (texts : List String) :
    (stateAfter payload s texts).emitted =
      (s.emitted || !(chunksFrom payload s texts).isEmpty) := by
  induction texts generalizing s with
  | nil => simp
  | cons text texts ih =>
    rw [stateAfter_cons, chunksFrom_cons, ih, emitted_payload, Bool.or_assoc]
    cases (s.payload text).2.passed <;> rfl

theorem stateAfter_of_skip {before : List String} {text : String}
    (hbefore : chunksFrom payload s before ≠ [])
    (hskip : ((stateAfter payload s before).payload text).2 = .skip) :
    ((stateAfter payload s before).payload text).1 = stateAfter payload s before := by
  have hemitted : (stateAfter payload s before).emitted := by
    rw [emitted_stateAfter, Bool.or_eq_true]
    exact .inr (by simpa using hbefore)
  rw [payload_eq] at hskip ⊢
  cases hr : Response.ofText? text with
  | none => rfl
  | some r =>
    rw [hr] at hskip
    exact response_of_skip hemitted hskip

end Vertex.Stream

namespace Sse

/-- A payload that says nothing and leaves no trace can be taken away. -/
theorem chunksFrom_without {σ : Type} {step : σ → String → σ × Step} {s : σ} {before : List String}
    {text : String} (hskip : (step (stateAfter step s before) text).2 = .skip)
    (hstate : (step (stateAfter step s before) text).1 = stateAfter step s before)
    (after : List String) :
    chunksFrom step s (before ++ text :: after) = chunksFrom step s (before ++ after) := by
  rw [chunksFrom_append, chunksFrom_append, chunksFrom_cons, hskip, hstate]
  rfl

theorem filterMap_filter_isNoise (p : Provider) (lines : List (List UInt8)) :
    (lines.filter fun line => !p.isNoise line).filterMap payload? =
      (lines.filterMap payload?).filter p.heeds := by
  induction lines with
  | nil => rfl
  | cons line lines ih =>
    cases hp : payload? line with
    | none =>
      have hnoise : (!p.isNoise line) = false := by simp [p.isNoise_eq, hp]
      rw [List.filter_cons, hnoise, List.filterMap_cons_none hp]
      exact ih
    | some text =>
      have hnoise : (!p.isNoise line) = p.heeds text := by simp [p.isNoise_eq, hp]
      rw [List.filter_cons, hnoise, List.filterMap_cons_some hp, List.filter_cons]
      split
      · rw [List.filterMap_cons_some hp, ih]
      · exact ih

/-- The chunks of a stream come from the lines that mean something to it. -/
theorem takePayloads_without_noise (s : ProviderStream) (lines : List (List UInt8)) :
    takePayloads ProviderStream.payload s
        ((lines.filter fun line => !s.provider.isNoise line).filterMap payload?) =
      takePayloads ProviderStream.payload s (lines.filterMap payload?) := by
  rw [filterMap_filter_isNoise]
  apply takePayloads_filter ProviderStream.payload fun s' => s'.provider = s.provider
  · intro s' text hs'
    rw [s'.provider_payload, hs']
  · intro s' text hs' hunheeded
    rw [← hs'] at hunheeded
    exact s'.payload_of_unheeded hunheeded
  · rfl

theorem relay_of_same_sense (s : ProviderStream) (sink : Sink) {input input' : Input}
    (hfault : input.fault = input'.fault)
    (hlines : (input.lines.filter fun line => !s.provider.isNoise line) =
      input'.lines.filter fun line => !s.provider.isNoise line) :
    (s.relay input sink).output = (s.relay input' sink).output ∧
      (s.relay input sink).outcome = (s.relay input' sink).outcome := by
  have htaken := takePayloads_without_noise s input.lines
  rw [hlines, takePayloads_without_noise] at htaken
  obtain ⟨hwritten, -, houtcome⟩ := relay_leaves ProviderStream.payload s input sink
  obtain ⟨hwritten', -, houtcome'⟩ := relay_leaves ProviderStream.payload s input' sink
  rw [htaken, ← hfault] at hwritten' houtcome'
  constructor
  · rw [Run.output_eq, Run.output_eq]
    exact congrArg List.flatten (hwritten.trans hwritten'.symm)
  · exact houtcome.trans houtcome'.symm

/-- Lines put in at the end of a line come between the lines that were there. -/
theorem lines_insert {head noise tail : List UInt8} (fault : Option String)
    (hhead : (cutLines head).2 = []) (hend : tail = [] ∨ (cutLines noise).2 = []) :
    ∃ added, (∀ line ∈ added, line ∈ Input.lines ⟨noise, none⟩) ∧
      Input.lines ⟨head ++ noise ++ tail, fault⟩ =
        (cutLines head).1 ++ added ++ Input.lines ⟨tail, fault⟩ := by
  have hcut : ∀ line ∈ (cutLines noise).1, line ∈ Input.lines ⟨noise, none⟩ := by
    intro line hline
    rw [Input.lines_of_end]
    exact List.mem_append_left _ hline
  rcases hend with rfl | hnoise
  · refine ⟨Input.lines ⟨noise, fault⟩, ?_, ?_⟩
    · cases fault with
      | none => exact fun _ hline => hline
      | some text =>
        rw [Input.lines_of_fault]
        exact hcut
    · have hnil : Input.lines ⟨[], fault⟩ = [] := by cases fault <;> rfl
      rw [hnil, List.append_nil, List.append_nil, Input.lines_append, hhead, List.nil_append]
  · refine ⟨(cutLines noise).1, hcut, ?_⟩
    rw [List.append_assoc, Input.lines_append, hhead, List.nil_append, Input.lines_append, hnoise,
      List.nil_append, List.append_assoc]

/-- Noise may stand anywhere. Two inputs that make the same sense to a stream give the same output
and outcome; so does an input with noise put in at the end of any of its lines, or before the first.
To an Anthropic stream the end of other streams is noise. A payload that says nothing can be taken
away, if an event came before it and it begins no message, or if a chunk of a Vertex stream has gone
out before it. -/
theorem noise_unheard (s : ProviderStream) (sink : Sink) :
    (∀ input input' : Input, input.fault = input'.fault →
      (input.lines.filter fun line => !s.provider.isNoise line) =
        (input'.lines.filter fun line => !s.provider.isNoise line) →
      (s.relay input sink).output = (s.relay input' sink).output ∧
        (s.relay input sink).outcome = (s.relay input' sink).outcome) ∧
    (∀ (head noise tail : List UInt8) (fault : Option String),
      (cutLines head).2 = [] → (tail = [] ∨ (cutLines noise).2 = []) →
      (∀ line ∈ Input.lines ⟨noise, none⟩, s.provider.isNoise line) →
      let noisy := s.relay ⟨head ++ noise ++ tail, fault⟩ sink
      let quiet := s.relay ⟨head ++ tail, fault⟩ sink
      noisy.output = quiet.output ∧ noisy.outcome = quiet.outcome) ∧
    Provider.anthropic.heeds "[DONE]" = false ∧
    (∀ (s : Anthropic.Stream) (before : List String) (text : String),
      (∃ t ∈ before, (Anthropic.Event.ofText? t).isSome) →
      ((stateAfter Anthropic.Stream.payload s before).payload text).2 = .skip →
      (∀ m, Anthropic.Event.ofText? text ≠ some (.messageStart m)) →
      stateAfter Anthropic.Stream.payload s (before ++ [text]) =
          stateAfter Anthropic.Stream.payload s before ∧
        ∀ after, chunksFrom Anthropic.Stream.payload s (before ++ text :: after) =
          chunksFrom Anthropic.Stream.payload s (before ++ after)) ∧
    ∀ (s : Vertex.Stream) (before : List String) (text : String),
      chunksFrom Vertex.Stream.payload s before ≠ [] →
      ((stateAfter Vertex.Stream.payload s before).payload text).2 = .skip →
      stateAfter Vertex.Stream.payload s (before ++ [text]) =
          stateAfter Vertex.Stream.payload s before ∧
        ∀ after, chunksFrom Vertex.Stream.payload s (before ++ text :: after) =
          chunksFrom Vertex.Stream.payload s (before ++ after) := by
  have hsnoc {σ : Type} (step : σ → String → σ × Step) (s : σ) (before : List String)
      (text : String) : stateAfter step s (before ++ [text]) =
        (step (stateAfter step s before) text).1 := by
    simp [stateAfter]
  refine ⟨?_, ?_, ?_, ?_, ?_⟩
  · intro input input' hfault hlines
    exact relay_of_same_sense s sink hfault hlines
  · intro head noise tail fault hhead hend hnoise
    obtain ⟨added, hadded, hnoisy⟩ := lines_insert fault hhead hend
    have hquiet : Input.lines ⟨head ++ tail, fault⟩ =
        (cutLines head).1 ++ Input.lines ⟨tail, fault⟩ := by
      rw [Input.lines_append, hhead, List.nil_append]
    have hunheard : (added.filter fun line => !s.provider.isNoise line) = [] := by
      rw [List.filter_eq_nil_iff]
      intro line hline
      simp [hnoise line (hadded line hline)]
    apply relay_of_same_sense s sink
    · rfl
    · rw [hnoisy, hquiet, List.filter_append, List.filter_append, List.filter_append, hunheard,
        List.append_nil]
  · cbv
  · intro s before text hbefore hskip hstart
    have hstate := Anthropic.Stream.stateAfter_of_skip hbefore hskip hstart
    exact ⟨(hsnoc _ _ _ _).trans hstate, chunksFrom_without hskip hstate⟩
  · intro s before text hbefore hskip
    have hstate := Vertex.Stream.stateAfter_of_skip hbefore hskip
    exact ⟨(hsnoc _ _ _ _).trans hstate, chunksFrom_without hskip hstate⟩

def pingText : String := "\x7b\"type\":\"ping\"\x7d"

theorem ofText?_pingText : Anthropic.Event.ofText? pingText = some .ping :=
  Anthropic.Event.ofText?_eq_some (.object [(.clean "type", .text (.clean "ping"))] .closed)
    (by cbv) (by cbv)

/-- A response without candidates. -/
def idleText : String := "\x7b\x7d"

theorem ofText?_idleText : Vertex.Response.ofText? idleText = some ⟨[], none, none, none, none⟩ :=
  Vertex.Response.ofText?_eq_some (.object [] .closed) (by decide) (by cbv) (by cbv)

theorem pauses_unheard :
    let ids := Ids.ofSource (.sequential "chatcmpl-t")
    let s := ProviderStream.new .anthropic "m" 7 ids
    let noise := Utf8.ofString ": wait\n" ++ dataLine "[DONE]"
    let greeting := dataLine Anthropic.greetingText
    (s.relay ⟨greeting ++ noise ++ greeting, none⟩ .sound).output =
        (s.relay ⟨greeting ++ greeting, none⟩ .sound).output ∧
      chunksFrom Anthropic.Stream.payload (.new "m" 7 ids)
          [Anthropic.greetingText, pingText, Anthropic.greetingText] =
        chunksFrom Anthropic.Stream.payload (.new "m" 7 ids)
          [Anthropic.greetingText, Anthropic.greetingText] ∧
      chunksFrom Vertex.Stream.payload (.new "m" 7 ids)
          [Vertex.rollText, idleText, Vertex.rollText] =
        chunksFrom Vertex.Stream.payload (.new "m" 7 ids) [Vertex.rollText, Vertex.rollText] := by
  intro ids s noise greeting
  obtain ⟨-, hinsert, hdone, hanthropic, hvertex⟩ := noise_unheard s .sound
  refine ⟨?_, ?_, ?_⟩
  · have hwait : cutLines (Utf8.ofString ": wait\n") = ([Utf8.ofString ": wait\n"], []) := by decide
    have hlines : cutLines noise = ([Utf8.ofString ": wait\n", dataLine "[DONE]"], []) := by
      rw [cutLines_append, hwait, List.nil_append, cutLines_dataLine fits_done]
      rfl
    have hnoise : ∀ line ∈ Input.lines ⟨noise, none⟩, s.provider.isNoise line := by
      rw [Input.lines_of_end, hlines]
      refine List.forall_mem_cons.mpr ⟨by decide, List.forall_mem_singleton.mpr ?_⟩
      rw [Provider.isNoise_eq, payload?_dataLine fits_done]
      exact congrArg (!·) hdone
    have hgreeting := congrArg Prod.snd (cutLines_dataLine fits_greetingText)
    exact (hinsert greeting noise greeting none hgreeting
      (.inr (congrArg Prod.snd hlines)) hnoise).1
  · have hskip : ((stateAfter Anthropic.Stream.payload (.new "m" 7 ids)
        [Anthropic.greetingText]).payload pingText).2 = .skip := by
      rw [Anthropic.Stream.payload_eq, ofText?_pingText]
      rfl
    refine (hanthropic _ [Anthropic.greetingText] pingText ?_ hskip ?_).2 [Anthropic.greetingText]
    · exact ⟨_, List.mem_cons_self, by rw [Anthropic.ofText?_greetingText]; rfl⟩
    · intro m hm
      rw [ofText?_pingText] at hm
      cases hm
  · have hspoken : chunksFrom Vertex.Stream.payload (.new "m" 7 ids) [Vertex.rollText] ≠ [] := by
      rw [Vertex.Stream.chunksFrom_payload, List.filterMap_cons_some Vertex.ofText?_rollText,
        List.filterMap_nil]
      decide
    have hskip : ((stateAfter Vertex.Stream.payload (.new "m" 7 ids)
        [Vertex.rollText]).payload idleText).2 = .skip := by
      rw [Vertex.Stream.payload_eq, ofText?_idleText]
      rfl
    exact (hvertex _ [Vertex.rollText] idleText hspoken hskip).2 [Vertex.rollText]

end Sse
end ChatDialect
