import ChatDialect.Gateway
import ChatDialect.Proofs.Sse.Emission

/-! The relay of buffers and the relay of a reader send the same bytes and end the same way,
wherever the buffers are cut. Both take the lines of the input in order; the pending bytes of the
one are the beginning of the line that the other has not read to its end. -/
namespace ChatDialect.Sse

variable {σ : Type}

/-- What arrives as one input: the bytes before the first fault, then that fault. -/
def Input.ofArrivals : List Arrival → Input
  | [] => ⟨[], none⟩
  | .fault text :: _ => ⟨[], some text⟩
  | .buffer bytes :: arrivals => ⟨bytes ++ (ofArrivals arrivals).bytes, (ofArrivals arrivals).fault⟩

/-- The invariant of the loop: nothing pending is a complete line, and what is pending stands before
the input that is still to arrive. -/
theorem relayBuffers_eq_takeLines (translate : Translator σ) (s : σ) (pending : List UInt8)
    (arrivals : List Arrival) (hp : cutLines pending = ([], pending)) :
    let input := Input.ofArrivals arrivals
    let taken := takeLines translate s (Input.lines ⟨pending ++ input.bytes, input.fault⟩)
    relayBuffers translate s pending arrivals =
      taken.1.map .event ++ [closing taken.2 input.fault] := by
  induction arrivals generalizing s pending with
  | nil =>
    simp only [Input.ofArrivals, List.append_nil, Input.lines_of_end, hp, List.nil_append]
    cases pending with
    | nil => rfl
    | cons b bs =>
      -- the bytes behind the last line feed are a line of their own
      simp only [relayBuffers, closeBuffers, if_neg (List.cons_ne_nil b bs), takeLines]
      cases takeLine translate s (b :: bs) with
      | mk s' outcome => cases outcome <;> simp [closing]
  | cons a arrivals ih =>
    cases a with
    | fault text =>
      simp only [Input.ofArrivals, List.append_nil, Input.lines_of_fault, hp]
      rfl
    | buffer bytes =>
      simp only [Input.ofArrivals, relayBuffers]
      rw [← List.append_assoc, Input.lines_append, takeLines_append]
      cases takeLines translate s (cutLines (pending ++ bytes)).1 with
      | mk events t =>
        cases t with
        | none => simp [closing]
        | some s' =>
          have hrest := ih s' (cutLines (pending ++ bytes)).2 (cutLines_rest (pending ++ bytes))
          simp only [hrest, List.map_append, List.append_assoc]

theorem flatMap_bytes_event (events : List (List UInt8)) :
    (events.map Item.event).flatMap Item.bytes = events.flatten := by
  rw [List.flatMap_map]
  exact List.flatMap_id'

/-- However a stream is cut into buffers, what goes out is what the reader of its bytes sends on.
The last item is a fault exactly if the reader ends with that fault. -/
theorem relayBuffers_output_eq_relay (s : ProviderStream) (arrivals : List Arrival) :
    let items := s.relayBuffers arrivals
    let run := s.relay (.ofArrivals arrivals) .sound
    items.flatMap Item.bytes = run.output ∧
      (∀ text, items.getLast? = some (.fault text) ↔ run.outcome = .error text) ∧
      ∀ others, Input.ofArrivals others = Input.ofArrivals arrivals →
        s.relayBuffers others = items := by
  have hitems := fun arrivals =>
    relayBuffers_eq_takeLines ProviderStream.payload s [] arrivals cutLines_nil
  obtain ⟨hout, hend⟩ := relayLines_sound ProviderStream.payload
    (Input.ofArrivals arrivals).fault s 0 (Input.ofArrivals arrivals).lines
  simp only [List.nil_append] at hitems
  refine ⟨?_, ?_, ?_⟩
  · rw [ProviderStream.relayBuffers, hitems, List.flatMap_append, flatMap_bytes_event]
    simpa [ProviderStream.relay, relay] using hout.symm
  · intro text
    rw [ProviderStream.relayBuffers, hitems, List.getLast?_concat, ProviderStream.relay, relay,
      hend]
    cases closing (takeLines ProviderStream.payload s (Input.ofArrivals arrivals).lines).2
      (Input.ofArrivals arrivals).fault <;> simp
  · intro others heq
    rw [ProviderStream.relayBuffers, ProviderStream.relayBuffers, hitems, hitems, heq]

end ChatDialect.Sse
