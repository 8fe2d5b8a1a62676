import ChatDialect.Proofs.Sse.Payloads

/-! What a relay writes. Its reads apart, a run writes the events of its lines and what closes it,
one after the other, until the writer has a fault. -/
namespace ChatDialect.Sse

variable {σ : Type}

/-- What an item adds to the output: an event, unless it is a fault. -/
def Item.events : Item → List (List UInt8)
  | .event bytes => [bytes]
  | .fault _ => []

/-- Events as they go out when nothing fails. -/
def sent (events : List (List UInt8)) : List Action := events.flatMap fun e => [.write e, .flush]

@[simp] theorem sent_nil : sent [] = [] := rfl

@[simp] theorem sent_cons (e : List UInt8) (es : List (List UInt8)) :
    sent (e :: es) = .write e :: .flush :: sent es := rfl

namespace Run

/-- What is written, write by write. -/
def written (r : Run) : List (List UInt8) :=
  r.actions.filterMap fun
    | .write bytes => some bytes
    | _ => none

/-- What a run does, its reads apart. -/
def deeds (r : Run) : List Action := r.actions.filter (· ≠ .read)

theorem output_eq (r : Run) : r.output = r.written.flatten := by
  unfold output written
  induction r.actions with
  | nil => rfl
  | cons a rest ih => cases a <;> simp [ih]

/-- Two runs that do the same, reads apart, write and flush the same. -/
theorem written_eq_of_deeds {r r' : Run} (h : r.deeds = r'.deeds) :
    r.written = r'.written ∧ r.flushes = r'.flushes := by
  have hwritten (r : Run) : r.written = Run.written ⟨r.deeds, r.outcome⟩ := by
    unfold written deeds
    induction r.actions with
    | nil => rfl
    | cons a rest ih => cases a <;> simp [ih]
  have hflushes (r : Run) : r.flushes = Run.flushes ⟨r.deeds, r.outcome⟩ := by
    unfold flushes deeds
    induction r.actions with
    | nil => rfl
    | cons a rest ih => cases a <;> simp [ih]
  constructor
  · rw [hwritten r, hwritten r', h]
    rfl
  · rw [hflushes r, hflushes r', h]
    rfl

theorem written_sent (events : List (List UInt8)) (rest : List Action)
    (outcome : Except String Nat) :
    written ⟨sent events ++ rest, outcome⟩ = events ++ written ⟨rest, outcome⟩ := by
  unfold written
  induction events with
  | nil => rfl
  | cons e es ih => simpa using ih

theorem flushes_sent (events : List (List UInt8)) (rest : List Action)
    (outcome : Except String Nat) :
    flushes ⟨sent events ++ rest, outcome⟩ = events.length + flushes ⟨rest, outcome⟩ := by
  unfold flushes
  induction events with
  | nil => simp
  | cons e es ih =>
    rw [sent_cons, List.length_cons, List.cons_append, List.cons_append, List.countP_cons,
      List.countP_cons, ih]
    simp only [Bool.false_eq_true, if_false, if_true]
    omega

end Run

section Emit
variable (sink : Sink)

/-- Events that were all written were all flushed. -/
theorem emit_of_ok {n m : Nat} {events : List (List UInt8)} {actions : List Action}
    (h : emit sink n events = ⟨actions, .ok m⟩) :
    actions = sent events ∧ m = n + events.length := by
  induction events generalizing n actions with
  | nil =>
    cases h
    exact ⟨rfl, rfl⟩
  | cons e es ih =>
    unfold emit at h
    split at h
    · cases h
    · split at h
      · cases h
      · cases hrest : emit sink (n + 1) es with
        | mk more outcome =>
          rw [hrest] at h
          cases h
          obtain ⟨hmore, hm⟩ := ih hrest
          constructor
          · rw [hmore]
            rfl
          · rw [hm, List.length_cons]
            omega

theorem emit_append (n : Nat) (xs ys : List (List UInt8)) :
    emit sink n (xs ++ ys) =
      match emit sink n xs with
      | ⟨actions, .ok m⟩ => (emit sink m ys).after actions
      | r => r := by
  induction xs generalizing n with
  | nil => rfl
  | cons x xs ih =>
    rw [List.cons_append, emit, emit]
    cases sink.writeFault n with
    | some text => rfl
    | none =>
      cases sink.flushFault n with
      | some text => rfl
      | none =>
        simp only [ih]
        cases emit sink (n + 1) xs with
        | mk actions outcome => cases outcome <;> simp [Run.after]

/-- No fault at a write, nor at its flush. -/
def Sink.SoundAt (n : Nat) : Prop := sink.writeFault n = none ∧ sink.flushFault n = none

theorem emit_of_soundAt {n : Nat} {events : List (List UInt8)}
    (h : ∀ k < events.length, sink.SoundAt (n + k)) :
    emit sink n events = ⟨sent events, .ok (n + events.length)⟩ := by
  induction events generalizing n with
  | nil => rfl
  | cons e es ih =>
    have hfirst : sink.SoundAt n := h 0 (by simp)
    have hrest : ∀ k < es.length, sink.SoundAt (n + 1 + k) := by
      intro k hk
      have hnext := h (k + 1) (by simpa using hk)
      rwa [Nat.add_assoc, Nat.add_comm 1 k]
    have hlength : n + 1 + es.length = n + (es.length + 1) := by omega
    simp [emit, hfirst.1, hfirst.2, ih hrest, Run.after, hlength]

/-- The first fault ends the run: a write that fails writes nothing, a flush that fails comes behind
its write. -/
theorem emit_of_fault {n k : Nat} {events : List (List UInt8)} (hk : k < events.length)
    (hbefore : ∀ j < k, sink.SoundAt (n + j)) (text : String) :
    (sink.writeFault (n + k) = some text →
        emit sink n events = ⟨sent (events.take k), .error text⟩) ∧
      (sink.writeFault (n + k) = none → sink.flushFault (n + k) = some text →
        emit sink n events = ⟨sent (events.take k) ++ [.write events[k]], .error text⟩) := by
  have hlength : (events.take k).length = k := List.length_take_of_le (Nat.le_of_lt hk)
  have hsound : ∀ j < (events.take k).length, sink.SoundAt (n + j) := by
    rw [hlength]
    exact hbefore
  have hsplit : events = events.take k ++ events[k] :: events.drop (k + 1) := by
    rw [List.getElem_cons_drop, List.take_append_drop]
  have hemit : emit sink n events =
      (emit sink (n + k) (events[k] :: events.drop (k + 1))).after (sent (events.take k)) := by
    have hall := emit_append sink n (events.take k) (events[k] :: events.drop (k + 1))
    rw [← hsplit, emit_of_soundAt sink hsound, hlength] at hall
    exact hall
  rw [hemit]
  constructor
  · intro hwrite
    simp [emit, hwrite, Run.after]
  · intro hwrite hflush
    simp [emit, hwrite, hflush, Run.after]

theorem finish_eq (n : Nat) :
    finish sink n = ⟨(emit sink n [terminator]).actions,
      (emit sink n [terminator]).outcome.map fun _ => n⟩ := by
  unfold finish
  cases emit sink n [terminator] with
  | mk actions outcome => cases outcome <;> rfl

theorem deeds_emit (n : Nat) (events : List (List UInt8)) :
    (emit sink n events).deeds = (emit sink n events).actions := by
  induction events generalizing n with
  | nil => rfl
  | cons e es ih =>
    rw [emit]
    cases sink.writeFault n with
    | some text => rfl
    | none =>
      cases sink.flushFault n with
      | some text => rfl
      | none =>
        have hrest := ih (n + 1)
        simp only [Run.deeds, Run.after] at hrest ⊢
        rw [List.filter_append, hrest]
        rfl

end Emit

/-- How a run ends that has written its items: with the fault that closes it, else with the number
of its chunks. -/
def ending (closing : Item) (n : Nat) : Except String Nat :=
  match closing with
  | .fault text => .error text
  | .event _ => .ok n

/-- The reads apart, a relay writes the events of its lines and then what closes it. -/
theorem relayLines_eq_emit (translate : Translator σ) (sink : Sink) (fault : Option String) (s : σ)
    (n : Nat) (lines : List (List UInt8)) :
    let taken := takeLines translate s lines
    let closing := closing taken.2 fault
    let run := relayLines translate sink fault s n lines
    run.deeds = (emit sink n (taken.1 ++ closing.events)).actions ∧
      run.outcome = (emit sink n (taken.1 ++ closing.events)).outcome.bind fun _ =>
        ending closing (n + taken.1.length) := by
  have hafter (r : Run) (actions : List Action) :
      (r.after (.read :: actions)).deeds = Run.deeds ⟨actions, r.outcome⟩ ++ r.deeds := by
    simp [Run.deeds, Run.after]
  have hfinish (n : Nat) : ((finish sink n).after [.read]).deeds =
      (emit sink n [terminator]).actions ∧
        ((finish sink n).after [.read]).outcome =
          (emit sink n [terminator]).outcome.bind fun _ => .ok n := by
    constructor
    · rw [hafter, finish_eq]
      exact deeds_emit sink n [terminator]
    · rw [finish_eq, Run.after]
      cases (emit sink n [terminator]).outcome <;> rfl
  induction lines generalizing s n with
  | nil =>
    cases fault with
    | none => exact hfinish n
    | some text => exact ⟨rfl, rfl⟩
  | cons line lines ih =>
    cases hline : takeLine translate s line with
    | mk s' outcome =>
      cases outcome with
      | done =>
        simp only [takeLines, relayLines, hline]
        exact hfinish n
      | events events =>
        simp only [takeLines, relayLines, hline, List.append_assoc]
        rw [emit_append]
        cases hemit : emit sink n events with
        | mk actions outcome =>
          have hactions := deeds_emit sink n events
          rw [hemit] at hactions
          cases outcome with
          | error text => exact ⟨(hafter _ []).trans hactions, rfl⟩
          | ok m =>
            obtain ⟨-, rfl⟩ := emit_of_ok sink hemit
            obtain ⟨hdeeds, houtcome⟩ := ih s' (n + events.length)
            constructor
            · rw [hafter, hdeeds]
              exact congrArg (· ++ _) hactions
            · rw [List.length_append, ← Nat.add_assoc]
              exact houtcome

/-- What a run leaves behind: what was written, how much of it was flushed, and the outcome. -/
structure Run.Leaves (r : Run) (written : List (List UInt8)) (flushes : Nat)
    (outcome : Except String Nat) : Prop where
  written : r.written = written
  flushes : r.flushes = flushes
  outcome : r.outcome = outcome

/-- A run that does what another does leaves what that one leaves, and then goes on. -/
theorem Run.Leaves.bind {r r' : Run} {next : Nat → Except String Nat}
    (h : r.Leaves r'.written r'.flushes (r'.outcome.bind next)) {written : List (List UInt8)}
    {flushes : Nat} {outcome : Except String Nat} (h' : r'.Leaves written flushes outcome) :
    r.Leaves written flushes (outcome.bind next) := by
  rwa [h'.written, h'.flushes, h'.outcome] at h

theorem emit_leaves_of_ok {sink : Sink} {n m : Nat} {items : List (List UInt8)}
    (h : (emit sink n items).outcome = .ok m) :
    (emit sink n items).Leaves items items.length (.ok (n + items.length)) := by
  cases hemit : emit sink n items with
  | mk actions outcome =>
    rw [hemit] at h
    cases h
    obtain ⟨rfl, rfl⟩ := emit_of_ok sink hemit
    rw [← List.append_nil (sent items)]
    constructor
    · exact (Run.written_sent items [] _).trans (List.append_nil _)
    · exact Run.flushes_sent items [] _
    · rfl

theorem emit_leaves_of_sound {sink : Sink} {n : Nat} {items : List (List UInt8)}
    (h : ∀ k < items.length, sink.SoundAt (n + k)) :
    (emit sink n items).Leaves items items.length (.ok (n + items.length)) := by
  have hemit := emit_of_soundAt sink h
  exact emit_leaves_of_ok (congrArg Run.outcome hemit)

/-- A relay leaves what writing its items leaves, up to the outcome of a run without faults of the
writer. -/
theorem relayLines_leaves (translate : Translator σ) (sink : Sink) (fault : Option String) (s : σ)
    (n : Nat) (lines : List (List UInt8)) :
    let taken := takeLines translate s lines
    let closing := closing taken.2 fault
    let sending := emit sink n (taken.1 ++ closing.events)
    (relayLines translate sink fault s n lines).Leaves sending.written sending.flushes
      (sending.outcome.bind fun _ => ending closing (n + taken.1.length)) := by
  intro taken closing sending
  obtain ⟨hdeeds, houtcome⟩ := relayLines_eq_emit translate sink fault s n lines
  have hsame := hdeeds.trans (deeds_emit sink n (taken.1 ++ closing.events)).symm
  obtain ⟨hwritten, hflushes⟩ := Run.written_eq_of_deeds hsame
  exact ⟨hwritten, hflushes, houtcome⟩

/-- A relay to a writer without faults writes the events of its lines, then ends. -/
theorem relayLines_sound (translate : Translator σ) (fault : Option String) (s : σ) (n : Nat)
    (lines : List (List UInt8)) :
    let taken := takeLines translate s lines
    let run := relayLines translate .sound fault s n lines
    run.output = taken.1.flatten ++ (closing taken.2 fault).bytes ∧
      run.outcome = match closing taken.2 fault with
        | .fault text => .error text
        | .event _ => .ok (n + taken.1.length) := by
  intro taken run
  have hsound : ∀ k < (taken.1 ++ (closing taken.2 fault).events).length,
      Sink.sound.SoundAt (n + k) := fun _ _ => ⟨rfl, rfl⟩
  have hleaves := relayLines_leaves translate .sound fault s n lines
  obtain ⟨hwritten, -, houtcome⟩ := hleaves.bind (emit_leaves_of_sound hsound)
  constructor
  · have hclosing : (closing taken.2 fault).events.flatten = (closing taken.2 fault).bytes := by
      cases closing taken.2 fault with
      | event bytes => exact List.append_nil bytes
      | fault text => rfl
    rw [Run.output_eq, hwritten, List.flatten_append, hclosing]
  · rw [houtcome]
    cases closing taken.2 fault <;> rfl

theorem relay_leaves (translate : Translator σ) (s : σ) (input : Input) (sink : Sink) :
    let taken := takePayloads translate s (input.lines.filterMap payload?)
    let frames := taken.1.filterMap frame?
    let closing := closing taken.2 input.fault
    let sending := emit sink 0 (frames ++ closing.events)
    (relay translate s input sink).Leaves sending.written sending.flushes
      (sending.outcome.bind fun _ => ending closing frames.length) := by
  have hleaves := relayLines_leaves translate sink input.fault s 0 input.lines
  simp only [takeLines_eq, Nat.zero_add] at hleaves
  exact hleaves

/-- A relay that ends without a fault has written the frames of its chunks and the terminator. -/
theorem relay_of_ok {translate : Translator σ} {s : σ} {input : Input} {sink : Sink} {n : Nat}
    (h : (relay translate s input sink).outcome = .ok n) :
    let taken := takePayloads translate s (input.lines.filterMap payload?)
    let frames := taken.1.filterMap frame?
    (relay translate s input sink).output = frames.flatten ++ terminator ∧ n = frames.length := by
  intro taken frames
  have hleaves := relay_leaves translate s input sink
  have houtcome := hleaves.outcome
  rw [h] at houtcome
  cases hemit : (emit sink 0 (frames ++ (closing taken.2 input.fault).events)).outcome with
  | error text =>
    rw [hemit] at houtcome
    cases houtcome
  | ok m =>
    obtain ⟨hwritten, -, hn⟩ := hleaves.bind (emit_leaves_of_ok hemit)
    rw [h] at hn
    by_cases hend : taken.2.isNone ∨ input.fault = none
    · rw [closing_of_end hend] at hwritten hn
      cases hn
      rw [Run.output_eq, hwritten, List.flatten_append]
      exact ⟨congrArg _ (List.append_nil terminator), rfl⟩
    · obtain ⟨hopen, hfault⟩ := not_or.mp hend
      obtain ⟨text, hfault⟩ := Option.ne_none_iff_exists'.mp hfault
      rw [closing_of_fault (Option.isSome_iff_ne_none.mpr (by simpa using hopen)) hfault] at hn
      cases hn

/-- Every write is followed by its flush before anything else is done. -/
def Orderly : List Action → Prop
  | [] => True
  | .read :: rest => Orderly rest
  | [.write _] => True
  | .write _ :: .flush :: rest => Orderly rest
  | _ => False

theorem orderly_sent_append (events : List (List UInt8)) (rest : List Action) :
    Orderly (sent events ++ rest) ↔ Orderly rest := by
  induction events with
  | nil => rfl
  | cons e es ih => exact ih

theorem orderly_emit (sink : Sink) (n : Nat) (events : List (List UInt8)) :
    Orderly (emit sink n events).actions := by
  induction events generalizing n with
  | nil => trivial
  | cons e es ih =>
    rw [emit]
    cases sink.writeFault n with
    | some text => trivial
    | none =>
      cases sink.flushFault n with
      | some text => trivial
      | none => exact ih (n + 1)

theorem orderly_relayLines (translate : Translator σ) (sink : Sink) (fault : Option String) (s : σ)
    (n : Nat) (lines : List (List UInt8)) :
    Orderly (relayLines translate sink fault s n lines).actions := by
  have hfinish (n : Nat) : Orderly ((finish sink n).after [.read]).actions := by
    rw [finish_eq]
    exact orderly_emit sink n [terminator]
  induction lines generalizing s n with
  | nil =>
    cases fault with
    | none => exact hfinish n
    | some text => trivial
  | cons line lines ih =>
    cases hline : takeLine translate s line with
    | mk s' outcome =>
      cases outcome with
      | done =>
        simp only [relayLines, hline]
        exact hfinish n
      | events events =>
        have hevents := orderly_emit sink n events
        cases hemit : emit sink n events with
        | mk actions outcome =>
          rw [hemit] at hevents
          simp only [relayLines, hline, hemit]
          cases outcome with
          | error text => exact hevents
          | ok m =>
            obtain ⟨rfl, -⟩ := emit_of_ok sink hemit
            exact (orderly_sent_append events _).mpr (ih s' m)

/-- Whenever a line is asked for, everything written was flushed. -/
theorem Orderly.flushed {before after early late : List Action} {bytes : List UInt8}
    (h : Orderly (before ++ .read :: after)) (hbefore : before = early ++ .write bytes :: late) :
    .flush ∈ late := by
  subst hbefore
  induction early using Orderly.induct with
  | case1 =>
    cases late with
    | nil => cases h
    | cons a late =>
      cases a with
      | flush => exact List.mem_cons_self
      | read => cases h
      | write bytes' => cases h
  | case2 rest ih => exact ih h
  | case3 bytes' => cases h
  | case4 bytes' rest ih => exact ih h
  | case5 actions hnil hread hwrite hflush =>
    -- no orderly list begins like this
    cases actions with
    | nil => exact absurd rfl hnil
    | cons a rest =>
      cases a with
      | read => exact absurd rfl (hread rest)
      | flush => cases h
      | write bytes' =>
        cases rest with
        | nil => exact absurd rfl (hwrite bytes')
        | cons b rest =>
          cases b with
          | flush => exact absurd rfl (hflush bytes' rest)
          | read => cases h
          | write _ => cases h

end ChatDialect.Sse
