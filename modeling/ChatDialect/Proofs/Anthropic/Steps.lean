import ChatDialect.Anthropic.Stream
import ChatDialect.Proofs.Chat.Feed

/-! What one event makes a stream say, and what it changes in the state. -/
namespace ChatDialect.Anthropic

open Chat

/-- The event of a payload, if it is one. -/
def Event.ofText? (text : String) : Option Event := (codec.read (Utf8.ofString text)).toOption

/-- A payload without faults is the event that its tree decodes to. -/
theorem Event.ofText?_eq_some {text : String} {e : Event} (tree : Json.Tree)
    (hread : Json.readDocument (Utf8.ofString text) = (tree, none))
    (hdecode : codec.decode (.text Json.nestingLimit) tree = .ok e) : ofText? text = some e := by
  simp [ofText?, Json.Codec.read, hread, hdecode, bind, Except.bind, Json.check, Except.toOption,
    pure, Except.pure]

namespace BlockDelta

def text? : BlockDelta → Option String
  | .text t => some t
  | _ => none

def thinking? : BlockDelta → Option String
  | .thinking t => some t
  | _ => none

def json? : BlockDelta → Option String
  | .inputJson t => some t
  | _ => none

end BlockDelta

/-- The beginning of a tool call: the index of its block, its id as given, and its name. -/
structure ToolStart where
  index : UInt64
  id : String
  name : String
  deriving DecidableEq, Repr

namespace Event

def text? : Event → Option String
  | .blockDelta _ d => d.text?
  | _ => none

def thinking? : Event → Option String
  | .blockDelta _ d => d.thinking?
  | _ => none

def toolStart? : Event → Option ToolStart
  | .blockStart index (.toolUse id name) => some ⟨index, id, name⟩
  | _ => none

/-- A piece of arguments, and the index of the block that it is for. -/
def argumentPiece? : Event → Option (UInt64 × String)
  | .blockDelta index d => d.json?.map fun t => (index, t)
  | _ => none

def finish? : Event → Option FinishReason
  | .messageDelta d _ => d.stopReason.map reasonOf
  | _ => none

/-- The tokens counted at the end. -/
def totals? : Event → Option DeltaUsage
  | .messageDelta d u => d.stopReason.bind fun _ => u
  | _ => none

def isStart : Event → Bool
  | .messageStart _ => true
  | _ => false

end Event

namespace Stream

variable (s : Stream)

theorem payload_eq (text : String) :
    s.payload text = match Event.ofText? text with
      | some e => s.event e
      | none => (s, .skip) := by
  unfold payload Event.ofText?
  cases Event.codec.read (Utf8.ofString text) <;> rfl

/-- Payloads that are no events may as well be left out. -/
theorem chunksFrom_payload (texts : List String) :
    chunksFrom payload s texts = chunksFrom event s (texts.filterMap Event.ofText?) := by
  induction texts generalizing s with
  | nil => rfl
  | cons text texts ih =>
    rw [chunksFrom_cons, payload_eq, ih]
    cases h : Event.ofText? text <;> simp [h]

theorem stateAfter_payload (texts : List String) :
    stateAfter payload s texts = stateAfter event s (texts.filterMap Event.ofText?) := by
  induction texts generalizing s with
  | nil => rfl
  | cons text texts ih =>
    rw [stateAfter_cons, payload_eq, ih]
    cases h : Event.ofText? text <;> simp [h]

/-- The id of a call that begins: the one given, else a new one. -/
def callId (start : ToolStart) : String :=
  if start.id = "" then s.ids.source.toolCall s.ids.next else start.id

/-- What goes out in a chunk, who the stream is apart. -/
structure Utterance where
  delta : Delta
  finish : Option FinishReason
  usage : Option Chat.Usage

/-- What an event makes a stream say. -/
def utterance? : Event → Option Utterance
  | .messageStart _ =>
    if s.begun then none else some ⟨{ Delta.empty with content := some "" }, none, none⟩
  | .blockStart index (.toolUse id name) =>
    let opening := CallFragment.opening s.nextTool (s.callId ⟨index, id, name⟩) name ""
    some ⟨{ Delta.empty with toolCalls := some [opening] }, none, none⟩
  | .blockDelta _ (.text t) => some ⟨{ Delta.empty with content := some t }, none, none⟩
  | .blockDelta _ (.thinking t) => some ⟨{ Delta.empty with reasoning := some t }, none, none⟩
  | .blockDelta index (.inputJson t) =>
    (s.toolBlocks.lookup index).map fun tool =>
      ⟨{ Delta.empty with toolCalls := some [.continuing tool t] }, none, none⟩
  | .messageDelta d u =>
    d.stopReason.map fun reason => ⟨Delta.empty, some (reasonOf reason), u.map s.usage⟩
  | _ => none

/-- The delta as it is sent: the first one announces the assistant. -/
def announcing (d : Delta) : Delta :=
  { d with role := if s.announced then d.role else some "assistant" }

/-- The chunk of an utterance. -/
def chunkOf (u : Utterance) : Chunk :=
  .ofChoices s.id s.created s.model [⟨0, s.announcing u.delta, u.finish⟩] u.usage

theorem chunk_eq (d : Delta) (f : Option FinishReason) (u : Option Chat.Usage) :
    s.chunk d f u = ({ s with announced := true }, .one (s.chunkOf ⟨d, f, u⟩)) := by
  unfold chunk chunkOf announcing
  cases s.announced <;> rfl

/-- What an event changes before the chunk goes out. -/
def noting : Event → Stream
  | .messageStart m => { s with
      begun := true
      id := if m.id = "" then s.id else m.id
      model := if s.model = "" then m.model else s.model
      startUsage := m.usage }
  | .blockStart index (.toolUse id _) => { s with
      begun := true
      ids := if id = "" then s.ids.newToolCall.2 else s.ids
      nextTool := s.nextTool + 1
      toolBlocks := (index, s.nextTool) :: s.toolBlocks }
  | _ => { s with begun := true }

/-- A step in full: the state takes note of the event, then at most one chunk goes out. -/
theorem event_eq (e : Event) :
    s.event e = match s.utterance? e with
      | some u => ({ s.noting e with announced := true }, .one ((s.noting e).chunkOf u))
      | none => (s.noting e, if e = .messageStop then .done else .skip) := by
  cases e with
  | messageStart m =>
    cases h : s.begun <;> simp [event, onMessageStart, utterance?, noting, h, chunk_eq]
  | blockStart index b =>
    cases b with
    | toolUse id name =>
      by_cases h : id = "" <;>
        simp [event, onToolStart, utterance?, noting, h, chunk_eq, callId, Ids.newToolCall]
    | other => rfl
  | blockDelta index d =>
    cases d with
    | inputJson t =>
      cases h : s.toolBlocks.lookup index <;>
        simp [event, onDelta, utterance?, noting, h, chunk_eq]
    | other => rfl
    | _ => simp [event, onDelta, utterance?, noting, chunk_eq]
  | messageDelta d u =>
    cases h : d.stopReason with
    | none => simp [event, onMessageDelta, utterance?, noting, h]
    | some reason =>
      simp [event, onMessageDelta, utterance?, noting, h, chunk_eq]
      rfl
  | _ => rfl

theorem event_passed (e : Event) :
    (s.event e).2.passed = (s.utterance? e).toList.map (s.noting e).chunkOf := by
  rw [event_eq]
  cases s.utterance? e with
  | none => by_cases h : e = .messageStop <;> simp [h]
  | some u => rfl

theorem noting_announced (e : Event) : (s.noting e).announced = s.announced := by
  cases e with
  | blockStart index b => cases b <;> rfl
  | _ => rfl

theorem event_state (e : Event) :
    (s.event e).1 =
      { s.noting e with announced := s.announced || (s.utterance? e).isSome } := by
  rw [event_eq, ← s.noting_announced e]
  cases s.utterance? e with
  | none => simp
  | some u => simp

/-- Every chunk has one choice, which is the first. -/
theorem choices_chunksFrom (events : List Event) :
    ∀ c ∈ chunksFrom event s events, ∃ delta finish, c.choices = [⟨0, delta, finish⟩] := by
  refine forall_mem_chunksFrom event s ?_ events
  intro s e c hc
  rw [event_passed, List.mem_map] at hc
  obtain ⟨u, _, rfl⟩ := hc
  exact ⟨_, _, rfl⟩

theorem saidAt_chunksFrom (events : List Event) :
    saidAt 0 (chunksFrom event s events) = said (chunksFrom event s events) := by
  rw [saidAt, List.filter_eq_self]
  intro choice hchoice
  obtain ⟨c, hc, hin⟩ := List.mem_flatMap.mp hchoice
  obtain ⟨delta, finish, heq⟩ := s.choices_chunksFrom events c hc
  rw [heq, List.mem_singleton] at hin
  simp [hin]

/-- The pieces of tool calls that an event gives. A call that begins gets the next number; arguments
go to the call that their block belongs to. -/
def fragments (e : Event) : List CallFragment :=
  match e.toolStart?, e.argumentPiece? with
  | some start, _ => [.opening s.nextTool (s.callId start) start.name ""]
  | none, some (index, t) => (s.toolBlocks.lookup index).toList.map (CallFragment.continuing · t)
  | none, none => []

/-- What each view of an utterance shows of the event; what is left out shows as empty. -/
theorem utterance?_views (e : Event) :
    ((s.utterance? e).bind (·.delta.content)).getD "" = e.text?.getD "" ∧
      ((s.utterance? e).bind (·.delta.reasoning)).getD "" = e.thinking?.getD "" ∧
      ((s.utterance? e).bind (·.delta.toolCalls)).getD [] = s.fragments e ∧
      ((s.utterance? e).bind (·.delta.images)).getD [] = [] ∧
      (s.utterance? e).bind (·.finish) = e.finish? ∧
      (s.utterance? e).bind (·.delta.role) = none := by
  cases e with
  | messageStart m =>
    simp only [utterance?]
    cases s.begun <;> exact ⟨rfl, rfl, rfl, rfl, rfl, rfl⟩
  | blockStart index b => cases b <;> exact ⟨rfl, rfl, rfl, rfl, rfl, rfl⟩
  | blockDelta index d =>
    cases d with
    | inputJson t =>
      have hf : s.fragments (.blockDelta index (.inputJson t)) =
          (s.toolBlocks.lookup index).toList.map (CallFragment.continuing · t) := rfl
      simp only [hf, utterance?]
      cases s.toolBlocks.lookup index <;> exact ⟨rfl, rfl, rfl, rfl, rfl, rfl⟩
    | _ => exact ⟨rfl, rfl, rfl, rfl, rfl, rfl⟩
  | messageDelta d u =>
    simp only [utterance?, Event.finish?]
    cases d.stopReason <;> exact ⟨rfl, rfl, rfl, rfl, rfl, rfl⟩
  | _ => exact ⟨rfl, rfl, rfl, rfl, rfl, rfl⟩

theorem contentIn_event (e : Event) :
    contentIn (said (s.event e).2.passed) = e.text?.getD "" := by
  rw [← (s.utterance?_views e).1, event_passed]
  cases s.utterance? e with
  | none => rfl
  | some u =>
    cases h : u.delta.content <;> simp [said, contentIn, chunkOf, announcing, Chunk.ofChoices, h]

theorem reasoningIn_event (e : Event) :
    reasoningIn (said (s.event e).2.passed) = e.thinking?.getD "" := by
  rw [← (s.utterance?_views e).2.1, event_passed]
  cases s.utterance? e with
  | none => rfl
  | some u =>
    cases h : u.delta.reasoning <;>
      simp [said, reasoningIn, chunkOf, announcing, Chunk.ofChoices, h]

theorem fragmentsIn_event (e : Event) :
    fragmentsIn (said (s.event e).2.passed) = s.fragments e := by
  rw [← (s.utterance?_views e).2.2.1, event_passed]
  cases s.utterance? e with
  | none => rfl
  | some u => simp [said, fragmentsIn, chunkOf, announcing, Chunk.ofChoices]

theorem imagesIn_event (e : Event) : imagesIn (said (s.event e).2.passed) = [] := by
  rw [← (s.utterance?_views e).2.2.2.1, event_passed]
  cases s.utterance? e with
  | none => rfl
  | some u => simp [said, imagesIn, chunkOf, announcing, Chunk.ofChoices]

theorem finishesIn_event (e : Event) :
    finishesIn (said (s.event e).2.passed) = e.finish?.toList := by
  rw [← (s.utterance?_views e).2.2.2.2.1, event_passed]
  cases s.utterance? e with
  | none => rfl
  | some u => cases h : u.finish <;> simp [said, finishesIn, chunkOf, Chunk.ofChoices, h]

theorem contentIn_chunksFrom (events : List Event) :
    contentIn (said (chunksFrom event s events)) = String.join (events.filterMap (·.text?)) := by
  refine view_chunksFrom event (fun events => String.join (events.filterMap (·.text?))) rfl
    contentIn_append ?_ s events
  intro s e rest
  rw [contentIn_event]
  cases h : e.text? <;> simp [h]

theorem reasoningIn_chunksFrom (events : List Event) :
    reasoningIn (said (chunksFrom event s events)) =
      String.join (events.filterMap (·.thinking?)) := by
  refine view_chunksFrom event (fun events => String.join (events.filterMap (·.thinking?))) rfl
    reasoningIn_append ?_ s events
  intro s e rest
  rw [reasoningIn_event]
  cases h : e.thinking? <;> simp [h]

theorem imagesIn_chunksFrom (events : List Event) :
    imagesIn (said (chunksFrom event s events)) = [] := by
  refine view_chunksFrom event (fun _ => []) rfl imagesIn_append ?_ s events
  intro s e rest
  rw [imagesIn_event]
  rfl

theorem finishesIn_chunksFrom (events : List Event) :
    finishesIn (said (chunksFrom event s events)) = events.filterMap (·.finish?) := by
  refine view_chunksFrom event (·.filterMap (·.finish?)) rfl finishesIn_append ?_ s events
  intro s e rest
  rw [finishesIn_event]
  cases h : e.finish? <;> simp [h]

theorem event_numbering (e : Event) :
    (s.event e).1.nextTool = (if e.toolStart?.isSome then s.nextTool + 1 else s.nextTool) ∧
      (s.event e).1.toolBlocks =
        (e.toolStart?.map fun start => (start.index, s.nextTool)).toList ++ s.toolBlocks := by
  rw [event_state]
  cases e with
  | blockStart index b => cases b <;> exact ⟨rfl, rfl⟩
  | _ => exact ⟨rfl, rfl⟩

/-- Without new tool calls, arguments go to the calls that the blocks belong to already. -/
theorem fragmentsIn_of_no_starts {events : List Event} (h : ∀ e ∈ events, e.toolStart? = none) :
    fragmentsIn (said (chunksFrom event s events)) =
      (events.filterMap (·.argumentPiece?)).flatMap fun p =>
        (s.toolBlocks.lookup p.1).toList.map (CallFragment.continuing · p.2) := by
  induction events generalizing s with
  | nil => rfl
  | cons e events ih =>
    have he : e.toolStart? = none := h e List.mem_cons_self
    have hblocks : (s.event e).1.toolBlocks = s.toolBlocks := by
      rw [(s.event_numbering e).2, he]
      rfl
    rw [chunksFrom_cons, said_append, fragmentsIn_append, fragmentsIn_event,
      ih _ fun e he => h e (List.mem_cons_of_mem _ he), hblocks, fragments, he]
    cases hp : e.argumentPiece? <;> simp [hp]

theorem stateAfter_nextTool_of_no_starts {events : List Event}
    (h : ∀ e ∈ events, e.toolStart? = none) :
    (stateAfter event s events).nextTool = s.nextTool := by
  induction events generalizing s with
  | nil => rfl
  | cons e events ih =>
    have he : e.toolStart? = none := h e List.mem_cons_self
    rw [stateAfter_cons, ih _ fun e he => h e (List.mem_cons_of_mem _ he),
      (s.event_numbering e).1, he]
    rfl

/-- Only the start of a message changes who the stream is and what its input counts. -/
theorem event_steady {e : Event} (h : e.isStart = false) :
    (s.event e).1.id = s.id ∧ (s.event e).1.created = s.created ∧
      (s.event e).1.model = s.model ∧ (s.event e).1.startUsage = s.startUsage := by
  rw [event_state]
  cases e with
  | messageStart m => simp [Event.isStart] at h
  | blockStart index b => cases b <;> exact ⟨rfl, rfl, rfl, rfl⟩
  | _ => exact ⟨rfl, rfl, rfl, rfl⟩

theorem event_begun (e : Event) : (s.event e).1.begun = true := by
  rw [event_state]
  cases e with
  | blockStart index b => cases b <;> rfl
  | _ => rfl

/-- A chunk shows who the stream is once it took note of the event. -/
theorem event_identity {e : Event} {c : Chunk} (hc : c ∈ (s.event e).2.passed) :
    c.id = (s.event e).1.id ∧ c.created = (s.event e).1.created ∧
      c.model = (s.event e).1.model := by
  rw [event_passed, List.mem_map] at hc
  obtain ⟨u, _, rfl⟩ := hc
  rw [event_state]
  exact ⟨rfl, rfl, rfl⟩

/-- Until a message starts, all chunks show who the stream is now. -/
theorem chunksFrom_identity {events : List Event} (h : ∀ e ∈ events, e.isStart = false) :
    ∀ c ∈ chunksFrom event s events, c.id = s.id ∧ c.created = s.created ∧ c.model = s.model := by
  induction events generalizing s with
  | nil => simp
  | cons e events ih =>
    intro c hc
    obtain ⟨hid, hcreated, hmodel, _⟩ := s.event_steady (h e List.mem_cons_self)
    rw [← hid, ← hcreated, ← hmodel]
    rw [chunksFrom_cons, List.mem_append] at hc
    rcases hc with hc | hc
    · exact s.event_identity hc
    · exact ih _ (fun e he => h e (List.mem_cons_of_mem _ he)) c hc

/-- The usage of chunks is that of the events that count tokens at the end. -/
theorem usages_chunksFrom {events : List Event} (h : ∀ e ∈ events, e.isStart = false) :
    (chunksFrom event s events).filterMap (·.usage) =
      (events.filterMap (·.totals?)).map s.usage := by
  induction events generalizing s with
  | nil => rfl
  | cons e events ih =>
    have he : e.isStart = false := h e List.mem_cons_self
    have hevent : (s.event e).2.passed.filterMap (·.usage) = (e.totals?.map s.usage).toList := by
      rw [event_passed]
      cases e with
      | messageStart m => simp [Event.isStart] at he
      | blockStart index b => cases b <;> rfl
      | blockDelta index d =>
        cases d with
        | inputJson t =>
          cases hl : s.toolBlocks.lookup index <;>
            simp [utterance?, hl, chunkOf, Chunk.ofChoices, Event.totals?]
        | _ => rfl
      | messageDelta d u =>
        cases hr : d.stopReason with
        | none => simp [utterance?, hr, Event.totals?]
        | some reason =>
          cases u <;> simp [utterance?, hr, chunkOf, Chunk.ofChoices, Event.totals?]
      | _ => rfl
    have husage : (s.event e).1.usage = s.usage := by
      funext u
      rw [usage, usage, (s.event_steady he).2.2.2]
    rw [chunksFrom_cons, List.filterMap_append, hevent,
      ih _ fun e he => h e (List.mem_cons_of_mem _ he), husage]
    cases ht : e.totals? <;> simp [ht]

end Stream

end ChatDialect.Anthropic
