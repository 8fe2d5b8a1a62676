import ChatDialect.Proofs.Anthropic.Conservation

/-! Who a stream is. A chunk shows the id that was given last and the model that was given first by
the messages that began up to it. A message that begins late therefore gives the stream another name
under way. -/
namespace ChatDialect.Anthropic

open Chat

/-- The message that an event begins. -/
def Event.message? : Event → Option StreamMessage
  | .messageStart m => some m
  | _ => none

def messages (events : List Event) : List StreamMessage := events.filterMap (·.message?)

theorem messages_cons (e : Event) (events : List Event) :
    messages (e :: events) = e.message?.toList ++ messages events := by
  cases h : e.message? <;> simp [messages, h]

/-- The id that messages give last. -/
def lastId? (messages : List StreamMessage) : Option String :=
  (messages.filterMap fun m => Text.nonEmpty? m.id).getLast?

/-- The model that messages give first. -/
def firstModel? (messages : List StreamMessage) : Option String :=
  (messages.filterMap fun m => Text.nonEmpty? m.model).head?

/-- Who a stream is once messages have begun. -/
def identityAfter (i : Identity) (messages : List StreamMessage) : Identity where
  id := (lastId? messages).getD i.id
  created := i.created
  model := targetModel i.model ((firstModel? messages).getD "")

theorem identityAfter_nil (i : Identity) : identityAfter i [] = i := by
  by_cases h : i.model = ""
  · simp [identityAfter, lastId?, firstModel?, targetModel, ← h]
  · simp [identityAfter, lastId?, targetModel, h]

theorem identityAfter_cons (i : Identity) (m : StreamMessage) (ms : List StreamMessage) :
    identityAfter i (m :: ms) = identityAfter (identityAfter i [m]) ms := by
  have hid : (lastId? (m :: ms)).getD i.id = (lastId? ms).getD ((lastId? [m]).getD i.id) := by
    by_cases h : m.id = "" <;> simp [lastId?, Text.nonEmpty?, h, List.getLast?_cons]
  have hmodel : targetModel i.model ((firstModel? (m :: ms)).getD "") =
      targetModel (targetModel i.model ((firstModel? [m]).getD "")) ((firstModel? ms).getD "") := by
    by_cases h : m.model = "" <;> by_cases hi : i.model = "" <;>
      simp [firstModel?, Text.nonEmpty?, targetModel, h, hi]
  simp only [identityAfter, hid, hmodel]

theorem identityAfter_append (i : Identity) (xs ys : List StreamMessage) :
    identityAfter i (xs ++ ys) = identityAfter (identityAfter i xs) ys := by
  induction xs generalizing i with
  | nil => rw [List.nil_append, identityAfter_nil]
  | cons m xs ih => rw [List.cons_append, identityAfter_cons, ih, ← identityAfter_cons]

/-- Whether a stream speaks at an event that comes after others. -/
def Event.speaksAfter (before : List Event) : Event → Bool
  | .messageStart _ => before.isEmpty
  | .blockStart _ (.toolUse _ _) => true
  | .blockDelta _ (.text _) => true
  | .blockDelta _ (.thinking _) => true
  | .blockDelta index (.inputJson _) => before.any (·.startsAt index)
  | .messageDelta d _ => d.stopReason.isSome
  | _ => false

/-- What a stream has taken each time it speaks, after `before`. -/
def heardFrom (before : List Event) : List Event → List (List Event)
  | [] => []
  | e :: rest =>
    (if e.speaksAfter before then [before ++ [e]] else []) ++ heardFrom (before ++ [e]) rest

namespace Stream

variable (s : Stream)

def identity : Identity := ⟨s.id, s.created, s.model⟩

theorem identity_event (e : Event) :
    (s.event e).1.identity = identityAfter s.identity e.message?.toList := by
  cases hm : e.message? with
  | some m =>
    obtain rfl : e = .messageStart m := by
      cases e with
      | messageStart m' => exact congrArg Event.messageStart (Option.some.inj hm)
      | _ => cases hm
    rw [event_state]
    by_cases hid : m.id = "" <;> by_cases hmodel : m.model = "" <;>
      by_cases hs : s.model = "" <;>
        simp [identity, noting, identityAfter, lastId?, firstModel?, Text.nonEmpty?, targetModel,
          hid, hmodel, hs]
  | none =>
    have hstart : e.isStart = false := by
      cases e with
      | messageStart m => cases hm
      | _ => rfl
    obtain ⟨hid, hcreated, hmodel, _⟩ := s.event_steady hstart
    rw [Option.toList_none, identityAfter_nil, identity, identity, hid, hcreated, hmodel]

theorem identity_stateAfter (events : List Event) :
    (stateAfter event s events).identity = identityAfter s.identity (messages events) := by
  induction events generalizing s with
  | nil => exact (identityAfter_nil _).symm
  | cons e events ih =>
    rw [stateAfter_cons, ih, identity_event, messages_cons, identityAfter_append]

theorem begun_stateAfter (events : List Event) :
    (stateAfter event s events).begun = (s.begun || !events.isEmpty) := by
  induction events generalizing s with
  | nil => simp
  | cons e events ih => simp [ih, event_begun]

/-- A block belongs to a tool call once one began there. -/
theorem lookup_stateAfter (events : List Event) (index : UInt64) :
    ((stateAfter event s events).toolBlocks.lookup index).isSome =
      (events.any (·.startsAt index) || (s.toolBlocks.lookup index).isSome) := by
  induction events generalizing s with
  | nil => simp
  | cons e events ih =>
    rw [stateAfter_cons, ih, List.any_cons, Event.startsAt]
    cases he : e.toolStart? with
    | none => simp [event_toolBlocks_of_none he]
    | some start =>
      rw [event_toolBlocks_of_start he]
      by_cases hi : index = start.index
      · simp [hi]
      · simp [hi, beq_false_of_ne (Ne.symm hi)]

theorem utterance?_stateAfter_new (model : String) (now : Int64) (ids : Ids)
    (before : List Event) (e : Event) :
    ((stateAfter event (Stream.new model now ids) before).utterance? e).isSome =
      e.speaksAfter before := by
  have hbegun := (Stream.new model now ids).begun_stateAfter before
  have hlookup := (Stream.new model now ids).lookup_stateAfter before
  cases e with
  | messageStart m =>
    rw [utterance?, hbegun, Event.speaksAfter]
    cases before <;> rfl
  | blockStart index b => cases b <;> rfl
  | blockDelta index d =>
    cases d with
    | inputJson t =>
      rw [utterance?, Option.isSome_map, hlookup, Event.speaksAfter]
      exact Bool.or_false _
    | _ => rfl
  | messageDelta d u => rw [utterance?, Option.isSome_map, Event.speaksAfter]
  | _ => rfl

/-- A chunk shows who the stream is once it took note of the event. -/
theorem identity_passed (e : Event) :
    (s.event e).2.passed.map (·.identity) =
      if (s.utterance? e).isSome then [(s.event e).1.identity] else [] := by
  rw [event_passed, event_state]
  cases s.utterance? e <;> rfl

theorem identity_chunksFrom (model : String) (now : Int64) (ids : Ids)
    (before events : List Event) :
    let new := Stream.new model now ids
    (chunksFrom event (stateAfter event new before) events).map (·.identity) =
      (heardFrom before events).map fun heard => identityAfter new.identity (messages heard) := by
  intro new
  induction events generalizing before with
  | nil => rfl
  | cons e events ih =>
    have hsnoc : ((stateAfter event new before).event e).1 =
        stateAfter event new (before ++ [e]) := by simp [stateAfter]
    rw [chunksFrom_cons, List.map_append, identity_passed, hsnoc, ih, identity_stateAfter,
      utterance?_stateAfter_new, heardFrom, List.map_append]
    cases e.speaksAfter before <;> rfl

/-- Every chunk shows the id given last and the model given first by the messages that began up to
it, and the time at which the stream was opened. The stream has one identity exactly if these are
the same each time it speaks. -/
theorem one_identity_iff (model : String) (now : Int64) (ids : Ids) (texts : List String) :
    let chunks := chunksFrom payload (Stream.new model now ids) texts
    let heard := heardFrom [] (texts.filterMap Event.ofText?)
    let idAfter := fun events => (lastId? (messages events)).getD (ids.source.response ids.next)
    let modelAfter := fun events => targetModel model ((firstModel? (messages events)).getD "")
    chunks.map (·.identity) =
        heard.map (fun events => ⟨idAfter events, now, modelAfter events⟩) ∧
      ((∀ c ∈ chunks, ∀ d ∈ chunks, c.id = d.id ∧ c.created = d.created ∧ c.model = d.model) ↔
        ∀ p ∈ heard, ∀ q ∈ heard, idAfter p = idAfter q ∧ modelAfter p = modelAfter q) := by
  intro chunks heard idAfter modelAfter
  have hidentity : chunks.map (·.identity) =
      heard.map (fun events => ⟨idAfter events, now, modelAfter events⟩) := by
    simp only [chunks, chunksFrom_payload]
    exact identity_chunksFrom model now ids [] _
  refine ⟨hidentity, ?_⟩
  have hpairs : (∀ i ∈ chunks.map (·.identity), ∀ j ∈ chunks.map (·.identity), i = j) ↔
      ∀ c ∈ chunks, ∀ d ∈ chunks, c.id = d.id ∧ c.created = d.created ∧ c.model = d.model := by
    simp [Chunk.identity]
  rw [← hpairs, hidentity]
  simp

/-- A stream whose messages, if any, begin at its first event has one identity. -/
theorem one_identity_of_leading_start (model : String) (now : Int64) (ids : Ids) (e : Event)
    (rest : List Event) (h : ∀ e ∈ rest, e.isStart = false) :
    ∀ c ∈ chunksFrom event (Stream.new model now ids) (e :: rest),
      c.identity = identityAfter (Stream.new model now ids).identity e.message?.toList := by
  intro c hc
  rw [← identity_event]
  rw [chunksFrom_cons, List.mem_append] at hc
  rcases hc with hc | hc
  · obtain ⟨hid, hcreated, hmodel⟩ := event_identity _ hc
    rw [Chunk.identity, identity, hid, hcreated, hmodel]
  · obtain ⟨hid, hcreated, hmodel⟩ := chunksFrom_identity _ h c hc
    rw [Chunk.identity, identity, hid, hcreated, hmodel]

end Stream

def greetingText : String :=
  "\x7b\"type\":\"content_block_delta\",\"index\":0,\"delta\":" ++
    "\x7b\"type\":\"text_delta\",\"text\":\"hi\"\x7d\x7d"

def startText : String :=
  "\x7b\"type\":\"message_start\",\"message\":\x7b\"id\":\"msg_1\",\"model\":\"claude\"\x7d\x7d"

theorem ofText?_greetingText : Event.ofText? greetingText = some (.blockDelta 0 (.text "hi")) :=
  Event.ofText?_eq_some
    (.object [(.clean "type", .text (.clean "content_block_delta")),
      (.clean "index", .number (.clean (.int (.ofUInt64 0)))),
      (.clean "delta", .object [(.clean "type", .text (.clean "text_delta")),
        (.clean "text", .text (.clean "hi"))] .closed)] .closed) (by cbv) (by cbv)

theorem ofText?_startText :
    Event.ofText? startText = some (.messageStart ⟨"msg_1", "claude", none⟩) :=
  Event.ofText?_eq_some
    (.object [(.clean "type", .text (.clean "message_start")),
      (.clean "message", .object [(.clean "id", .text (.clean "msg_1")),
        (.clean "model", .text (.clean "claude"))] .closed)] .closed) (by cbv) (by cbv)

/-- A message that begins after the first chunk changes the id and the model of the next. -/
theorem late_start_renames :
    let chunks := chunksFrom Stream.payload
      (Stream.new "" 7 (.ofSource (.sequential "chatcmpl-t"))) [greetingText, startText, greetingText]
    chunks.map (·.identity) = [⟨"chatcmpl-t-0", 7, ""⟩, ⟨"msg_1", 7, "claude"⟩] ∧
      ¬ ∀ c ∈ chunks, ∀ d ∈ chunks, c.id = d.id ∧ c.created = d.created ∧ c.model = d.model := by
  intro chunks
  have hevents : [greetingText, startText, greetingText].filterMap Event.ofText? =
      [.blockDelta 0 (.text "hi"), .messageStart ⟨"msg_1", "claude", none⟩,
        .blockDelta 0 (.text "hi")] := by
    simp [ofText?_greetingText, ofText?_startText]
  simp only [chunks, Stream.chunksFrom_payload, hevents]
  decide

end ChatDialect.Anthropic
