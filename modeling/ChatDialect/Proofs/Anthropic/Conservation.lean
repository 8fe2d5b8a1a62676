import Mathlib
import ChatDialect.Proofs.Anthropic.Steps

/-! A stream loses, doubles and mixes nothing: its texts are those of its events, and every tool
call has a number of its own, under which its pieces of arguments go out in order. -/
namespace ChatDialect.Anthropic

open Chat

def toolStarts (events : List Event) : List ToolStart := events.filterMap (·.toolStart?)

@[simp] theorem toolStarts_nil : toolStarts [] = [] := rfl

@[simp] theorem toolStarts_cons (e : Event) (events : List Event) :
    toolStarts (e :: events) = e.toolStart?.toList ++ toolStarts events := by
  cases h : e.toolStart? <;> simp [toolStarts, h]

theorem toolStarts_append (xs ys : List Event) :
    toolStarts (xs ++ ys) = toolStarts xs ++ toolStarts ys :=
  List.filterMap_append

/-- Whether an event begins a tool call in the block of an index. -/
def Event.startsAt (index : UInt64) (e : Event) : Bool := e.toolStart?.any (·.index == index)

def Event.pieceAt? (index : UInt64) (e : Event) : Option String :=
  (e.argumentPiece?.filter (·.1 == index)).map (·.2)

/-- The pieces of arguments for the block of an index, until the next tool call begins there. -/
def piecesAt (index : UInt64) (events : List Event) : List String :=
  (events.takeWhile fun e => !e.startsAt index).filterMap (·.pieceAt? index)

theorem piecesAt_cons (index : UInt64) (e : Event) (events : List Event) :
    piecesAt index (e :: events) =
      if e.startsAt index then [] else (e.pieceAt? index).toList ++ piecesAt index events := by
  cases hs : e.startsAt index
  · cases hp : e.pieceAt? index <;> simp [piecesAt, hs, hp]
  · simp [piecesAt, hs]

/-- An event that begins a call adds nothing to another. -/
theorem Event.argumentPiece?_eq_none {e : Event} {start : ToolStart}
    (h : e.toolStart? = some start) : e.argumentPiece? = none := by
  cases e with
  | blockDelta index d => simp [toolStart?] at h
  | _ => rfl

namespace Stream

/-- The tool calls of a stream after `n` of them: the next gets the number `n`, and the blocks of
those before hold numbers below, each its own. -/
structure Numbered (s : Stream) (n : Nat) : Prop where
  next : s.nextTool = UInt32.ofNat n
  below : ∀ index tool, s.toolBlocks.lookup index = some tool → ∃ k < n, tool = UInt32.ofNat k
  apart : ∀ i j tool, s.toolBlocks.lookup i = some tool → s.toolBlocks.lookup j = some tool → i = j

theorem new_numbered (model : String) (now : Int64) (ids : Ids) :
    (Stream.new model now ids).Numbered 0 where
  next := rfl
  below index tool h := by simp [Stream.new] at h
  apart i j tool h := by simp [Stream.new] at h

variable {s : Stream} {n : Nat}

theorem event_toolBlocks_of_start {e : Event} {start : ToolStart} (he : e.toolStart? = some start)
    (index : UInt64) :
    (s.event e).1.toolBlocks.lookup index =
      if index = start.index then some s.nextTool else s.toolBlocks.lookup index := by
  rw [(s.event_numbering e).2, he]
  by_cases hi : index = start.index
  · simp [hi]
  · simp [List.lookup_cons, hi, beq_false_of_ne hi]

theorem event_toolBlocks_of_none {e : Event} (he : e.toolStart? = none) :
    (s.event e).1.toolBlocks = s.toolBlocks := by
  rw [(s.event_numbering e).2, he]
  rfl

theorem Numbered.step (h : s.Numbered n) (e : Event)
    (hn : n + e.toolStart?.toList.length ≤ UInt32.size) :
    (s.event e).1.Numbered (n + e.toolStart?.toList.length) := by
  cases he : e.toolStart? with
  | none =>
    have hb := event_toolBlocks_of_none (s := s) he
    exact ⟨by simp [(s.event_numbering e).1, he, h.next], hb ▸ h.below, hb ▸ h.apart⟩
  | some start =>
    rw [he] at hn
    have hlt : n < UInt32.size := hn
    -- the number given last is not one of those given before
    have hnew : ∀ index, s.toolBlocks.lookup index ≠ some s.nextTool := by
      intro index hi
      obtain ⟨k, hk, heq⟩ := h.below index _ hi
      rw [h.next] at heq
      have := ofNat_inj_of_lt hlt (by omega) heq
      omega
    refine ⟨?_, ?_, ?_⟩
    · simp [(s.event_numbering e).1, he, h.next, UInt32.ofNat_add]
    · intro index tool hi
      rw [event_toolBlocks_of_start he] at hi
      split at hi
      · exact ⟨n, by simp, by rw [← Option.some.inj hi, h.next]⟩
      · obtain ⟨k, hk, heq⟩ := h.below index tool hi
        exact ⟨k, by simp; omega, heq⟩
    · intro i j tool hi hj
      rw [event_toolBlocks_of_start he] at hi hj
      split at hi <;> split at hj
      · simp_all
      · rw [← hi] at hj
        exact absurd hj (hnew j)
      · rw [← hj] at hi
        exact absurd hi (hnew i)
      · exact h.apart i j tool hi hj

theorem Numbered.run (h : s.Numbered n) (events : List Event)
    (hn : n + (toolStarts events).length ≤ UInt32.size) :
    (stateAfter event s events).Numbered (n + (toolStarts events).length) := by
  induction events generalizing s n with
  | nil => exact h
  | cons e events ih =>
    rw [toolStarts_cons, List.length_append, ← Nat.add_assoc] at hn ⊢
    exact ih (h.step e (by omega)) hn

/-- Of a step, what concerns a call that began before: a piece of arguments for its block. -/
theorem Numbered.fragments_event (h : s.Numbered n) {k : Nat} (hk : k < n) (e : Event)
    (hn : n + e.toolStart?.toList.length ≤ UInt32.size) :
    (fragmentsIn (said (s.event e).2.passed)).filter (·.index = UInt32.ofNat k) =
      (e.argumentPiece?.filter fun p => s.toolBlocks.lookup p.1 = some (UInt32.ofNat k)).toList.map
        fun p => .continuing (UInt32.ofNat k) p.2 := by
  rw [fragmentsIn_event, fragments]
  cases he : e.toolStart? with
  | some start =>
    rw [he] at hn
    have hlt : n < UInt32.size := hn
    have hne : UInt32.ofNat n ≠ UInt32.ofNat k := by
      intro heq
      have := ofNat_inj_of_lt hlt (by omega) heq
      omega
    simp [Event.argumentPiece?_eq_none he, CallFragment.opening, h.next, hne]
  | none =>
    cases hp : e.argumentPiece? with
    | none => simp
    | some p =>
      cases hl : s.toolBlocks.lookup p.1 with
      | none => simp [hl]
      | some tool =>
        by_cases ht : tool = UInt32.ofNat k <;>
          simp [Option.filter_some, hl, ht, CallFragment.continuing]

/-- A call whose block now belongs to another gets no more pieces. -/
theorem Numbered.fragments_of_closed (h : s.Numbered n) {k : Nat} (hk : k < n)
    (events : List Event) (hn : n + (toolStarts events).length ≤ UInt32.size)
    (hclosed : ∀ index, s.toolBlocks.lookup index ≠ some (UInt32.ofNat k)) :
    (fragmentsIn (said (chunksFrom event s events))).filter (·.index = UInt32.ofNat k) = [] := by
  induction events generalizing s n with
  | nil => rfl
  | cons e events ih =>
    rw [toolStarts_cons, List.length_append, ← Nat.add_assoc] at hn
    have hstill : ∀ index, (s.event e).1.toolBlocks.lookup index ≠ some (UInt32.ofNat k) := by
      intro index
      cases he : e.toolStart? with
      | none => exact event_toolBlocks_of_none (s := s) he ▸ hclosed index
      | some start =>
        rw [event_toolBlocks_of_start he]
        split
        · intro heq
          rw [he] at hn
          have hlt : n < UInt32.size := by simp at hn; omega
          have := ofNat_inj_of_lt hlt (by omega) (h.next.symm.trans (Option.some.inj heq))
          omega
        · exact hclosed index
    have hrest := ih (h.step e (by omega)) (by omega) hn hstill
    rw [chunksFrom_cons, said_append, fragmentsIn_append, List.filter_append, hrest,
      h.fragments_event hk e (by omega)]
    simp [hclosed]

/-- A call whose block belongs to it gets the pieces for that block until a call begins there. -/
theorem Numbered.fragments_of_open (h : s.Numbered n) {k : Nat} (hk : k < n)
    (events : List Event) (hn : n + (toolStarts events).length ≤ UInt32.size) {index : UInt64}
    (hopen : s.toolBlocks.lookup index = some (UInt32.ofNat k)) :
    (fragmentsIn (said (chunksFrom event s events))).filter (·.index = UInt32.ofNat k) =
      (piecesAt index events).map (.continuing (UInt32.ofNat k)) := by
  induction events generalizing s n with
  | nil => rfl
  | cons e events ih =>
    rw [toolStarts_cons, List.length_append, ← Nat.add_assoc] at hn
    rw [chunksFrom_cons, said_append, fragmentsIn_append, List.filter_append,
      h.fragments_event hk e (by omega), piecesAt_cons]
    have hnext := h.step e (by omega)
    cases he : e.toolStart? with
    | some start =>
      rw [he] at hn hnext
      by_cases hi : index = start.index
      · -- the block passes to the call that begins, and `k` is closed from here on
        have hclosed : ∀ j, (s.event e).1.toolBlocks.lookup j ≠ some (UInt32.ofNat k) := by
          intro j hj
          rw [event_toolBlocks_of_start he] at hj
          split at hj
          · have hlt : n < UInt32.size := by simp at hn; omega
            have := ofNat_inj_of_lt hlt (by omega) (h.next.symm.trans (Option.some.inj hj))
            omega
          · rename_i hne
            exact hne ((h.apart j index _ hj hopen).trans hi)
        rw [hnext.fragments_of_closed (by omega) events hn hclosed,
          Event.argumentPiece?_eq_none he]
        simp [Event.startsAt, he, hi]
      · have hstill : (s.event e).1.toolBlocks.lookup index = some (UInt32.ofNat k) := by
          rw [event_toolBlocks_of_start he, if_neg hi, hopen]
        rw [ih hnext (by omega) hn hstill, Event.argumentPiece?_eq_none he]
        simp [Event.startsAt, he, Event.pieceAt?, Event.argumentPiece?_eq_none he, Ne.symm hi]
    | none =>
      rw [he] at hn hnext
      have hstill : (s.event e).1.toolBlocks.lookup index = some (UInt32.ofNat k) := by
        rw [event_toolBlocks_of_none he, hopen]
      rw [ih hnext hk hn hstill]
      cases hp : e.argumentPiece? with
      | none => simp [Event.startsAt, he, Event.pieceAt?, hp]
      | some p =>
        have hiff : s.toolBlocks.lookup p.1 = some (UInt32.ofNat k) ↔ p.1 = index :=
          ⟨fun hl => h.apart _ _ _ hl hopen, fun heq => heq ▸ hopen⟩
        by_cases hi : p.1 = index
        · subst hi
          simp [Event.startsAt, he, Event.pieceAt?, hp, Option.filter_some, hopen]
        · simp [Event.startsAt, he, Event.pieceAt?, hp, Option.filter_some, hiff, hi]

/-- Every piece that goes out belongs to a call that has begun by the end. -/
theorem Numbered.fragments_index (h : s.Numbered n) (events : List Event)
    (hn : n + (toolStarts events).length ≤ UInt32.size) {f : CallFragment}
    (hf : f ∈ fragmentsIn (said (chunksFrom event s events))) :
    ∃ k < n + (toolStarts events).length, f.index = UInt32.ofNat k := by
  induction events generalizing s n with
  | nil => simp [fragmentsIn] at hf
  | cons e events ih =>
    rw [toolStarts_cons, List.length_append, ← Nat.add_assoc] at hn ⊢
    rw [chunksFrom_cons, said_append, fragmentsIn_append, List.mem_append] at hf
    rcases hf with hf | hf
    · rw [fragmentsIn_event, fragments] at hf
      cases he : e.toolStart? with
      | some start =>
        simp only [he, List.mem_singleton] at hf
        exact ⟨n, by simp; omega, by rw [hf, CallFragment.opening, h.next]⟩
      | none =>
        cases hp : e.argumentPiece? with
        | none => simp [he, hp] at hf
        | some p =>
          simp only [he, hp, List.mem_map, Option.mem_toList] at hf
          obtain ⟨tool, hl, rfl⟩ := hf
          obtain ⟨k, hk, heq⟩ := h.below _ _ hl
          exact ⟨k, by omega, heq⟩
    · exact ih (h.step e (by omega)) hn hf

/-- Ids given to calls without one are taken from the source in order. -/
theorem stateAfter_ids (events : List Event) :
    (stateAfter event s events).ids =
      { s.ids with next := s.ids.next + ((toolStarts events).filter (·.id = "")).length } := by
  induction events generalizing s with
  | nil => rfl
  | cons e events ih =>
    rw [stateAfter_cons, ih, event_state]
    cases e with
    | blockStart index b =>
      cases b with
      | toolUse id name =>
        by_cases hid : id = "" <;>
          simp [noting, hid, Event.toolStart?, Ids.newToolCall, Nat.add_assoc, Nat.add_comm 1]
      | other => rfl
    | _ => rfl

/-- A block in which no tool call begins keeps the call that it belongs to. -/
theorem stateAfter_toolBlocks (events : List Event) {index : UInt64}
    (h : ∀ start ∈ toolStarts events, start.index ≠ index) :
    (stateAfter event s events).toolBlocks.lookup index = s.toolBlocks.lookup index := by
  induction events generalizing s with
  | nil => rfl
  | cons e events ih =>
    rw [toolStarts_cons] at h
    rw [stateAfter_cons, ih fun start hm => h start (List.mem_append_right _ hm)]
    cases he : e.toolStart? with
    | none => rw [event_toolBlocks_of_none he]
    | some start =>
      have hne : start.index ≠ index := h start (by simp [he])
      rw [event_toolBlocks_of_start he, if_neg (Ne.symm hne)]

theorem event_inputJson_of_unopened {index : UInt64} (piece : String)
    (h : s.toolBlocks.lookup index = none) :
    (s.event (.blockDelta index (.inputJson piece))).2 = .skip := by
  simp [event_eq, utterance?, h]

theorem callId_ne_empty (h : ∀ m, s.ids.source.toolCall m ≠ "") (start : ToolStart) :
    s.callId start ≠ "" := by
  unfold callId
  split
  · exact h _
  · assumption

/-- The pieces of the call that begins after `before`: one opens it, the others add arguments. -/
theorem Numbered.fragments_of_start (h : s.Numbered n) (before after : List Event)
    (index : UInt64) (id name : String)
    (hn : n + (toolStarts (before ++ .blockStart index (.toolUse id name) :: after)).length ≤
      UInt32.size) :
    let k := UInt32.ofNat (n + (toolStarts before).length)
    let events := before ++ .blockStart index (.toolUse id name) :: after
    (fragmentsIn (said (chunksFrom event s events))).filter (·.index = k) =
      .opening k ((stateAfter event s before).callId ⟨index, id, name⟩) name "" ::
        (piecesAt index after).map (.continuing k) := by
  intro k events
  have hstart : (Event.blockStart index (.toolUse id name)).toolStart? =
      some ⟨index, id, name⟩ := rfl
  rw [toolStarts_append, toolStarts_cons, hstart, List.length_append, List.length_append,
    Option.toList_some, List.length_singleton] at hn
  have ht := h.run before (by omega)
  have hnext := ht.step (.blockStart index (.toolUse id name))
    (by rw [hstart, Option.toList_some, List.length_singleton]; omega)
  rw [hstart, Option.toList_some, List.length_singleton] at hnext
  have hopen : ((stateAfter event s before).event
      (.blockStart index (.toolUse id name))).1.toolBlocks.lookup index = some k := by
    rw [event_toolBlocks_of_start hstart, if_pos rfl, ht.next]
  have hbefore : (fragmentsIn (said (chunksFrom event s before))).filter (·.index = k) = [] := by
    rw [List.filter_eq_nil_iff]
    intro f hf heq
    obtain ⟨j, hj, hfj⟩ := h.fragments_index before (by omega) hf
    have := ofNat_inj_of_lt (by omega) (by omega) (hfj.symm.trans (of_decide_eq_true heq))
    omega
  have hafter := hnext.fragments_of_open (by omega) after (by omega) hopen
  rw [chunksFrom_append, chunksFrom_cons, said_append, said_append, fragmentsIn_append,
    fragmentsIn_append, List.filter_append, List.filter_append, hbefore, hafter, fragmentsIn_event,
    fragments, hstart, ht.next]
  simp [CallFragment.opening, k]

/-- Every text comes through whole and in order. The tool call that begins after `k` others is the
one that the pieces of index `k` make up. Arguments for a block without a call are passed over. -/
theorem payloads_conserved (model : String) (now : Int64) (ids : Ids) (texts : List String)
    (hids : ∀ m, ids.source.toolCall m ≠ "")
    (hfew : (toolStarts (texts.filterMap Event.ofText?)).length ≤ UInt32.size) :
    let new := Stream.new model now ids
    let events := texts.filterMap Event.ofText?
    let sent := said (chunksFrom payload new texts)
    contentIn sent = String.join (events.filterMap (·.text?)) ∧
      reasoningIn sent = String.join (events.filterMap (·.thinking?)) ∧
      (∀ before index id name after,
        events = before ++ .blockStart index (.toolUse id name) :: after →
          let k := UInt32.ofNat (toolStarts before).length
          let nameless := ((toolStarts before).filter (·.id = "")).length
          let callId := if id = "" then ids.source.toolCall (ids.next + 1 + nameless) else id
          callId ≠ "" ∧
            (fragmentsIn sent).filter (·.index = k) =
              { index := k, id := some callId, kind := some "function",
                function := some { name := some name, arguments := some "" } } ::
                (piecesAt index after).map (fun piece =>
                  { index := k, id := none, kind := none,
                    function := some { name := none, arguments := some piece } }) ∧
            argumentsAt k (fragmentsIn sent) = String.join (piecesAt index after)) ∧
      ∀ before text after index piece, texts = before ++ text :: after →
        Event.ofText? text = some (.blockDelta index (.inputJson piece)) →
        (∀ start ∈ toolStarts (before.filterMap Event.ofText?), start.index ≠ index) →
          (payload (stateAfter payload new before) text).2 = .chunks [] := by
  intro new events sent
  have hsent : sent = said (chunksFrom event new events) := by rw [← chunksFrom_payload]
  refine ⟨?_, ?_, ?_, ?_⟩
  · rw [hsent, contentIn_chunksFrom]
  · rw [hsent, reasoningIn_chunksFrom]
  · intro before index id name after heq k nameless callId
    have hfragments : (fragmentsIn sent).filter (·.index = k) =
        .opening k callId name "" :: (piecesAt index after).map (.continuing k) := by
      have h := (new_numbered model now ids).fragments_of_start before after index id name
        (by rw [Nat.zero_add, ← heq]; exact hfew)
      rw [Nat.zero_add, ← heq] at h
      rw [hsent]
      refine h.trans ?_
      rw [Stream.callId, stateAfter_ids]
      rfl
    refine ⟨?_, hfragments, ?_⟩
    · have hne := callId_ne_empty (s := stateAfter event new before)
        (by rw [stateAfter_ids]; exact hids) ⟨index, id, name⟩
      rwa [Stream.callId, stateAfter_ids] at hne
    · rw [argumentsAt, hfragments]
      simp [CallFragment.opening, CallFragment.continuing, Function.comp_def]
  · intro before text after index piece _ htext hunopened
    rw [payload_eq, htext, stateAfter_payload]
    apply event_inputJson_of_unopened
    rw [stateAfter_toolBlocks _ hunopened]
    rfl

end Stream

/-- A tool call that begins without an id. -/
def lookupStart : String :=
  "\x7b\"type\":\"content_block_start\",\"index\":1,\"content_block\":" ++
    "\x7b\"type\":\"tool_use\",\"id\":\"\",\"name\":\"lookup\"\x7d\x7d"

/-- A piece of its arguments. -/
def lookupPiece : String :=
  "\x7b\"type\":\"content_block_delta\",\"index\":1,\"delta\":" ++
    "\x7b\"type\":\"input_json_delta\",\"partial_json\":\"7\"\x7d\x7d"

theorem ofText?_lookupStart :
    Event.ofText? lookupStart = some (.blockStart 1 (.toolUse "" "lookup")) :=
  Event.ofText?_eq_some
    (.object [(.clean "type", .text (.clean "content_block_start")),
      (.clean "index", .number (.clean (.int (.ofUInt64 1)))),
      (.clean "content_block", .object [(.clean "type", .text (.clean "tool_use")),
        (.clean "id", .text (.clean "")), (.clean "name", .text (.clean "lookup"))] .closed)]
      .closed) (by cbv) (by cbv)

theorem ofText?_lookupPiece :
    Event.ofText? lookupPiece = some (.blockDelta 1 (.inputJson "7")) :=
  Event.ofText?_eq_some
    (.object [(.clean "type", .text (.clean "content_block_delta")),
      (.clean "index", .number (.clean (.int (.ofUInt64 1)))),
      (.clean "delta", .object [(.clean "type", .text (.clean "input_json_delta")),
        (.clean "partial_json", .text (.clean "7"))] .closed)] .closed) (by cbv) (by cbv)

theorem ofText?_question : Event.ofText? "?" = none := by cbv

/-- Two calls in one block, after a piece of arguments that comes too early. -/
theorem lookups_conserved :
    let ids := Ids.ofSource (.sequential "chatcmpl")
    let new := Stream.new "" 7 ids
    let texts := [lookupPiece, lookupStart, "?", lookupPiece, lookupStart, lookupPiece]
    let sent := fragmentsIn (said (chunksFrom Stream.payload new texts))
    (∀ m, ids.source.toolCall m ≠ "") ∧
      (toolStarts (texts.filterMap Event.ofText?)).length ≤ UInt32.size ∧
      (new.payload lookupPiece).2 = .chunks [] ∧
      sent.filter (·.index = 0) =
        [⟨0, some "call_1", some "function", some ⟨some "lookup", some ""⟩⟩,
          ⟨0, none, none, some ⟨none, some "7"⟩⟩] ∧
      sent.filter (·.index = 1) =
        [⟨1, some "call_2", some "function", some ⟨some "lookup", some ""⟩⟩,
          ⟨1, none, none, some ⟨none, some "7"⟩⟩] := by
  intro ids new texts sent
  have hids : ∀ m, ids.source.toolCall m ≠ "" := by
    intro m
    simp [ids, Ids.ofSource, IdSource.sequential]
  let start := Event.blockStart 1 (.toolUse "" "lookup")
  let piece := Event.blockDelta 1 (.inputJson "7")
  have hevents : texts.filterMap Event.ofText? = [piece, start, piece, start, piece] := by
    simp [texts, start, piece, ofText?_lookupStart, ofText?_lookupPiece, ofText?_question]
  have hfew : (toolStarts (texts.filterMap Event.ofText?)).length ≤ UInt32.size := by
    rw [hevents]
    decide
  obtain ⟨_, _, hcalls, hearly⟩ := Stream.payloads_conserved "" 7 ids texts hids hfew
  refine ⟨hids, hfew, ?_, ?_, ?_⟩
  · exact hearly [] lookupPiece _ 1 "7" rfl ofText?_lookupPiece (by simp)
  · have hid : ids.source.toolCall 1 = "call_1" := by decide
    rw [← hid]
    exact (hcalls [piece] 1 "" "lookup" [piece, start, piece] hevents).2.1
  · have hid : ids.source.toolCall 2 = "call_2" := by decide
    rw [← hid]
    exact (hcalls [piece, start, piece] 1 "" "lookup" [piece] hevents).2.1

end ChatDialect.Anthropic
