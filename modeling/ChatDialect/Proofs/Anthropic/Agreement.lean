import ChatDialect.Proofs.Anthropic.Steps
import ChatDialect.Proofs.Chat.Assembly

/-! A streamed response and the same response in one piece: what a client puts together from the
chunks of the one is what the other is converted to. -/
namespace ChatDialect.Anthropic

open Chat

/-- An event that says nothing and changes nothing. -/
def Event.idle : Event → Bool
  | .ping => true
  | .unknown => true
  | _ => false

/-- How a stream announces a block. -/
def ReplyBlock.announced : ReplyBlock → StreamBlock
  | .toolUse id name _ => .toolUse id name
  | _ => .other

/-- The kind of the deltas that a block comes in, and what they add up to. -/
def ReplyBlock.spelling? : ReplyBlock → Option ((String → BlockDelta) × String)
  | .text t => some (.text, t)
  | .thinking t => some (.thinking, t)
  | .toolUse _ _ input => some (.inputJson, Arguments.print input)
  | .unsupported => none

/-- Unknown deltas apart, the deltas are pieces of the block, cut anywhere. -/
def ReplyBlock.Spelled (b : ReplyBlock) (deltas : List BlockDelta) : Prop :=
  match b.spelling? with
  | some (piece, whole) =>
    ∃ pieces, deltas.filter (· ≠ .other) = pieces.map piece ∧ String.join pieces = whole
  | none => deltas.filter (· ≠ .other) = []

/-- A block of a response as it is streamed: under an index, in deltas. -/
structure StreamedBlock where
  index : UInt64
  block : ReplyBlock
  deltas : List BlockDelta

def StreamedBlock.rest (b : StreamedBlock) : List Event :=
  b.deltas.map (.blockDelta b.index) ++ [.blockStop b.index]

def StreamedBlock.events (b : StreamedBlock) : List Event :=
  .blockStart b.index b.block.announced :: b.rest

/-- What a stream of a response consists of: its usage at the start, its blocks in deltas, and the
end, which may count the input again. -/
structure Rendition (r : Response) where
  start : Usage
  blocks : List StreamedBlock
  ending : MessageDelta
  final : DeltaUsage
  input : start.inputTokens = r.usage.inputTokens
  cached : start.cacheReadTokens = r.usage.cacheReadTokens
  content : blocks.map (·.block) = r.content
  spelled : ∀ b ∈ blocks, b.block.Spelled b.deltas
  reason : ending.stopReason = r.stopReason
  output : final.outputTokens = r.usage.outputTokens
  inputAgain : final.inputTokens = none ∨ final.inputTokens = some r.usage.inputTokens
  cachedAgain : final.cacheReadTokens = none ∨ final.cacheReadTokens = r.usage.cacheReadTokens

namespace Rendition

variable {r : Response} (p : Rendition r)

def first : Event := .messageStart ⟨r.id, r.model, some p.start⟩

def rest : List Event :=
  p.blocks.flatMap (·.events) ++ [.messageDelta p.ending (some p.final), .messageStop]

end Rendition

/-- The events stream the response. Idle events may stand anywhere behind the first. -/
def Streams (r : Response) (events : List Event) : Prop :=
  ∃ (p : Rendition r) (rest : List Event),
    events = p.first :: rest ∧ rest.filter (!·.idle) = p.rest

namespace ReplyBlock.Spelled

variable {deltas : List BlockDelta} {b : ReplyBlock}

section Views
variable {α : Type} {pieces : List String} {piece : String → BlockDelta}
  (hd : deltas.filter (· ≠ .other) = pieces.map piece)
include hd

/-- A view in which unknown deltas have no part sees the pieces only. -/
theorem filterMap_pieces (view : BlockDelta → Option α) (hview : view .other = none) :
    deltas.filterMap view = pieces.filterMap (view ∘ piece) := by
  rw [← List.filterMap_map, ← hd, List.filterMap_filter]
  congr 1
  funext d
  by_cases h : d = .other <;> simp [h, hview]

theorem filterMap_own (view : BlockDelta → Option String) (hview : view .other = none)
    (hown : view ∘ piece = some) : deltas.filterMap view = pieces := by
  rw [filterMap_pieces hd view hview, hown, List.filterMap_some]

theorem filterMap_foreign (view : BlockDelta → Option String) (hview : view .other = none)
    (hforeign : view ∘ piece = fun _ => none) : deltas.filterMap view = [] := by
  rw [filterMap_pieces hd view hview, hforeign, List.filterMap_eq_nil_iff]
  exact fun _ _ => rfl

end Views

/-- Each view shows the block if it is of its kind, else nothing. -/
theorem views (h : b.Spelled deltas) :
    String.join (deltas.filterMap (·.text?)) = b.text?.getD "" ∧
      String.join (deltas.filterMap (·.thinking?)) = b.thinking?.getD "" ∧
      match b with
      | .toolUse _ _ input => String.join (deltas.filterMap (·.json?)) = Arguments.print input
      | _ => deltas.filterMap (·.json?) = [] := by
  cases b with
  | text t =>
    obtain ⟨pieces, hd, rfl⟩ := h
    rw [filterMap_own hd _ rfl rfl, filterMap_foreign hd _ rfl rfl, filterMap_foreign hd _ rfl rfl]
    exact ⟨rfl, rfl, rfl⟩
  | thinking t =>
    obtain ⟨pieces, hd, rfl⟩ := h
    rw [filterMap_foreign hd _ rfl rfl, filterMap_own hd _ rfl rfl, filterMap_foreign hd _ rfl rfl]
    exact ⟨rfl, rfl, rfl⟩
  | toolUse id name input =>
    obtain ⟨pieces, hd, hjoin⟩ := h
    rw [filterMap_foreign hd _ rfl rfl, filterMap_foreign hd _ rfl rfl, filterMap_own hd _ rfl rfl]
    exact ⟨rfl, rfl, hjoin⟩
  | unsupported =>
    have hd : deltas.filter (· ≠ .other) = [].map BlockDelta.text := h
    rw [filterMap_pieces hd _ rfl, filterMap_pieces hd _ rfl, filterMap_pieces hd _ rfl]
    exact ⟨rfl, rfl, rfl⟩

end ReplyBlock.Spelled

namespace StreamedBlock

variable (b : StreamedBlock)

/-- A view in which only deltas have a part. -/
theorem filterMap_events {α : Type} (view : Event → Option α)
    (hstart : ∀ index block, view (.blockStart index block) = none)
    (hstop : ∀ index, view (.blockStop index) = none) :
    b.events.filterMap view = b.deltas.filterMap fun d => view (.blockDelta b.index d) := by
  rw [events, rest, List.filterMap_cons_none (hstart _ _), List.filterMap_append,
    List.filterMap_cons_none (hstop _), List.filterMap_nil, List.append_nil, List.filterMap_map]
  rfl

theorem join_texts {blocks : List StreamedBlock} (h : ∀ b ∈ blocks, b.block.Spelled b.deltas) :
    String.join ((blocks.flatMap (·.events)).filterMap (·.text?)) =
      textOf (blocks.map (·.block)) := by
  induction blocks with
  | nil => rfl
  | cons b blocks ih =>
    rw [List.flatMap_cons, List.filterMap_append, String.join_append,
      ih fun b hb => h b (List.mem_cons_of_mem _ hb),
      filterMap_events b _ (fun _ _ => rfl) (fun _ => rfl)]
    have hb := (h b List.mem_cons_self).views.1
    simp only [Event.text?, hb, textOf, List.map_cons]
    cases ht : b.block.text? <;> simp [ht]

theorem join_thoughts {blocks : List StreamedBlock} (h : ∀ b ∈ blocks, b.block.Spelled b.deltas) :
    String.join ((blocks.flatMap (·.events)).filterMap (·.thinking?)) =
      thinkingOf (blocks.map (·.block)) := by
  induction blocks with
  | nil => rfl
  | cons b blocks ih =>
    rw [List.flatMap_cons, List.filterMap_append, String.join_append,
      ih fun b hb => h b (List.mem_cons_of_mem _ hb),
      filterMap_events b _ (fun _ _ => rfl) (fun _ => rfl)]
    have hb := (h b List.mem_cons_self).views.2.1
    simp only [Event.thinking?, hb, thinkingOf, List.map_cons]
    cases ht : b.block.thinking? <;> simp [ht]

/-- Events of blocks do not begin or end a message. -/
theorem views_of_mem {e : Event} (he : e ∈ b.events) :
    e.isStart = false ∧ e.totals? = none ∧ e.finish? = none := by
  simp only [events, rest, List.mem_cons, List.mem_append, List.mem_map, List.not_mem_nil,
    or_false] at he
  rcases he with rfl | ⟨d, _, rfl⟩ | rfl <;> exact ⟨rfl, rfl, rfl⟩

end StreamedBlock

namespace Stream

variable (s : Stream)

/-- Once a stream has begun, idle events may as well be left out. -/
theorem chunksFrom_of_idle (hs : s.begun = true) (events : List Event) :
    chunksFrom event s events = chunksFrom event s (events.filter (!·.idle)) := by
  have hsame : { s with begun := true } = s := by rw [← hs]
  induction events generalizing s with
  | nil => rfl
  | cons e events ih =>
    cases hi : e.idle with
    | false =>
      have hbegun := s.event_begun e
      rw [List.filter_cons_of_pos (by simp [hi]), chunksFrom_cons, chunksFrom_cons,
        ih _ hbegun (by rw [← hbegun])]
    | true =>
      have hevent : s.event e = (s, .skip) := by
        cases e with
        | ping => exact congrArg (·, Step.skip) hsame
        | unknown => exact congrArg (·, Step.skip) hsame
        | _ => simp [Event.idle] at hi
      rw [List.filter_cons_of_neg (by simp [hi]), chunksFrom_cons, hevent]
      exact ih s hs hsame

theorem toolStart?_of_mem_rest (b : StreamedBlock) {e : Event} (he : e ∈ b.rest) :
    e.toolStart? = none := by
  simp only [StreamedBlock.rest, List.mem_append, List.mem_map, List.mem_singleton] at he
  rcases he with ⟨d, _, rfl⟩ | rfl <;> rfl

/-- What a block says of tool calls once it has been announced. -/
theorem fragmentsIn_rest (b : StreamedBlock) :
    fragmentsIn (said (chunksFrom event s b.rest)) =
      (b.deltas.filterMap (·.json?)).flatMap fun t =>
        (s.toolBlocks.lookup b.index).toList.map (CallFragment.continuing · t) := by
  have hpieces : b.rest.filterMap (·.argumentPiece?) =
      (b.deltas.filterMap (·.json?)).map fun t => (b.index, t) := by
    rw [StreamedBlock.rest, List.filterMap_append, List.filterMap_map, List.map_filterMap]
    exact List.append_nil _
  rw [s.fragmentsIn_of_no_starts fun e he => toolStart?_of_mem_rest b he, hpieces,
    List.flatMap_map]

/-- A block that is a tool call opens it and adds its arguments, under the next number. -/
theorem fragmentsIn_block (b : StreamedBlock) (hspelled : b.block.Spelled b.deltas)
    (hids : ∀ call ∈ b.block.toolCall?, call.id ≠ "") :
    fragmentsIn (said (chunksFrom event s b.events)) =
      match b.block with
      | .toolUse id name _ => .opening s.nextTool id name "" ::
          (b.deltas.filterMap (·.json?)).map (.continuing s.nextTool)
      | _ => [] := by
  have hjson := hspelled.views.2.2
  rw [StreamedBlock.events, chunksFrom_cons, said_append, fragmentsIn_append, fragmentsIn_event,
    fragmentsIn_rest, (s.event_numbering _).2]
  obtain ⟨index, block, deltas⟩ := b
  cases block with
  | toolUse id name input =>
    have hid : id ≠ "" := hids _ rfl
    simp [ReplyBlock.announced, fragments, Event.toolStart?, callId, hid, List.map_eq_flatMap]
  | _ =>
    simp only at hjson
    simp [hjson, ReplyBlock.announced, fragments, Event.toolStart?, Event.argumentPiece?]

theorem stateAfter_block (b : StreamedBlock) :
    (stateAfter event s b.events).nextTool =
      if b.block.toolCall?.isSome then s.nextTool + 1 else s.nextTool := by
  rw [StreamedBlock.events, stateAfter_cons,
    stateAfter_nextTool_of_no_starts _ fun e he => toolStart?_of_mem_rest b he,
    (s.event_numbering _).1]
  cases b.block <;> rfl

/-- After `n` tool calls: the client holds a call under each number given so far. -/
structure InStep (s : Stream) (drafts : Drafts) (n : Nat) : Prop where
  next : s.nextTool = UInt32.ofNat n
  indices : drafts.indices = (List.range n).map UInt32.ofNat

namespace InStep

variable {s : Stream} {drafts : Drafts} {n : Nat}

theorem next_not_mem (h : s.InStep drafts n) (hn : n < UInt32.size) :
    s.nextTool ∉ drafts.indices := by
  intro hmem
  rw [h.indices, h.next, List.mem_map] at hmem
  obtain ⟨k, hk, heq⟩ := hmem
  rw [List.mem_range] at hk
  have := ofNat_inj_of_lt (by omega) hn heq
  omega

/-- The client adds the tool call of a block, if it is one, under the next number. -/
theorem block (h : s.InStep drafts n) (b : StreamedBlock) (hspelled : b.block.Spelled b.deltas)
    (hids : ∀ call ∈ b.block.toolCall?, call.id ≠ "")
    (hn : n + b.block.toolCall?.toList.length ≤ UInt32.size) :
    let added := drafts.addAll (fragmentsIn (said (chunksFrom event s b.events)))
    added.map (·.2) = drafts.map (·.2) ++ b.block.toolCall?.toList ∧
      (stateAfter event s b.events).InStep added (n + b.block.toolCall?.toList.length) := by
  intro added
  have hnext := s.stateAfter_block b
  have hadded : added = drafts.addAll _ := congrArg _ (s.fragmentsIn_block b hspelled hids)
  have hjson := hspelled.views.2.2
  obtain ⟨index, block, deltas⟩ := b
  cases block with
  | toolUse id name input =>
    simp only at hjson
    have hnew := h.next_not_mem hn
    have hopened : drafts.add (.opening s.nextTool id name "") =
        drafts ++ [(s.nextTool, .ofFunction id name "")] :=
      Drafts.add_of_new (f := .opening s.nextTool id name "") hnew
    rw [Drafts.addAll_cons, hopened, Drafts.addAll_continuing _ hnew, hjson] at hadded
    refine ⟨by simp [hadded, ReplyBlock.toolCall?, ToolCall.ofFunction], ?_, ?_⟩
    · rw [hnext, h.next]
      exact (UInt32.ofNat_add n 1).symm
    · have hindices := h.indices
      rw [Drafts.indices] at hindices
      simp [Drafts.indices, hadded, hindices, ReplyBlock.toolCall?, List.range_succ, h.next]
  | _ => exact ⟨by simp [hadded, ReplyBlock.toolCall?], hnext.trans h.next, hadded ▸ h.indices⟩

/-- Over all blocks, the client adds their tool calls as long as there are numbers for them. -/
theorem blocks (h : s.InStep drafts n) {blocks : List StreamedBlock}
    (hspelled : ∀ b ∈ blocks, b.block.Spelled b.deltas)
    (hids : ∀ call ∈ toolCallsOf (blocks.map (·.block)), call.id ≠ "")
    (hfew : n + (toolCallsOf (blocks.map (·.block))).length ≤ UInt32.size) :
    (drafts.addAll (fragmentsIn (said (chunksFrom event s
        (blocks.flatMap (·.events)))))).map (·.2) =
      drafts.map (·.2) ++ toolCallsOf (blocks.map (·.block)) := by
  induction blocks generalizing s n drafts with
  | nil => simp [fragmentsIn, toolCallsOf]
  | cons b blocks ih =>
    have hcalls : toolCallsOf ((b :: blocks).map (·.block)) =
        b.block.toolCall?.toList ++ toolCallsOf (blocks.map (·.block)) := by
      cases h : b.block.toolCall? <;> simp [toolCallsOf, h]
    rw [hcalls, List.length_append] at hfew
    rw [hcalls] at hids ⊢
    obtain ⟨hadded, hstep⟩ := h.block b (hspelled b List.mem_cons_self)
      (fun call hm => hids call (List.mem_append_left _ (Option.mem_toList.mpr hm))) (by omega)
    rw [List.flatMap_cons, chunksFrom_append, said_append, fragmentsIn_append,
      Drafts.addAll_append, ih hstep (fun b hb => hspelled b (List.mem_cons_of_mem _ hb))
        (fun call hm => hids call (List.mem_append_right _ hm)) (by omega), hadded,
      List.append_assoc]

end InStep

/-- The start of a message gives a new stream its identity and announces the assistant. -/
theorem new_event_start (model : String) (now : Int64) (ids : Ids) {m : StreamMessage}
    (hid : m.id ≠ "") :
    ∃ s, (Stream.new model now ids).event (.messageStart m) =
        (s, .one (.ofChoices m.id now (targetModel model m.model)
          [⟨0, { Delta.empty with role := some "assistant", content := some "" }, none⟩] none)) ∧
      s.id = m.id ∧ s.created = now ∧ s.model = targetModel model m.model ∧
      s.startUsage = m.usage ∧ s.nextTool = 0 ∧ s.begun = true := by
  refine ⟨((Stream.new model now ids).event (.messageStart m)).1, ?_⟩
  by_cases hmodel : model = "" <;>
    simp [event_eq, utterance?, noting, Stream.new, chunkOf, announcing, targetModel, hid, hmodel]

end Stream

/-- The chat response, its tool calls exchanged for others. -/
def Response.toChatWith (r : Response) (model : String) (now : Int64)
    (calls : List Chat.ToolCall) : Chat.Response :=
  { r.toChat model now with
    choices := [{
      index := 0
      message := { r.reply with toolCalls := listed? calls }
      finishReason := some ((r.stopReason.map reasonOf).getD .stop) }] }

theorem Response.toChatWith_eq_iff (r : Response) (model : String) (now : Int64)
    (calls : List Chat.ToolCall) :
    r.toChatWith model now calls = r.toChat model now ↔ calls = toolCallsOf r.content := by
  have hlisted : listed? calls = listed? (toolCallsOf r.content) ↔
      calls = toolCallsOf r.content := by
    cases calls <;> cases toolCallsOf r.content <;> simp [listed?]
  rw [← hlisted]
  simp [toChatWith, toChat, reply]

namespace Rendition

variable {r : Response} (p : Rendition r)

/-- A view in which no event of a block has a part sees the end only. -/
theorem filterMap_rest {α : Type} (view : Event → Option α)
    (h : ∀ b : StreamedBlock, ∀ e ∈ b.events, view e = none) :
    p.rest.filterMap view =
      [.messageDelta p.ending (some p.final), .messageStop].filterMap view := by
  rw [rest, List.filterMap_append, List.append_left_eq_self, List.filterMap_eq_nil_iff]
  intro e he
  obtain ⟨b, _, he⟩ := List.mem_flatMap.mp he
  exact h b e he

theorem join_texts : String.join ((p.first :: p.rest).filterMap (·.text?)) = textOf r.content := by
  rw [← p.content, ← StreamedBlock.join_texts p.spelled, rest, List.filterMap_cons_none rfl,
    List.filterMap_append]
  simp [Event.text?]

theorem join_thoughts :
    String.join ((p.first :: p.rest).filterMap (·.thinking?)) = thinkingOf r.content := by
  rw [← p.content, ← StreamedBlock.join_thoughts p.spelled, rest, List.filterMap_cons_none rfl,
    List.filterMap_append]
  simp [Event.thinking?]

theorem filterMap_finish? :
    (p.first :: p.rest).filterMap (·.finish?) = (r.stopReason.map reasonOf).toList := by
  rw [List.filterMap_cons_none rfl, p.filterMap_rest _ fun b e he => (b.views_of_mem he).2.2,
    ← p.reason]
  cases h : p.ending.stopReason <;> simp [Event.finish?, h]

theorem filterMap_totals? (hreason : r.stopReason.isSome) :
    p.rest.filterMap (·.totals?) = [p.final] := by
  obtain ⟨reason, hreason⟩ := Option.isSome_iff_exists.mp hreason
  rw [p.filterMap_rest _ fun b e he => (b.views_of_mem he).2.1]
  simp [Event.totals?, p.reason, hreason]

theorem isStart_of_mem_rest {e : Event} (he : e ∈ p.rest) : e.isStart = false := by
  rw [rest, List.mem_append, List.mem_flatMap] at he
  rcases he with ⟨b, _, he⟩ | he
  · exact (b.views_of_mem he).1
  · simp only [List.mem_cons, List.not_mem_nil, or_false] at he
    rcases he with rfl | rfl <;> rfl

/-- The input counted at the start and the output counted at the end are the usage. -/
theorem usage_final {s : Stream} (hs : s.startUsage = some p.start) :
    s.usage p.final = r.usage.toChat := by
  rcases p.inputAgain with hi | hi <;> rcases p.cachedAgain with hc | hc <;>
    simp [Stream.usage, Usage.toChat, hs, hi, hc, p.input, p.cached, p.output]

/-- The tool calls that a client puts together are those of the response, if there are numbers for
all of them. -/
theorem assembleCalls_rest {s : Stream} (hnext : s.nextTool = 0)
    (hids : ∀ call ∈ toolCallsOf r.content, call.id ≠ "")
    (hfew : (toolCallsOf r.content).length ≤ UInt32.size) :
    assembleCalls (fragmentsIn (said (chunksFrom Stream.event s p.rest))) =
      toolCallsOf r.content := by
  rw [← p.content] at hids hfew ⊢
  have hinStep : s.InStep [] 0 := ⟨hnext, rfl⟩
  have hblocks := hinStep.blocks p.spelled hids (by rw [Nat.zero_add]; exact hfew)
  have hend (s : Stream) : fragmentsIn (said (chunksFrom Stream.event s
      [.messageDelta p.ending (some p.final), .messageStop])) = [] := by
    rw [s.fragmentsIn_of_no_starts]
    · rfl
    · intro e he
      simp only [List.mem_cons, List.not_mem_nil, or_false] at he
      rcases he with rfl | rfl <;> rfl
  rw [assembleCalls, rest, chunksFrom_append, said_append, fragmentsIn_append, hend,
    List.append_nil, hblocks]
  rfl

/-- A client gets everything but the tool calls as it is in the response. -/
theorem ofChunks?_eq (model : String) (now : Int64) (ids : Ids) (hid : r.id ≠ "")
    (hreason : r.stopReason.isSome) :
    let chunks := chunksFrom Stream.event (Stream.new model now ids) (p.first :: p.rest)
    (∀ c ∈ chunks, c.id = r.id ∧ c.created = now ∧ c.model = targetModel model r.model) ∧
      Chat.Response.ofChunks? chunks =
        some (r.toChatWith model now (assembleCalls (fragmentsIn (said chunks)))) := by
  intro chunks
  obtain ⟨s, hs, hsid, hcreated, hmodel, husage, _, _⟩ :=
    Stream.new_event_start model now ids (m := ⟨r.id, r.model, some p.start⟩) hid
  have hchunks : chunks = .ofChoices r.id now (targetModel model r.model)
      [⟨0, { Delta.empty with role := some "assistant", content := some "" }, none⟩] none ::
        chunksFrom Stream.event s p.rest := by
    simp only [chunks, first, chunksFrom_cons, hs, Step.passed_one, List.singleton_append]
  have hidentity := s.chunksFrom_identity fun e he => p.isStart_of_mem_rest he
  rw [hsid, hcreated, hmodel] at hidentity
  have husages : chunks.filterMap (·.usage) = [r.usage.toChat] := by
    rw [hchunks, List.filterMap_cons_none rfl,
      s.usages_chunksFrom fun e he => p.isStart_of_mem_rest he, p.filterMap_totals? hreason,
      List.map_singleton, p.usage_final husage]
  have hcontent : contentIn (said chunks) = textOf r.content := by
    rw [Stream.contentIn_chunksFrom, p.join_texts]
  have hreasoning : reasoningIn (said chunks) = thinkingOf r.content := by
    rw [Stream.reasoningIn_chunksFrom, p.join_thoughts]
  have hfinish : finishesIn (said chunks) = (r.stopReason.map reasonOf).toList := by
    rw [Stream.finishesIn_chunksFrom, p.filterMap_finish?]
  constructor
  · rw [hchunks]
    rintro c (_ | ⟨_, hc⟩)
    · exact ⟨rfl, rfl, rfl⟩
    · exact hidentity c hc
  · have hsaid : saidAt 0 chunks = said chunks := Stream.saidAt_chunksFrom _ _
    have hrole : (said chunks).findSome? (·.delta.role) = some "assistant" := by rw [hchunks]; rfl
    have himages : imagesIn (said chunks) = [] := Stream.imagesIn_chunksFrom _ _
    obtain ⟨reason, hreason⟩ := Option.isSome_iff_exists.mp hreason
    have hhead : chunks.head? = _ := congrArg List.head? hchunks
    simp only [Chat.Response.ofChunks?, hhead, List.head?_cons, Option.map_some, hsaid, hrole,
      hcontent, hreasoning, himages, hfinish, husages, Response.toChatWith, hreason]
    rfl

end Rendition

/-- A client that puts a streamed response together gets the chat response that the whole is
converted to, and every chunk names it, unless there are more tool calls than numbers for them. -/
theorem Streams.toChat_assembled_iff (model : String) (now : Int64) (ids : Ids) {r : Response}
    {events : List Event} (hstreams : Streams r events) (hid : r.id ≠ "")
    (hids : ∀ call ∈ toolCallsOf r.content, call.id ≠ "") (hreason : r.stopReason.isSome) :
    let chunks := chunksFrom Stream.event (Stream.new model now ids) events
    (∀ c ∈ chunks, c.id = r.id ∧ c.created = now ∧ c.model = targetModel model r.model) ∧
      (Chat.Response.ofChunks? chunks = some (r.toChat model now) ↔
        (toolCallsOf r.content).length ≤ UInt32.size) := by
  obtain ⟨p, rest, rfl, hrest⟩ := hstreams
  intro chunks
  obtain ⟨s, hs, _, _, _, _, hnext, hbegun⟩ :=
    Stream.new_event_start model now ids (m := ⟨r.id, r.model, some p.start⟩) hid
  have hchunks : chunks =
      chunksFrom Stream.event (Stream.new model now ids) (p.first :: p.rest) := by
    simp only [chunks, Rendition.first, chunksFrom_cons, hs, s.chunksFrom_of_idle hbegun rest,
      hrest]
  have hfragments : fragmentsIn (said chunks) =
      fragmentsIn (said (chunksFrom Stream.event s p.rest)) := by
    rw [hchunks, Rendition.first, chunksFrom_cons, hs]
    rfl
  obtain ⟨hidentity, hresponse⟩ := p.ofChunks?_eq model now ids hid hreason
  rw [← hchunks] at hidentity hresponse
  refine ⟨hidentity, ?_⟩
  rw [hresponse, Option.some_inj, Response.toChatWith_eq_iff]
  constructor
  · intro hcalls
    rw [← hcalls]
    exact length_assembleCalls_le _
  · intro hfew
    rw [hfragments, p.assembleCalls_rest hnext hids hfew]

/-- A response with a block of every kind. -/
def forecast : Response where
  id := "msg_1"
  kind := "message"
  role := "assistant"
  content := [.thinking "Rain?", .unsupported, .text "Let me look.",
    .toolUse "toolu_1" "weather" (.obj [("city", .str "Bern")]), .toolUse "toolu_2" "clock" .null]
  model := "claude"
  stopReason := some "tool_use"
  stopSequence := none
  usage := ⟨20, 9, none, some 4⟩

def forecastRendition : Rendition forecast where
  start := ⟨20, 1, none, some 4⟩
  blocks :=
    [⟨0, .thinking "Rain?", [.thinking "Ra", .other, .thinking "", .thinking "in?"]⟩,
      ⟨1, .unsupported, [.other]⟩,
      ⟨2, .text "Let me look.", [.text "Let me", .text " look."]⟩,
      ⟨3, .toolUse "toolu_1" "weather" (.obj [("city", .str "Bern")]),
        [.inputJson "\x7b\"ci", .inputJson "ty\":\"Bern\"\x7d"]⟩,
      ⟨4, .toolUse "toolu_2" "clock" .null, [.inputJson "\x7b\x7d"]⟩]
  ending := ⟨some "tool_use", none⟩
  final := ⟨none, 9, none⟩
  input := rfl
  cached := rfl
  content := rfl
  spelled := by
    intro b hb
    simp only [List.mem_cons, List.not_mem_nil, or_false] at hb
    rcases hb with rfl | rfl | rfl | rfl | rfl
    · exact ⟨["Ra", "", "in?"], by decide, by decide⟩
    · show List.filter _ _ = _
      decide
    · exact ⟨["Let me", " look."], by decide, by decide⟩
    · exact ⟨["\x7b\"ci", "ty\":\"Bern\"\x7d"], by decide, by decide⟩
    · exact ⟨["\x7b\x7d"], by decide, by decide⟩
  reason := rfl
  output := rfl
  inputAgain := .inl rfl
  cachedAgain := .inl rfl

theorem forecast_streamed :
    let events := forecastRendition.first :: .ping :: (forecastRendition.rest ++ [.unknown])
    Streams forecast events ∧
      Chat.Response.ofChunks? (chunksFrom Stream.event
        (Stream.new "" 7 (.ofSource (.sequential "chatcmpl"))) events) =
          some (forecast.toChat "" 7) := by
  intro events
  have hstreams : Streams forecast events := ⟨forecastRendition, _, rfl, by decide⟩
  have h := hstreams.toChat_assembled_iff "" 7 (.ofSource (.sequential "chatcmpl")) (by decide)
    (by decide) (by decide)
  exact ⟨hstreams, h.2.mpr (by decide)⟩

end ChatDialect.Anthropic
