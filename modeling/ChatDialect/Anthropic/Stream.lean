import ChatDialect.Anthropic.Event
import ChatDialect.Anthropic.ToChat
import ChatDialect.Chat.Step

/-!
Streams of the Anthropic dialect as streams of chunks. A stream keeps the identity that its first
events give, announces the assistant once, and numbers the tool calls by the blocks that open them.
-/
namespace ChatDialect.Anthropic

open Chat (Chunk Delta Step CallFragment FinishReason)

structure Stream where
  model : String
  id : String
  created : Int64
  ids : Ids
  begun : Bool
  announced : Bool
  /-- The tool call that each open block belongs to, the latest first. -/
  toolBlocks : List (UInt64 × UInt32)
  nextTool : UInt32
  startUsage : Option Usage

namespace Stream

/-- A stream that has seen nothing; its id is a new one until the provider gives another. -/
def new (model : String) (now : Int64) (ids : Ids) : Stream :=
  let (id, ids) := ids.newResponse
  { model, id, created := now, ids, begun := false, announced := false, toolBlocks := [],
    nextTool := 0, startUsage := none }

/-- One chunk with one choice. The first chunk of a stream announces the assistant. -/
def chunk (s : Stream) (delta : Delta) (finish : Option FinishReason)
    (usage : Option Chat.Usage) : Stream × Step :=
  let delta := if s.announced then delta else { delta with role := some "assistant" }
  ({ s with announced := true },
    .one (.ofChoices s.id s.created s.model [{ index := 0, delta, finishReason := finish }] usage))

/-- The output is counted at the end; the input was counted at the start unless it is repeated. -/
def usage (s : Stream) (u : DeltaUsage) : Chat.Usage :=
  let prompt := (u.inputTokens.or (s.startUsage.map (·.inputTokens))).getD 0
  { promptTokens := prompt
    completionTokens := u.outputTokens
    totalTokens := prompt + u.outputTokens
    promptDetails := promptDetails (u.cacheReadTokens.or (s.startUsage.bind (·.cacheReadTokens)))
    completionDetails := none }

def onMessageStart (s : Stream) (first : Bool) (m : StreamMessage) : Stream × Step :=
  let s := { s with
    id := if m.id = "" then s.id else m.id
    model := if s.model = "" then m.model else s.model
    startUsage := m.usage }
  if first then s.chunk { Delta.empty with content := some "" } none none else (s, .skip)

def onToolStart (s : Stream) (index : UInt64) (id name : String) : Stream × Step :=
  let (id, ids) := if id = "" then s.ids.newToolCall else (id, s.ids)
  let tool := s.nextTool
  let s := { s with ids, nextTool := tool + 1, toolBlocks := (index, tool) :: s.toolBlocks }
  s.chunk { Delta.empty with toolCalls := some [.opening tool id name ""] } none none

def onDelta (s : Stream) (index : UInt64) : BlockDelta → Stream × Step
  | .text t => s.chunk { Delta.empty with content := some t } none none
  | .thinking t => s.chunk { Delta.empty with reasoning := some t } none none
  | .inputJson t =>
    match s.toolBlocks.lookup index with
    | some tool => s.chunk { Delta.empty with toolCalls := some [.continuing tool t] } none none
    | none => (s, .skip)
  | .other => (s, .skip)

def onMessageDelta (s : Stream) (d : MessageDelta) (u : Option DeltaUsage) : Stream × Step :=
  match d.stopReason with
  | some reason => s.chunk Delta.empty (some (reasonOf reason)) (u.map s.usage)
  | none => (s, .skip)

/-- Takes one event. -/
def event (s : Stream) (e : Event) : Stream × Step :=
  let first := !s.begun
  let s := { s with begun := true }
  match e with
  | .messageStart m => s.onMessageStart first m
  | .blockStart index (.toolUse id name) => s.onToolStart index id name
  | .blockStart _ .other => (s, .skip)
  | .blockDelta index d => s.onDelta index d
  | .blockStop _ => (s, .skip)
  | .messageDelta d u => s.onMessageDelta d u
  | .messageStop => (s, .done)
  | .ping => (s, .skip)
  | .unknown => (s, .skip)

/-- Takes one payload; one that is no event says nothing. -/
def payload (s : Stream) (text : String) : Stream × Step :=
  match Event.codec.read (Utf8.ofString text) with
  | .ok e => s.event e
  | .error _ => (s, .skip)

end Stream

end ChatDialect.Anthropic
