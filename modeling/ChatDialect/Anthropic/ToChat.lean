import ChatDialect.Anthropic.Reply
import ChatDialect.Chat.Arguments
import ChatDialect.Chat.Response
import ChatDialect.Ids
import ChatDialect.Text.Ascii

/-! Responses of the Anthropic dialect as chat responses. -/
namespace ChatDialect.Anthropic

open Chat (FinishReason)

def reasonOf : String → FinishReason
  | "max_tokens" => .length
  | "tool_use" => .toolCalls
  | _ => .stop

def ReplyBlock.text? : ReplyBlock → Option String
  | .text s => some s
  | _ => none

def ReplyBlock.thinking? : ReplyBlock → Option String
  | .thinking s => some s
  | _ => none

def ReplyBlock.toolCall? : ReplyBlock → Option Chat.ToolCall
  | .toolUse id name input => some (.ofFunction id name (Chat.Arguments.print input))
  | _ => none

/-- All texts of the blocks in one. -/
def textOf (blocks : List ReplyBlock) : String := String.join (blocks.filterMap (·.text?))

def thinkingOf (blocks : List ReplyBlock) : String := String.join (blocks.filterMap (·.thinking?))

def toolCallsOf (blocks : List ReplyBlock) : List Chat.ToolCall := blocks.filterMap (·.toolCall?)

/-- Cached input counts as a detail of the prompt. -/
def promptDetails (cached : Option UInt64) : Option Chat.PromptDetails :=
  cached.map fun n => { cachedTokens := some n, audioTokens := none }

def Usage.toChat (u : Usage) : Chat.Usage where
  promptTokens := u.inputTokens
  completionTokens := u.outputTokens
  totalTokens := u.inputTokens + u.outputTokens
  promptDetails := promptDetails u.cacheReadTokens
  completionDetails := none

def Response.reply (r : Response) : Chat.Reply where
  role := "assistant"
  content := some (textOf r.content)
  reasoning := Text.nonEmpty? (thinkingOf r.content)
  images := none
  toolCalls := Chat.listed? (toolCallsOf r.content)

/-- The chat response, at a given time. -/
def Response.toChat (r : Response) (model : String) (now : Int64) : Chat.Response where
  id := r.id
  object := "chat.completion"
  created := now
  model := targetModel model r.model
  choices := [{
    index := 0
    message := r.reply
    finishReason := some ((r.stopReason.map reasonOf).getD .stop) }]
  usage := some r.usage.toChat

end ChatDialect.Anthropic
