import ChatDialect.Json.Codec
import ChatDialect.Text.Blank

/-! The arguments of a function call: a JSON text on the canonical side, an object at a provider. -/
namespace ChatDialect.Chat.Arguments

/-- The object that a text of arguments stands for. Blank text is the empty object, a value that is
no object is wrapped, and text that is no JSON is carried along as it is. -/
def parse (text : String) : Json :=
  if (Text.trim text).isEmpty then .obj []
  else match Json.Codec.value.read (Utf8.ofString text) with
    | .ok (.obj fields) => .obj fields
    | .ok j => .obj [("value", j)]
    | .error _ =>
      .obj [("error", .str "invalid tool call arguments"), ("raw_arguments", .str text)]

/-- The text of a provider's arguments. -/
def print : Json → String
  | .null => "\x7b\x7d"
  | j => j.text

end ChatDialect.Chat.Arguments
