import ChatDialect.Proofs.Chat.Edits
import ChatDialect.Proofs.Conversation
import ChatDialect.Proofs.Requests

/-! The content of messages can neither disturb a request nor make it fail. Blocks that are ignored
say nothing to a provider, wherever they stand, and whatever stands for content is read. -/
namespace ChatDialect

open Json (AtOne Codec Source Tree readDocument nestingLimit)

namespace Chat

/-- The blocks of content that are not ignored. -/
def Content.heard (content : Option Content) : List Block :=
  (blocksOf content).filter (!·.isIgnored)

/-- The messages are the same but for ignored blocks. -/
def Message.Alike (m m' : Message) : Prop :=
  ∃ content, Content.heard content = Content.heard m.content ∧ m' = { m with content }

namespace Content

variable {β : Type} {content content' : Option Content}

theorem filterMap_blocksOf {f : Block → Option β} (hf : ∀ kind, f (.ignored kind) = none)
    (h : heard content = heard content') :
    (blocksOf content).filterMap f = (blocksOf content').filterMap f := by
  have hheard (content : Option Content) :
      (heard content).filterMap f = (blocksOf content).filterMap f := by
    rw [heard, List.filterMap_filter]
    apply List.filterMap_congr
    intro b _
    cases b with
    | ignored kind => exact (hf kind).symm
    | _ => rfl
  rw [← hheard, h, hheard]

theorem fragments_congr (h : heard content = heard content') :
    fragments content = fragments content' := by
  rw [fragments_eq, fragments_eq]
  exact filterMap_blocksOf (fun _ => rfl) h

end Content

/-- An ignored block makes no difference. -/
theorem Message.alike_of_inserted {m : Message} {before after : List Block} {b : Block}
    {content : Option Content} (hb : b.isIgnored = true)
    (hm : m.content = some (.blocks (before ++ after)))
    (hcontent : content = some (.blocks (before ++ b :: after))) :
    m.Alike { m with content } := by
  refine ⟨content, ?_, rfl⟩
  simp [hm, hcontent, Content.heard, Content.blocksOf, hb]

theorem Rendering.items_congr {β : Type} (R : Rendering β)
    (hR : ∀ kind, R.block? (.ignored kind) = none) {m m' : Message} (h : m.Alike m') :
    R.items m' = R.items m := by
  obtain ⟨content, hheard, rfl⟩ := h
  rw [R.items_eq, R.items_eq]
  simp only [Content.fragments_congr hheard, Content.filterMap_blocksOf hR hheard]

/-- What is made of messages one by one is the same of messages that are alike. -/
theorem filterMap_congr {β : Type} (p : Role → Bool) {f : Message → Option β}
    (hf : ∀ m m', m.Alike m' → f m' = f m) {messages messages' : List Message}
    (h : AtOne Message.Alike messages messages') :
    (messages'.filter (p ·.role)).filterMap f = (messages.filter (p ·.role)).filterMap f := by
  rw [List.filterMap_filter, List.filterMap_filter]
  induction h with
  | @head m m' messages h =>
    have hrole : m'.role = m.role := by
      obtain ⟨_, -, rfl⟩ := h
      rfl
    rw [List.filterMap_cons, List.filterMap_cons, hrole, hf m m' h]
  | tail _ ih => rw [List.filterMap_cons, List.filterMap_cons, ih]

end Chat

open Chat (Content Message)

namespace Anthropic

theorem turn?_congr {m m' : Chat.Message} (h : m.Alike m') : turn? m' = turn? m := by
  have hcontent : turnContent m' = turnContent m := by
    rw [turnContent_eq, turnContent_eq]
    exact rendering.items_congr (fun _ => rfl) h
  obtain ⟨_, -, rfl⟩ := h
  rw [turn?, hcontent, turn?]

theorem systemBlock?_congr {m m' : Chat.Message} (h : m.Alike m') :
    systemBlock? m' = systemBlock? m := by
  obtain ⟨content, hheard, rfl⟩ := h
  rw [systemBlock?, systemBlock?, Content.joined, Content.joined, Content.fragments_congr hheard]

/-- Ignored blocks are nothing to Anthropic. -/
theorem Request.ofChat_congr {r : Chat.Request} {messages : List Chat.Message} (model : String)
    (h : AtOne Chat.Message.Alike r.messages messages) :
    ofChat { r with messages } model = ofChat r model := by
  have hturns : turnsOf messages = turnsOf r.messages :=
    Chat.filterMap_congr (!·.isInstruction) (fun _ _ => turn?_congr) h
  have hsystem : systemOf messages = systemOf r.messages :=
    Chat.filterMap_congr (·.isInstruction) (fun _ _ => systemBlock?_congr) h
  simp only [ofChat, hturns, hsystem]

end Anthropic

namespace Vertex

theorem turn?_congr {m m' : Chat.Message} (h : m.Alike m') : turn? m' = turn? m := by
  have hparts : turnParts m' = turnParts m := by
    rw [turnParts_eq, turnParts_eq]
    exact rendering.items_congr (fun _ => rfl) h
  obtain ⟨_, -, rfl⟩ := h
  rw [turn?, hparts, turn?]

/-- Ignored blocks are nothing to Vertex. -/
theorem Request.ofChat_congr {r : Chat.Request} {messages : List Chat.Message} (model : String)
    (h : AtOne Chat.Message.Alike r.messages messages) :
    ofChat { r with messages } model = ofChat r model := by
  have hturns : turnsOf messages = turnsOf r.messages :=
    Chat.filterMap_congr (!·.isInstruction) (fun _ _ => turn?_congr) h
  have hfirst (m m' : Chat.Message) (h : m.Alike m') :
      (Chat.Content.fragments m'.content).head? = (Chat.Content.fragments m.content).head? := by
    obtain ⟨content, hheard, rfl⟩ := h
    rw [Chat.Content.fragments_congr hheard]
  have hsystem : systemOf messages = systemOf r.messages := by
    unfold systemOf
    rw [Chat.filterMap_congr (·.isInstruction) hfirst h]
  simp only [ofChat, hturns, hsystem]
  rfl

end Vertex

/-- Content can neither disturb a request nor make it fail: one more item in a list of blocks makes
no difference if it is no block that is known, and any value at all may take the place of the
content of a message. -/
theorem content_harmless {bs bs' : List UInt8} {r : Chat.Request} {t' : Tree}
    (hread : Chat.Request.codec.read bs = .ok r) (hbs' : readDocument bs' = (t', none)) :
    (∀ u j, Codec.value.decode (.text (nestingLimit - 4)) u = .ok j → ¬ Chat.Block.Recognised j →
      Tree.AtField "messages" 1 (Tree.AtItem (Tree.AtField "content" 1 (Tree.Inserted u)))
        (readDocument bs).1 t' →
      ∀ (p : Provider) (model : String), ∃ out,
        p.writeRequest bs model = .ok out ∧ p.writeRequest bs' model = .ok out) ∧
    (∀ u j, Codec.value.decode (.text (nestingLimit - 3)) u = .ok j →
      Tree.AtField "messages" 1 (Tree.AtItem (Tree.WithField "content" 1 u))
        (readDocument bs).1 t' →
      ∃ messages,
        AtOne (fun m m' => m' = { m with content := Content.ofJson? j }) r.messages messages ∧
        Chat.Request.codec.read bs' = .ok { r with messages } ∧
        ∀ (p : Provider) (model : String), ∃ out, p.writeRequest bs' model = .ok out) := by
  have hmessage : (Source.text (nestingLimit - 2)).enter = .ok (.text (nestingLimit - 3)) := rfl
  have hitem : (Source.text (nestingLimit - 3)).enter = .ok (.text (nestingLimit - 4)) := rfl
  constructor
  · intro u j hu hj hedit p model
    have hfollows := Message.follows_content hmessage (Content.follows_inserted hitem hu)
    obtain ⟨messages, hmessages, hread'⟩ := Chat.Request.read_edited hfollows hread hbs' hedit
    have hignored := (Chat.Block.isIgnored_ofJson (Codec.normal_of_decode hu)).mpr hj
    have halike : AtOne Message.Alike r.messages messages := by
      refine hmessages.imp ?_
      rintro m _ ⟨content, ⟨before, after, hm, hcontent⟩, rfl⟩
      exact Message.alike_of_inserted hignored hm hcontent
    obtain ⟨out, hout⟩ := p.exists_written r model
    refine ⟨out, hout bs r hread rfl rfl, ?_⟩
    exact hout bs' _ hread' (Anthropic.Request.ofChat_congr model halike)
      (Vertex.Request.ofChat_congr model halike)
  · intro u j hu hedit
    have hfollows := Message.follows_value hmessage hu
    obtain ⟨messages, hmessages, hread'⟩ := Chat.Request.read_edited hfollows hread hbs' hedit
    refine ⟨messages, hmessages, hread', ?_⟩
    intro p model
    obtain ⟨out, hout⟩ := p.exists_written _ model
    exact ⟨out, hout bs' _ hread' rfl rfl⟩

/-- A message of the user with some content. -/
def saying (content : Json) : Json := .obj [("role", .str "user"), ("content", content)]

/-- A request with that message. -/
def asking (content : Json) : Json := .obj [("messages", .arr [saying content])]

theorem saying_edited {R : Tree → Tree → Prop} {x y : Json} (h : R x.tree y.tree) :
    Tree.AtField "content" 1 R (saying x).tree (saying y).tree :=
  @Tree.AtField.object "content" 1 R [(_, _)] [] _ _ _ _ rfl h

theorem asking_edited {R : Tree → Tree → Prop} {x y : Json}
    (h : R (saying x).tree (saying y).tree) :
    Tree.AtField "messages" 1 (Tree.AtItem R) (asking x).tree (asking y).tree :=
  @Tree.AtField.object "messages" 1 _ [] [] _ _ _ _ rfl (.intro (.head h))

/-- A block of text. -/
def greeting : Json := .obj [("text", .str "Hi."), ("type", .str "text")]

/-- A block of text without its payload. -/
def silence : Json := .obj [("type", .str "text")]

theorem greeting_undisturbed :
    let body := (asking (.arr [greeting])).bytes
    (∀ (p : Provider) (model : String), ∃ out, p.writeRequest body model = .ok out ∧
      p.writeRequest (asking (.arr [silence, greeting])).bytes model = .ok out) ∧
    ∀ (p : Provider) (model : String), ∃ out,
      p.writeRequest (asking silence).bytes model = .ok out := by
  intro body
  have hread : Chat.Request.codec.read body = .ok (.ofMessages ""
      [{ Message.ofText .user "" with content := some (.blocks [.text "Hi."]) }]) := by
    refine Codec.read_bytes rfl ?_
    cbv
  have hbody : readDocument body = ((asking (.arr [greeting])).tree, none) :=
    Json.readDocument_bytes rfl
  constructor
  · have hinserted : readDocument (asking (.arr [silence, greeting])).bytes = (_, none) :=
      Json.readDocument_bytes rfl
    have hsilence : ¬ Chat.Block.Recognised silence := by
      rintro ⟨kind, v, htype, hv, -⟩
      cases htype
      cases hv
    refine (content_harmless hread hinserted).1 silence.tree silence rfl hsilence ?_
    rw [hbody]
    exact asking_edited (saying_edited (@Tree.Inserted.intro _ [] _ _))
  · have hreplaced : readDocument (asking silence).bytes = (_, none) := Json.readDocument_bytes rfl
    have hedit : Tree.AtField "messages" 1 (Tree.AtItem (Tree.WithField "content" 1 silence.tree))
        (readDocument body).1 (asking silence).tree := by
      rw [hbody]
      exact asking_edited (.replaced (saying_edited rfl))
    obtain ⟨_, -, -, hwritten⟩ :=
      (content_harmless hread hreplaced).2 silence.tree silence rfl hedit
    exact hwritten

end ChatDialect
