import ChatDialect.Gateway
import ChatDialect.Proofs.Chat.Turns
import ChatDialect.Proofs.Vertex.Parts

/-! The structure of a conversation at the providers. Every message that says something is one turn,
in order, and the instructions are a matter of their own: turns do not depend on them, nor they on
the turns. -/
namespace ChatDialect

open Chat (Rendering)

/-- Whether a message gives an instruction that has a text. -/
def Chat.Message.instructs (m : Message) : Bool :=
  m.role.isInstruction && !(Chat.Content.fragments m.content).isEmpty

/-- What becomes of the messages with instructions, where those without text become nothing. -/
theorem Chat.filterMap_instructs {β : Type} {f : Message → Option β}
    (h : ∀ m, Chat.Content.fragments m.content = [] → f m = none) (messages : List Message) :
    (messages.filter (·.role.isInstruction)).filterMap f =
      (messages.filter (·.instructs)).filterMap f := by
  rw [List.filterMap_filter, List.filterMap_filter]
  apply List.filterMap_congr
  intro m _
  cases hfragments : Chat.Content.fragments m.content with
  | nil => simp [Message.instructs, hfragments, h m hfragments]
  | cons first rest => simp [Message.instructs, hfragments]

theorem Chat.fragments_ne_nil {messages : List Message} {m : Message}
    (h : m ∈ messages.filter (·.instructs)) : Chat.Content.fragments m.content ≠ [] := by
  rw [List.mem_filter, Message.instructs, Bool.and_eq_true] at h
  simpa using h.2.2

namespace Anthropic

def ContentBlock.text? : ContentBlock → Option String
  | .text s => some s
  | _ => none

def ContentBlock.isCall : ContentBlock → Bool
  | .toolUse _ _ _ => true
  | _ => false

theorem exists_source_of_media {b : Chat.Block} {item : ContentBlock} (hb : b.isText = false)
    (h : ofBlock? b = some item) : ∃ source, item = .image source ∨ item = .document source := by
  cases b with
  | text s => cases hb
  | image m =>
    obtain ⟨source, -, rfl⟩ := Option.map_eq_some_iff.mp h
    exact ⟨source, .inl rfl⟩
  | file f =>
    obtain ⟨url, -, hurl⟩ := Option.bind_eq_some_iff.mp h
    split at hurl
    · obtain ⟨source, -, rfl⟩ := Option.map_eq_some_iff.mp hurl
      exact ⟨source, .inr rfl⟩
    · cases hurl
  | _ => cases h

def rendering : Rendering ContentBlock where
  text := .text
  block? := ofBlock?
  call c := .toolUse c.id c.function.name (Chat.Arguments.parse c.function.arguments)
  text? := ContentBlock.text?
  isCall := ContentBlock.isCall
  block?_text s := by
    rw [ofBlock?, Text.nonEmpty?]
    split <;> rfl
  of_text _ := ⟨rfl, rfl⟩
  of_media b hb item hitem := by
    obtain ⟨source, rfl | rfl⟩ := exists_source_of_media hb hitem <;> exact ⟨rfl, rfl⟩
  of_call _ := ⟨rfl, rfl⟩

theorem ofContent_eq (content : Option Chat.Content) :
    ofContent content = (Chat.Content.blocksOf content).filterMap ofBlock? := by
  cases content with
  | none => rfl
  | some c =>
    cases c with
    | text s => cases h : Text.nonEmpty? s <;> simp [ofContent, Chat.Content.blocksOf, ofBlock?, h]
    | blocks bs => rfl
    | other value => rfl

theorem turnContent_eq (m : Chat.Message) : turnContent m = rendering.items m := by
  rw [rendering.items_eq, turnContent, ofContent_eq]
  rfl

theorem turn?_eq (m : Chat.Message) :
    turn? m = if rendering.speaks m then some ⟨ofRole m.role, rendering.items m⟩ else none := by
  have hnil := rendering.items_eq_nil (m := m)
  rw [turn?, turnContent_eq]
  cases hspeaks : rendering.speaks m with
  | true => simp [hnil, hspeaks]
  | false => simp [hnil.mpr hspeaks]

theorem ofRole_eq (role : Chat.Role) :
    ofRole role = if role = .assistant then .assistant else .user := by
  cases role <;> rfl

/-- A turn of a message: who speaks, and what is said. -/
structure IsTurnOf (m : Chat.Message) (turn : Message) : Prop where
  role : turn.role = if m.role = .assistant then .assistant else .user
  renders : rendering.Renders m turn.content

theorem turnsOf_eq (messages : List Chat.Message) :
    turnsOf messages =
      (rendering.spoken messages).map fun m => ⟨ofRole m.role, rendering.items m⟩ := by
  rw [turnsOf, funext turn?_eq, rendering.filterMap_speaks]

theorem forall₂_turnsOf (messages : List Chat.Message) :
    List.Forall₂ IsTurnOf (rendering.spoken messages) (turnsOf messages) := by
  rw [turnsOf_eq]
  apply rendering.forall₂_spoken
  intro m hspeaks
  exact ⟨ofRole_eq m.role, rendering.renders_items hspeaks⟩

theorem systemOf_eq (messages : List Chat.Message) :
    systemOf messages = (messages.filter (·.instructs)).map fun m =>
      .text (Chat.Content.joined m.content "\n") := by
  rw [systemOf, Chat.filterMap_instructs, ← List.filterMap_eq_map]
  · apply List.filterMap_congr
    intro m hm
    have hjoined : Chat.Content.joined m.content "\n" ≠ "" :=
      mt Chat.Content.joined_eq_empty.mp (Chat.fragments_ne_nil hm)
    simp [systemBlock?, Text.nonEmpty?, hjoined]
  · intro m hm
    simp [systemBlock?, Text.nonEmpty?, Chat.Content.joined_eq_empty.mpr hm]

theorem turnsOf_append (xs ys : List Chat.Message) :
    turnsOf (xs ++ ys) = turnsOf xs ++ turnsOf ys := by
  simp [turnsOf]

theorem systemOf_append (xs ys : List Chat.Message) :
    systemOf (xs ++ ys) = systemOf xs ++ systemOf ys := by
  simp [systemOf]

end Anthropic

namespace Vertex

theorem part_of_media {b : Chat.Block} {item : Part} (hb : b.isText = false)
    (h : ofBlock? b = some item) : item.text = none ∧ item.functionCall = none := by
  have hmedia {url : String} {format : Option String} (h : mediaPart? url format = some item) :
      item.text = none ∧ item.functionCall = none := by
    unfold mediaPart? at h
    split at h <;> cases h <;> exact ⟨rfl, rfl⟩
  cases b with
  | text s => cases hb
  | image m => exact hmedia h
  | video m => exact hmedia h
  | file f =>
    obtain ⟨url, -, hurl⟩ := Option.bind_eq_some_iff.mp h
    exact hmedia hurl
  | audio a =>
    obtain ⟨data, -, rfl⟩ := Option.map_eq_some_iff.mp h
    exact ⟨rfl, rfl⟩
  | ignored kind => cases h

def rendering : Rendering Part where
  text s := (Item.text s).part
  block? := ofBlock?
  call c := (Item.call c.function.name (Chat.Arguments.parse c.function.arguments)).part
  text? := Part.text
  isCall p := p.functionCall.isSome
  block?_text s := by
    rw [ofBlock?, Text.nonEmpty?]
    split <;> rfl
  of_text _ := ⟨rfl, rfl⟩
  of_media b hb item hitem := by
    obtain ⟨htext, hcall⟩ := part_of_media hb hitem
    exact ⟨htext, by rw [hcall]; rfl⟩
  of_call _ := ⟨rfl, rfl⟩

theorem ofContent_eq (content : Option Chat.Content) :
    ofContent content = (Chat.Content.blocksOf content).filterMap ofBlock? := by
  cases content with
  | none => rfl
  | some c =>
    cases c with
    | text s => cases h : Text.nonEmpty? s <;> simp [ofContent, Chat.Content.blocksOf, ofBlock?, h]
    | blocks bs => rfl
    | other value => rfl

theorem turnParts_eq (m : Chat.Message) : turnParts m = rendering.items m := by
  rw [rendering.items_eq, turnParts, ofContent_eq]
  rfl

theorem turn?_eq (m : Chat.Message) :
    turn? m = if rendering.speaks m then some ⟨some (roleName m.role), rendering.items m⟩
      else none := by
  have hnil := rendering.items_eq_nil (m := m)
  rw [turn?, turnParts_eq]
  cases hspeaks : rendering.speaks m with
  | true => simp [hnil, hspeaks]
  | false => simp [hnil.mpr hspeaks]

theorem roleName_eq (role : Chat.Role) :
    roleName role = if role = .assistant then "model" else "user" := by
  cases role <;> rfl

/-- A turn of a message: who speaks, and what is said. -/
structure IsTurnOf (m : Chat.Message) (turn : Content) : Prop where
  role : turn.role = some (if m.role = .assistant then "model" else "user")
  renders : rendering.Renders m turn.parts

theorem turnsOf_eq (messages : List Chat.Message) :
    turnsOf messages =
      (rendering.spoken messages).map fun m => ⟨some (roleName m.role), rendering.items m⟩ := by
  rw [turnsOf, funext turn?_eq, rendering.filterMap_speaks]

theorem forall₂_turnsOf (messages : List Chat.Message) :
    List.Forall₂ IsTurnOf (rendering.spoken messages) (turnsOf messages) := by
  rw [turnsOf_eq]
  apply rendering.forall₂_spoken
  intro m hspeaks
  exact ⟨congrArg some (roleName_eq m.role), rendering.renders_items hspeaks⟩

theorem systemOf_eq (messages : List Chat.Message) :
    systemOf messages = ((messages.filter (·.instructs)).getLast?.bind fun m =>
      (Chat.Content.fragments m.content).head?).map fun text =>
        { role := none, parts := [(Item.text text).part] } := by
  have hnone (m : Chat.Message) (hm : Chat.Content.fragments m.content = []) :
      (Chat.Content.fragments m.content).head? = none := by
    rw [hm]
    rfl
  rw [systemOf, Chat.filterMap_instructs hnone]
  congr 1
  -- every message left has a text, so the last text is the one of the last message
  rcases List.eq_nil_or_concat (messages.filter (·.instructs)) with hlist | ⟨init, last, hlist⟩
  · rw [hlist]
    rfl
  · have hlast : last ∈ messages.filter (·.instructs) := by
      rw [hlist]
      simp
    obtain ⟨first, rest, hfragments⟩ := List.exists_cons_of_ne_nil (Chat.fragments_ne_nil hlast)
    simp [hlist, hfragments]

theorem turnsOf_append (xs ys : List Chat.Message) :
    turnsOf (xs ++ ys) = turnsOf xs ++ turnsOf ys := by
  simp [turnsOf]

theorem systemOf_append (xs ys : List Chat.Message) :
    systemOf (xs ++ ys) = (systemOf ys).or (systemOf xs) := by
  simp [systemOf, List.getLast?_append, Option.map_or]

end Vertex

/-- At both providers the turns are those of the messages that say something and are no
instructions, in order; they do not depend on the instructions, nor the place for instructions on
the turns. Both requests of a conversation are made of those of its parts. -/
theorem conversation_kept (r : Chat.Request) (model : String) :
    let a := Anthropic.Request.ofChat r model
    let v := Vertex.Request.ofChat r model
    let instructions := r.messages.filter (·.instructs)
    List.Forall₂ Anthropic.IsTurnOf (Anthropic.rendering.spoken r.messages) a.messages ∧
    List.Forall₂ Vertex.IsTurnOf (Vertex.rendering.spoken r.messages) v.contents ∧
    a.system = instructions.map (fun m =>
      .text ("\n".intercalate (Chat.Content.fragments m.content))) ∧
    v.systemInstruction =
      (instructions.getLast?.bind fun m => (Chat.Content.fragments m.content).head?).map
        (fun text => { role := none, parts := [(Vertex.Item.text text).part] }) ∧
    (∀ (r' : Chat.Request) (model' : String),
      r'.messages.filter (!·.role.isInstruction) = r.messages.filter (!·.role.isInstruction) →
      (Anthropic.Request.ofChat r' model').messages = a.messages ∧
      (Vertex.Request.ofChat r' model').contents = v.contents) ∧
    (∀ (r' : Chat.Request) (model' : String),
      r'.messages.filter (·.role.isInstruction) = r.messages.filter (·.role.isInstruction) →
      (Anthropic.Request.ofChat r' model').system = a.system ∧
      (Vertex.Request.ofChat r' model').systemInstruction = v.systemInstruction) ∧
    (∀ xs ys : List Chat.Message,
      let before := Anthropic.Request.ofChat { r with messages := xs } model
      let after := Anthropic.Request.ofChat { r with messages := ys } model
      Anthropic.Request.ofChat { r with messages := xs ++ ys } model =
        { before with
          messages := before.messages ++ after.messages, system := before.system ++ after.system }) ∧
    (∀ xs ys : List Chat.Message,
      let before := Vertex.Request.ofChat { r with messages := xs } model
      let after := Vertex.Request.ofChat { r with messages := ys } model
      Vertex.Request.ofChat { r with messages := xs ++ ys } model =
        { before with
          contents := before.contents ++ after.contents
          systemInstruction := after.systemInstruction.or before.systemInstruction }) := by
  intro a v instructions
  refine ⟨Anthropic.forall₂_turnsOf r.messages, Vertex.forall₂_turnsOf r.messages,
    Anthropic.systemOf_eq r.messages, Vertex.systemOf_eq r.messages, ?_, ?_, ?_, ?_⟩
  · intro r' model' hturns
    constructor
    · exact congrArg (List.filterMap Anthropic.turn?) hturns
    · exact congrArg (List.filterMap Vertex.turn?) hturns
  · intro r' model' hinstructions
    constructor
    · exact congrArg (List.filterMap Anthropic.systemBlock?) hinstructions
    · change Vertex.systemOf r'.messages = Vertex.systemOf r.messages
      rw [Vertex.systemOf, hinstructions, Vertex.systemOf]
  · intro xs ys before after
    simp only [before, after, Anthropic.Request.ofChat, Anthropic.turnsOf_append,
      Anthropic.systemOf_append]
  · intro xs ys before after
    simp only [before, after, Vertex.Request.ofChat, Vertex.turnsOf_append,
      Vertex.systemOf_append]
    rfl

theorem conversation_kept_moved :
    let r := Chat.Request.ofMessages "m" [.ofText .system "Be brief.", .ofText .user "Hi."]
    let moved := Chat.Request.ofMessages "m" [.ofText .user "Hi.", .ofText .developer "Be kind."]
    let answered := Chat.Request.ofMessages "m"
      [.ofText .system "Be brief.", .ofText .user "Hi.", .ofText .assistant "Hello."]
    (moved.messages.filter (!·.role.isInstruction) = r.messages.filter (!·.role.isInstruction) ∧
      answered.messages.filter (·.role.isInstruction) =
        r.messages.filter (·.role.isInstruction)) ∧
    (Anthropic.Request.ofChat moved "").messages = (Anthropic.Request.ofChat r "").messages ∧
    (Vertex.Request.ofChat moved "").contents = (Vertex.Request.ofChat r "").contents ∧
    (Anthropic.Request.ofChat answered "").system = (Anthropic.Request.ofChat r "").system ∧
    (Vertex.Request.ofChat answered "").systemInstruction =
      (Vertex.Request.ofChat r "").systemInstruction := by
  intro r moved answered
  obtain ⟨-, -, -, -, hturns, hinstructions, -, -⟩ := conversation_kept r ""
  obtain ⟨hmessages, hcontents⟩ := hturns moved "" rfl
  obtain ⟨hsystem, hinstruction⟩ := hinstructions answered "" rfl
  exact ⟨⟨rfl, rfl⟩, hmessages, hcontents, hsystem, hinstruction⟩

end ChatDialect
