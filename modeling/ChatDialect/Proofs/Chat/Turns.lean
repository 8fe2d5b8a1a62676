import Mathlib.Data.List.Forall2
import ChatDialect.Chat.Message

/-! What the messages of a conversation say, and how a dialect renders it: one item at most for each
block, in order, and then one for each call. -/
namespace ChatDialect.Chat

/-- The blocks of content. A text is one block. -/
def Content.blocksOf : Option Content → List Block
  | some (.text s) => [.text s]
  | some (.blocks bs) => bs
  | some (.other _) => []
  | none => []

theorem Content.fragments_eq (content : Option Content) :
    fragments content = (blocksOf content).filterMap blockText? := by
  cases content with
  | none => rfl
  | some c =>
    cases c with
    | text s => by_cases hs : s = "" <;> simp [fragments, blocksOf, blockText?, Text.nonEmpty?, hs]
    | blocks bs => rfl
    | other value => rfl

theorem Content.ne_empty_of_mem_fragments {content : Option Content} {text : String}
    (h : text ∈ fragments content) : text ≠ "" := by
  rw [fragments_eq] at h
  obtain ⟨b, -, hb⟩ := List.mem_filterMap.mp h
  cases b with
  | text s =>
    rw [blockText?, Text.nonEmpty?] at hb
    split at hb
    · cases hb
    · next hs =>
      cases hb
      exact hs
  | _ => cases hb

/-- Texts without empty ones only join to the empty text if there are none. -/
theorem Content.joined_eq_empty {content : Option Content} {separator : String} :
    joined content separator = "" ↔ fragments content = [] := by
  unfold joined
  constructor
  · intro h
    cases hfragments : fragments content with
    | nil => rfl
    | cons first rest =>
      have hfirst : first ≠ "" := ne_empty_of_mem_fragments (by rw [hfragments]; simp)
      rw [hfragments] at h
      cases rest with
      | nil => exact absurd (String.intercalate_singleton.symm.trans h) hfirst
      | cons second rest =>
        rw [String.intercalate_cons_cons] at h
        simp [hfirst] at h
  · intro h
    rw [h]
    rfl

theorem Content.join_ne_empty {content : Option Content} (h : fragments content ≠ []) :
    String.join (fragments content) ≠ "" := by
  obtain ⟨first, rest, hfragments⟩ := List.exists_cons_of_ne_nil h
  have hfirst : first ≠ "" := ne_empty_of_mem_fragments (by rw [hfragments]; simp)
  rw [hfragments, String.join_cons]
  simp [hfirst]

def Block.isText : Block → Bool
  | .text _ => true
  | _ => false

namespace Message

variable (m : Message)

/-- The blocks that count: of what a tool says only the text does. -/
def said : List Block :=
  (Content.blocksOf m.content).filter fun b => m.role ≠ .tool || b.isText

/-- The calls that count: those of the assistant. -/
def called : List ToolCall := if m.role = .assistant then m.toolCalls.getD [] else []

theorem fragments_eq_said : Content.fragments m.content = m.said.filterMap Content.blockText? := by
  rw [Content.fragments_eq, said, List.filterMap_filter]
  congr 1
  funext b
  cases b <;> simp [Content.blockText?, Block.isText]

end Message

/-- How a dialect renders blocks, some of which it cannot, and calls, and how its items are told
apart: texts are rendered as texts, unless they are empty, and calls as calls; nothing else is
rendered as either. -/
structure Rendering (β : Type) where
  text : String → β
  block? : Block → Option β
  call : ToolCall → β
  text? : β → Option String
  isCall : β → Bool
  block?_text : ∀ s, block? (.text s) = if s = "" then none else some (text s)
  of_text : ∀ s, text? (text s) = some s ∧ isCall (text s) = false
  of_media : ∀ b, b.isText = false → ∀ item ∈ block? b, text? item = none ∧ isCall item = false
  of_call : ∀ c, text? (call c) = none ∧ isCall (call c) = true

namespace Rendering

variable {β : Type} (R : Rendering β)

def items (m : Message) : List β := m.said.filterMap R.block? ++ m.called.map R.call

/-- Whether a message has a block that can be rendered, or a call. -/
def speaks (m : Message) : Bool := m.said.any (fun b => (R.block? b).isSome) || !m.called.isEmpty

/-- The messages that become turns. -/
def spoken (messages : List Message) : List Message :=
  messages.filter fun m => !m.role.isInstruction && R.speaks m

theorem items_eq_nil {m : Message} : R.items m = [] ↔ R.speaks m = false := by
  simp [items, speaks, List.filterMap_eq_nil_iff]

theorem text?_block? (b : Block) : (R.block? b).bind R.text? = Content.blockText? b := by
  cases htext : b.isText with
  | false =>
    have hnone : Content.blockText? b = none := by
      cases b with
      | text s => cases htext
      | _ => rfl
    rw [hnone, Option.bind_eq_none_iff]
    intro item hitem
    exact (R.of_media b htext item hitem).1
  | true =>
    cases b with
    | text s =>
      rw [R.block?_text, Content.blockText?, Text.nonEmpty?]
      split
      · rfl
      · exact (R.of_text s).1
    | _ => cases htext

theorem isCall_of_block? {b : Block} {item : β} (h : R.block? b = some item) :
    R.isCall item = false := by
  cases htext : b.isText with
  | false => exact (R.of_media b htext item h).2
  | true =>
    cases b with
    | text s =>
      rw [R.block?_text] at h
      split at h
      · cases h
      · cases h
        exact (R.of_text s).2
    | _ => cases htext

/-- What is no call shows in the blocks. -/
theorem filterMap_items {γ : Type} {view : β → Option γ} (hcall : ∀ c, view (R.call c) = none)
    (m : Message) :
    (R.items m).filterMap view = m.said.filterMap fun b => (R.block? b).bind view := by
  have hcalls : (m.called.map R.call).filterMap view = [] := by
    rw [List.filterMap_eq_nil_iff]
    intro item hitem
    obtain ⟨c, -, rfl⟩ := List.mem_map.mp hitem
    exact hcall c
  rw [items, List.filterMap_append, hcalls, List.append_nil, List.filterMap_filterMap]

theorem texts_items (m : Message) : (R.items m).filterMap R.text? = Content.fragments m.content := by
  have hcall (c : ToolCall) : R.text? (R.call c) = none := (R.of_call c).1
  have hblocks : (fun b => (R.block? b).bind R.text?) = Content.blockText? := funext R.text?_block?
  rw [R.filterMap_items hcall, hblocks, m.fragments_eq_said]

theorem calls_items (m : Message) : (R.items m).filter R.isCall = m.called.map R.call := by
  have hblocks : (m.said.filterMap R.block?).filter R.isCall = [] := by
    rw [List.filter_eq_nil_iff]
    intro item hitem
    obtain ⟨b, -, hb⟩ := List.mem_filterMap.mp hitem
    simp [R.isCall_of_block? hb]
  have hcalls : (m.called.map R.call).filter R.isCall = m.called.map R.call := by
    rw [List.filter_eq_self]
    intro item hitem
    obtain ⟨c, -, rfl⟩ := List.mem_map.mp hitem
    exact (R.of_call c).2
  rw [items, List.filter_append, hblocks, hcalls, List.nil_append]

/-- The items are a turn for the message: what can be rendered of what it says, in order, the calls
last. -/
structure Renders (m : Message) (items : List β) : Prop where
  ne_nil : items ≠ []
  content : items = m.said.filterMap R.block? ++ m.called.map R.call
  texts : items.filterMap R.text? = Content.fragments m.content
  calls : items.filter R.isCall = m.called.map R.call

theorem renders_items {m : Message} (h : R.speaks m) : R.Renders m (R.items m) where
  ne_nil := by
    intro hnil
    rw [R.items_eq_nil.mp hnil] at h
    cases h
  content := rfl
  texts := R.texts_items m
  calls := R.calls_items m

/-- Of texts alone every fragment is an item. -/
theorem items_of_texts {m : Message} (h : ∀ b ∈ m.said, b.isText) :
    R.items m = (Content.fragments m.content).map R.text ++ m.called.map R.call := by
  have htexts : m.said.filterMap R.block? = (Content.fragments m.content).map R.text := by
    rw [m.fragments_eq_said, List.map_filterMap]
    apply List.filterMap_congr
    intro b hb
    cases b with
    | text s =>
      rw [R.block?_text, Content.blockText?, Text.nonEmpty?]
      split <;> rfl
    | _ => cases h _ hb
  rw [items, htexts]

/-- The items by the role of the message. -/
theorem items_eq (m : Message) :
    R.items m = match m.role with
      | .tool => (Content.fragments m.content).map R.text
      | .assistant => (Content.blocksOf m.content).filterMap R.block? ++
          (m.toolCalls.getD []).map R.call
      | _ => (Content.blocksOf m.content).filterMap R.block? := by
  have hall (hrole : m.role ≠ .tool) : m.said = Content.blocksOf m.content := by
    simp [Message.said, hrole]
  have hnone (hrole : m.role ≠ .assistant) : m.called = [] := if_neg hrole
  cases hrole : m.role with
  | tool =>
    have htexts : ∀ b ∈ m.said, b.isText := by
      intro b hb
      simpa [Message.said, hrole] using (List.mem_filter.mp hb).2
    rw [R.items_of_texts htexts, hnone (by simp [hrole])]
    exact List.append_nil _
  | assistant =>
    rw [items, hall (by simp [hrole])]
    simp [Message.called, hrole]
  | system => simp [items, hall, hnone, hrole]
  | developer => simp [items, hall, hnone, hrole]
  | user => simp [items, hall, hnone, hrole]

/-- Turns that are made of the messages that speak are made in their order, one each. -/
theorem filterMap_speaks {τ : Type} (turn : Message → τ) (messages : List Message) :
    ((messages.filter (!·.role.isInstruction)).filterMap fun m =>
      if R.speaks m then some (turn m) else none) = (R.spoken messages).map turn := by
  rw [List.filterMap_filter, spoken, ← List.filterMap_eq_map, List.filterMap_filter]
  apply List.filterMap_congr
  intro m _
  cases m.role.isInstruction <;> rfl

/-- Nothing is lost with the messages that say nothing. -/
theorem flatMap_spoken (messages : List Message) :
    (R.spoken messages).flatMap R.items =
      (messages.filter (!·.role.isInstruction)).flatMap R.items := by
  induction messages with
  | nil => rfl
  | cons m messages ih =>
    have hnil := R.items_eq_nil (m := m)
    simp only [spoken] at ih ⊢
    cases hrole : m.role.isInstruction with
    | true => simpa [hrole] using ih
    | false =>
      cases hspeaks : R.speaks m with
      | true => simpa [hrole, hspeaks] using ih
      | false => simpa [hrole, hspeaks, hnil.mpr hspeaks] using ih

theorem forall₂_spoken {τ : Type} {turn : Message → τ} {renders : Message → τ → Prop}
    (h : ∀ m, R.speaks m → renders m (turn m)) (messages : List Message) :
    List.Forall₂ renders (R.spoken messages) ((R.spoken messages).map turn) := by
  rw [List.forall₂_map_right_iff, List.forall₂_same]
  intro m hm
  rw [spoken, List.mem_filter, Bool.and_eq_true] at hm
  exact h m hm.2.2

/-- A message that speaks stands behind those before it that do. -/
theorem getElem?_spoken {m : Message} (before after : List Message)
    (hrole : m.role.isInstruction = false) (hspeaks : R.speaks m) :
    (R.spoken (before ++ m :: after))[(R.spoken before).length]? = some m := by
  have hkept : R.spoken (m :: after) = m :: R.spoken after :=
    List.filter_cons_of_pos (by simp [hrole, hspeaks])
  have happend : R.spoken (before ++ m :: after) = R.spoken before ++ R.spoken (m :: after) :=
    List.filter_append _ _
  rw [happend, hkept, List.getElem?_append_right (Nat.le_refl _), Nat.sub_self]
  rfl

end Rendering

end ChatDialect.Chat
