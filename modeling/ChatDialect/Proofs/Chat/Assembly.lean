import ChatDialect.Proofs.Chat.Feed

/-! A client that puts a response together from the chunks of a stream. Pieces of tool calls belong
together by their index, so two calls stay apart only under indices of their own. -/
namespace ChatDialect.Chat

/-- The call that a piece begins; what it does not say is empty. -/
def CallFragment.begun (f : CallFragment) : ToolCall where
  id := f.id.getD ""
  kind := f.kind.getD ""
  function := {
    name := (f.function.bind (·.name)).getD ""
    arguments := (f.function.bind (·.arguments)).getD "" }

/-- A call with more arguments, as a later piece of its index gives them. -/
def ToolCall.continued (call : ToolCall) (f : CallFragment) : ToolCall :=
  { call with function := { call.function with
      arguments := call.function.arguments ++ (f.function.bind (·.arguments)).getD "" } }

/-- Calls that have begun, under their indices, in the order in which they began. -/
abbrev Drafts := List (UInt32 × ToolCall)

def Drafts.add : Drafts → CallFragment → Drafts
  | [], f => [(f.index, f.begun)]
  | (index, call) :: rest, f =>
    if index = f.index then (index, call.continued f) :: rest else (index, call) :: add rest f

def Drafts.addAll (drafts : Drafts) (fragments : List CallFragment) : Drafts :=
  fragments.foldl Drafts.add drafts

def Drafts.indices (drafts : Drafts) : List UInt32 := drafts.map (·.1)

/-- The calls that pieces make up. -/
def assembleCalls (fragments : List CallFragment) : List ToolCall :=
  (Drafts.addAll [] fragments).map (·.2)

namespace Drafts

variable {drafts : Drafts} {f : CallFragment}

@[simp] theorem addAll_nil : drafts.addAll [] = drafts := rfl

@[simp] theorem addAll_cons (fragments : List CallFragment) :
    drafts.addAll (f :: fragments) = (drafts.add f).addAll fragments := rfl

theorem addAll_append (xs ys : List CallFragment) :
    drafts.addAll (xs ++ ys) = (drafts.addAll xs).addAll ys :=
  List.foldl_append

/-- A piece of a new index begins a call after the others. -/
theorem add_of_new (h : f.index ∉ drafts.indices) :
    drafts.add f = drafts ++ [(f.index, f.begun)] := by
  induction drafts with
  | nil => rfl
  | cons d rest ih =>
    simp only [indices, List.map_cons, List.mem_cons, not_or] at h
    rw [add, if_neg (Ne.symm h.1), ih h.2, List.cons_append]

/-- A piece of the index that began last goes on with that call. -/
theorem add_of_last (call : ToolCall) (h : f.index ∉ drafts.indices) :
    (drafts ++ [(f.index, call)]).add f = drafts ++ [(f.index, call.continued f)] := by
  induction drafts with
  | nil => simp [add]
  | cons d rest ih =>
    simp only [indices, List.map_cons, List.mem_cons, not_or] at h
    rw [List.cons_append, add, if_neg (Ne.symm h.1), ih h.2, List.cons_append]

/-- More pieces of that index add up to its arguments. -/
theorem addAll_continuing {index : UInt32} (call : ToolCall) (h : index ∉ drafts.indices)
    (pieces : List String) :
    (drafts ++ [(index, call)]).addAll (pieces.map (.continuing index)) =
      drafts ++ [(index, { call with function := { call.function with
        arguments := call.function.arguments ++ String.join pieces } })] := by
  induction pieces generalizing call with
  | nil => simp
  | cons piece pieces ih =>
    have hadd : Drafts.add (drafts ++ [(index, call)]) (.continuing index piece) =
        drafts ++ [(index, call.continued (.continuing index piece))] :=
      add_of_last (f := .continuing index piece) call h
    rw [List.map_cons, addAll_cons, hadd, ih]
    simp [ToolCall.continued, CallFragment.continuing, String.append_assoc]

theorem indices_add :
    (drafts.add f).indices =
      if f.index ∈ drafts.indices then drafts.indices else drafts.indices ++ [f.index] := by
  induction drafts with
  | nil => rfl
  | cons d rest ih =>
    by_cases hd : d.1 = f.index
    · simp [add, indices, hd]
    · simp only [indices] at ih
      by_cases hm : f.index ∈ rest.map (·.1) <;>
        simp [add, indices, hd, Ne.symm hd, ih, hm]

theorem nodup_indices_add (h : drafts.indices.Nodup) : (drafts.add f).indices.Nodup := by
  rw [indices_add]
  split
  · exact h
  · rename_i hnew
    rw [List.nodup_append]
    refine ⟨h, by simp, ?_⟩
    intro a ha b hb heq
    rw [List.mem_singleton] at hb
    exact hnew (hb ▸ heq ▸ ha)

theorem nodup_indices_addAll (drafts : Drafts) (h : drafts.indices.Nodup)
    (fragments : List CallFragment) : (drafts.addAll fragments).indices.Nodup := by
  induction fragments generalizing drafts with
  | nil => exact h
  | cons f fragments ih => exact ih (drafts.add f) (nodup_indices_add h)

/-- Pieces of new indices, all apart, begin a call each. -/
theorem addAll_of_nodup (fragments : List CallFragment)
    (h : (drafts.indices ++ fragments.map (·.index)).Nodup) :
    drafts.addAll fragments = drafts ++ fragments.map fun f => (f.index, f.begun) := by
  induction fragments generalizing drafts with
  | nil => simp
  | cons f fragments ih =>
    have hnew : f.index ∉ drafts.indices := by
      intro hm
      rw [List.nodup_append] at h
      exact h.2.2 f.index hm f.index (by simp) rfl
    have hrest : ((drafts.add f).indices ++ fragments.map (·.index)).Nodup := by
      rw [indices_add, if_neg hnew]
      simpa using h
    rw [addAll_cons, ih hrest, add_of_new hnew]
    simp

/-- Pieces of which two share an index make up fewer calls than there are pieces. -/
theorem length_addAll_le (drafts : Drafts) (fragments : List CallFragment) :
    (drafts.addAll fragments).length ≤ drafts.length + fragments.length ∧
      ((drafts.addAll fragments).length = drafts.length + fragments.length →
        drafts.indices.Nodup → (drafts.indices ++ fragments.map (·.index)).Nodup) := by
  induction fragments generalizing drafts with
  | nil => simp
  | cons f fragments ih =>
    obtain ⟨hle, hnodup⟩ := ih (drafts.add f)
    have hlen : (drafts.add f).length =
        if f.index ∈ drafts.indices then drafts.length else drafts.length + 1 := by
      have h := congrArg List.length (@indices_add drafts f)
      rw [indices, List.length_map] at h
      rw [h]
      split <;> simp [indices]
    rw [addAll_cons, List.length_cons]
    split at hlen
    · exact ⟨by omega, by omega⟩
    · rename_i hnew
      refine ⟨by omega, fun heq hd => ?_⟩
      have h := hnodup (by omega) (nodup_indices_add hd)
      rw [indices_add, if_neg hnew] at h
      simpa using h

end Drafts

/-- Pieces that begin calls make up one call each exactly if no two share an index. -/
theorem length_assembleCalls_eq_iff (fragments : List CallFragment) :
    (assembleCalls fragments).length = fragments.length ↔ (fragments.map (·.index)).Nodup := by
  rw [assembleCalls, List.length_map]
  constructor
  · intro h
    have := (Drafts.length_addAll_le [] fragments).2 (by simpa using h) List.nodup_nil
    simpa [Drafts.indices] using this
  · intro h
    rw [Drafts.addAll_of_nodup fragments (by simpa [Drafts.indices] using h)]
    simp

theorem assembleCalls_of_nodup {fragments : List CallFragment}
    (h : (fragments.map (·.index)).Nodup) : assembleCalls fragments = fragments.map (·.begun) := by
  rw [assembleCalls, Drafts.addAll_of_nodup fragments (by simpa [Drafts.indices] using h)]
  simp [Function.comp_def]

theorem length_le_of_nodup {indices : List UInt32} (h : indices.Nodup) :
    indices.length ≤ UInt32.size := by
  have hsubset : indices ⊆ (List.range (UInt32.size)).map UInt32.ofNat := by
    intro index _
    rw [List.mem_map]
    exact ⟨index.toNat, List.mem_range.mpr index.toNat_lt, UInt32.ofNat_toNat⟩
  have hle := h.length_le_of_subset hsubset
  rwa [List.length_map, List.length_range] at hle

/-- Numbers from zero on stay apart as long as they fit an index. -/
theorem nodup_map_ofNat_range (n : Nat) :
    ((List.range n).map UInt32.ofNat).Nodup ↔ n ≤ UInt32.size := by
  constructor
  · intro h
    simpa using length_le_of_nodup h
  · intro hn
    rw [List.Nodup, List.pairwise_map]
    refine List.nodup_range.imp_of_mem ?_
    intro a b ha hb hne heq
    rw [List.mem_range] at ha hb
    exact hne (ofNat_inj_of_lt (by omega) (by omega) heq)

/-- There are no more calls than indices. -/
theorem length_assembleCalls_le (fragments : List CallFragment) :
    (assembleCalls fragments).length ≤ UInt32.size := by
  have hnodup : (Drafts.addAll [] fragments).indices.Nodup :=
    Drafts.nodup_indices_addAll [] List.nodup_nil fragments
  simpa [assembleCalls, Drafts.indices] using length_le_of_nodup hnodup

/-- The response that a client puts together from the chunks of a stream with one choice. What no
chunk has a part in is left out. -/
def Response.ofChunks? (chunks : List Chunk) : Option Response :=
  chunks.head?.map fun first =>
    let choices := saidAt 0 chunks
    let thoughts := reasoningIn choices
    let images := imagesIn choices
    let calls := assembleCalls (fragmentsIn choices)
    { id := first.id
      object := "chat.completion"
      created := first.created
      model := first.model
      choices := [{
        index := 0
        message := {
          role := (choices.findSome? (·.delta.role)).getD ""
          content := some (contentIn choices)
          reasoning := if thoughts = "" then none else some thoughts
          images := if images.isEmpty then none else some images
          toolCalls := if calls.isEmpty then none else some calls }
        finishReason := (finishesIn choices).getLast? }]
      usage := (chunks.filterMap (·.usage)).getLast? }

end ChatDialect.Chat
