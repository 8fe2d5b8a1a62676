import ChatDialect.Chat.Step

/-! Streams that are fed with inputs one after the other, and what their chunks say. -/
namespace ChatDialect.Chat

variable {σ α : Type}

/-- The chunks that a step passes on. -/
def Step.passed : Step → List Chunk
  | .chunks cs => cs
  | .done => []

@[simp] theorem Step.passed_skip : Step.skip.passed = [] := rfl

@[simp] theorem Step.passed_done : Step.done.passed = [] := rfl

@[simp] theorem Step.passed_one (c : Chunk) : (Step.one c).passed = [c] := rfl

/-- The state after inputs. -/
def stateAfter (step : σ → α → σ × Step) (s : σ) : List α → σ :=
  List.foldl (fun s a => (step s a).1) s

/-- The chunks passed on at inputs. A stream that says it is done can still be fed. -/
def chunksFrom (step : σ → α → σ × Step) : σ → List α → List Chunk
  | _, [] => []
  | s, a :: rest => (step s a).2.passed ++ chunksFrom step (step s a).1 rest

section Feeding
variable (step : σ → α → σ × Step) (s : σ)

@[simp] theorem stateAfter_nil : stateAfter step s [] = s := rfl

@[simp] theorem stateAfter_cons (a : α) (rest : List α) :
    stateAfter step s (a :: rest) = stateAfter step (step s a).1 rest := rfl

@[simp] theorem chunksFrom_nil : chunksFrom step s [] = [] := rfl

@[simp] theorem chunksFrom_cons (a : α) (rest : List α) :
    chunksFrom step s (a :: rest) = (step s a).2.passed ++ chunksFrom step (step s a).1 rest := rfl

theorem chunksFrom_append (xs ys : List α) :
    chunksFrom step s (xs ++ ys) =
      chunksFrom step s xs ++ chunksFrom step (stateAfter step s xs) ys := by
  induction xs generalizing s with
  | nil => rfl
  | cons x xs ih => simp [ih]

/-- What holds of the chunks of every step holds of the chunks of a run. -/
theorem forall_mem_chunksFrom {p : Chunk → Prop} (h : ∀ s a, ∀ c ∈ (step s a).2.passed, p c)
    (inputs : List α) : ∀ c ∈ chunksFrom step s inputs, p c := by
  induction inputs generalizing s with
  | nil => simp
  | cons a rest ih =>
    intro c hc
    rw [chunksFrom_cons, List.mem_append] at hc
    exact hc.elim (h s a c) (ih _ c)

end Feeding

/-- What chunks say, in order. -/
def said (chunks : List Chunk) : List ChunkChoice := chunks.flatMap (·.choices)

@[simp] theorem said_nil : said [] = [] := rfl

@[simp] theorem said_append (xs ys : List Chunk) : said (xs ++ ys) = said xs ++ said ys :=
  List.flatMap_append

/-- A view that is put together from the views of the parts can be read off the inputs, if what each
step adds can. -/
theorem view_chunksFrom {β : Type} (step : σ → α → σ × Step) {view : List ChunkChoice → β}
    {join : β → β → β} (total : List α → β) (hnil : view [] = total [])
    (happend : ∀ xs ys, view (xs ++ ys) = join (view xs) (view ys))
    (hcons : ∀ s a rest, total (a :: rest) = join (view (said (step s a).2.passed)) (total rest))
    (s : σ) (inputs : List α) : view (said (chunksFrom step s inputs)) = total inputs := by
  induction inputs generalizing s with
  | nil => exact hnil
  | cons a rest ih => rw [chunksFrom_cons, said_append, happend, ih, hcons s]

/-- What chunks say in the choice of an index. -/
def saidAt (index : UInt32) (chunks : List Chunk) : List ChunkChoice :=
  (said chunks).filter (·.index = index)

def contentIn (choices : List ChunkChoice) : String :=
  String.join (choices.filterMap (·.delta.content))

def reasoningIn (choices : List ChunkChoice) : String :=
  String.join (choices.filterMap (·.delta.reasoning))

def fragmentsIn (choices : List ChunkChoice) : List CallFragment :=
  choices.flatMap (·.delta.toolCalls.getD [])

def imagesIn (choices : List ChunkChoice) : List Image :=
  choices.flatMap (·.delta.images.getD [])

def finishesIn (choices : List ChunkChoice) : List FinishReason :=
  choices.filterMap (·.finishReason)

/-- The arguments that the pieces of an index add up to. -/
def argumentsAt (index : UInt32) (fragments : List CallFragment) : String :=
  String.join ((fragments.filter (·.index = index)).filterMap fun f =>
    f.function.bind (·.arguments))

/-- Numbers that fit an index stay apart. -/
theorem ofNat_inj_of_lt {a b : Nat} (ha : a < UInt32.size) (hb : b < UInt32.size)
    (h : UInt32.ofNat a = UInt32.ofNat b) : a = b := by
  have ht := congrArg UInt32.toNat h
  rwa [UInt32.toNat_ofNat_of_lt' ha, UInt32.toNat_ofNat_of_lt' hb] at ht

/-- Who a stream is to a client. -/
structure Identity where
  id : String
  created : Int64
  model : String
  deriving DecidableEq, Repr

def Chunk.identity (c : Chunk) : Identity := ⟨c.id, c.created, c.model⟩

/-- A function call in one piece. -/
def FunctionCall.fragment (f : FunctionCall) : FunctionFragment := ⟨some f.name, some f.arguments⟩

@[simp] theorem listed?_getD {γ : Type} (xs : List γ) : (listed? xs).getD [] = xs := by
  cases xs <;> rfl

@[simp] theorem listed?_eq_none {γ : Type} {xs : List γ} : listed? xs = none ↔ xs = [] := by
  cases xs <;> simp [listed?]

theorem listed?_ne_nil {γ : Type} (xs : List γ) : listed? xs ≠ some [] := by
  cases xs <;> simp [listed?]

theorem listed?_map {γ δ : Type} (f : γ → δ) (xs : List γ) :
    (listed? xs).map (·.map f) = listed? (xs.map f) := by
  cases xs <;> rfl

@[simp] theorem nonEmpty?_eq_none {s : String} : Text.nonEmpty? s = none ↔ s = "" := by
  by_cases h : s = "" <;> simp [Text.nonEmpty?, h]

@[simp] theorem nonEmpty?_getD (s : String) : (Text.nonEmpty? s).getD "" = s := by
  by_cases h : s = "" <;> simp [Text.nonEmpty?, h]

theorem nonEmpty?_ne_empty (s : String) : Text.nonEmpty? s ≠ some "" := by
  by_cases h : s = "" <;> simp [Text.nonEmpty?, h]

section Append
variable (xs ys : List ChunkChoice)

@[simp] theorem contentIn_append : contentIn (xs ++ ys) = contentIn xs ++ contentIn ys := by
  simp [contentIn]

@[simp] theorem reasoningIn_append : reasoningIn (xs ++ ys) = reasoningIn xs ++ reasoningIn ys := by
  simp [reasoningIn]

@[simp] theorem fragmentsIn_append : fragmentsIn (xs ++ ys) = fragmentsIn xs ++ fragmentsIn ys :=
  List.flatMap_append

@[simp] theorem imagesIn_append : imagesIn (xs ++ ys) = imagesIn xs ++ imagesIn ys :=
  List.flatMap_append

@[simp] theorem finishesIn_append : finishesIn (xs ++ ys) = finishesIn xs ++ finishesIn ys :=
  List.filterMap_append

end Append

end ChatDialect.Chat
