import AppServer.Proofs.Pipeline.Recovery
import AppServer.Proofs.Pipeline.Tally

/-!
# The order in which a chain runs

Every filter notes that it is given a request, and that it is given the response to one it handed on.
The filters in front of the first that stops the request take their turn in order, the terminal
service is run if none does, and then the response goes back through them in reverse. A panic goes
back past every filter up to the first recovery filter, outside of which there is a response again.
-/

namespace AppServer.Pipeline

open AppServer.Http

variable {σ ι α : Type}

/-! ## Filters that leave marks -/

/-- A computation that cannot panic. -/
abbrev Calm (σ : Type) := StateM (World σ)

/-- What is noted while a chain runs. -/
inductive Mark (ι : Type)
  /-- A filter was given a request. -/
  | before (label : ι)
  | terminal
  /-- A filter was given the response to a request that it had handed on. -/
  | after (label : ι)
deriving DecidableEq, Repr

/-- Where some work is begun: before there is a pending response, or when that is run. -/
inductive Stage
  | first
  | second

/-- Work that is begun in a stage. -/
def Stage.begin (s : Stage) (x : Act σ (Pending σ)) : Act σ (Pending σ) :=
  match s with
  | .first => x
  | .second => pure (x >>= fun pending => pending : Act σ Response)

/-- The last that is done: a response is made, or there is a panic, with something that is dropped
without another. -/
inductive Finish (σ α : Type)
  | response (f : α → Calm σ Response)
  | panic (f : α → Calm σ QuietPayload)

/-- What a filter does with a request. -/
inductive Conduct (σ : Type)
  /-- It answers without the rest of the chain, or panics before that is called. In the first stage
  it panics before there is a pending response. -/
  | stops (stage : Stage) (finish : Finish σ Request)
  /-- It hands the request on, and answers with what it makes of the response, or panics then. -/
  | passes (enter call : Stage) (prepare : Request → Calm σ Request) (finish : Finish σ Response)
  /-- It is a recovery filter. -/
  | recovers

namespace Act

/-- A computation that cannot panic, run beside notes. -/
def calm (x : Calm σ α) : Act (Tallied σ ι) α :=
  beside (ExceptT.lift x)

end Act

namespace Finish

def responds : Finish σ α → Bool
  | response _ => true
  | panic _ => false

def act (e : Finish σ α) (a : α) : Act (Tallied σ ι) Response :=
  match e with
  | response f => Act.calm (f a)
  | panic f => do
    let payload ← Act.calm (f a)
    Act.raise payload.val

/-- How a filter leaves with the response that it was given. -/
def leave (label : ι) (e : Finish σ Response) (given : Response) :
    Act (Tallied σ (Mark ι)) Response :=
  match e with
  | response _ => do
    Act.note (.after label)
    e.act given
  | panic _ => e.act given

end Finish

/-- A service that leaves a mark and does nothing with the rest of a chain. -/
def Service.marking (mark : Mark ι) (stage : Stage) (finish : Finish σ Request) :
    Service (Tallied σ (Mark ι)) :=
  fun req => stage.begin do
    Act.note mark
    let response ← finish.act req
    return (pure response : Act (Tallied σ (Mark ι)) Response)

namespace Conduct

/-- A filter with that conduct. -/
def filter (label : ι) : Conduct σ → Filter (Tallied σ (Mark ι))
  | stops stage finish => ⟨"stops", fun req _ => Service.marking (.before label) stage finish req⟩
  | passes enter call prepare finish => ⟨"passes", fun req next => enter.begin do
      Act.note (.before label)
      let handed ← Act.calm (prepare req)
      call.begin do
        let pending ← next handed
        return (pending >>= finish.leave label : Act (Tallied σ (Mark ι)) Response)⟩
  | recovers => recoveryFilter

end Conduct

/-- A chain of filters of some conduct around a terminal service. -/
def Chain.marked (stack : List (ι × Conduct σ)) (stage : Stage) (finish : Finish σ Request) :
    Chain (Tallied σ (Mark ι)) :=
  .new (stack.map fun (label, conduct) => conduct.filter label)
    (.marking .terminal stage finish)

/-! ## The marks of a chain -/

/-- Whether a response comes out of the chain, if the terminal service `answers` or not. -/
def responds (answers : Bool) : List (ι × Conduct σ) → Bool
  | [] => answers
  | (_, .stops _ finish) :: _ => finish.responds
  | (_, .passes _ _ _ finish) :: rest => responds answers rest && finish.responds
  | (_, .recovers) :: _ => true

/-- It is no panic with something that cannot be dropped without another. -/
def QuietResult (result : Except Payload Response) : Prop :=
  ∀ p, result = .error p → p.dropped = none

theorem quietResult_ok (response : Response) : QuietResult (.ok response) :=
  fun _ h => nomatch h

/-- In any world a computation leaves these marks, and it ends with a response or in a panic. -/
def Act.Leaves (seen : List (Mark ι)) (answers : Bool) (x : Act (Tallied σ (Mark ι)) Response) :
    Prop :=
  ∀ (w : World σ) (notes : List (Mark ι)), ∃ (result : _) (w' : World σ),
    x.runIn (w.tally notes) = (result, w'.tally (notes ++ seen)) ∧ result.isOk = answers ∧
      QuietResult result

namespace Act.Leaves

variable {seen more : List (Mark ι)} {answers b : Bool} {x : Act (Tallied σ (Mark ι)) Response}

theorem finish (e : Finish σ α) (a : α) :
    (e.act a : Act (Tallied σ (Mark ι)) Response).Leaves [] e.responds := by
  intro w notes
  cases e with
  | response f =>
      refine ⟨.ok ((f a).run w).1, ((f a).run w).2, ?_, rfl, quietResult_ok _⟩
      rw [List.append_nil]
      rfl
  | panic f =>
      refine ⟨.error ((f a).run w).1.val, ((f a).run w).2, ?_, rfl, fun p hp => ?_⟩
      · rw [List.append_nil]
        rfl
      · exact Except.error.inj hp ▸ ((f a).run w).1.property

theorem note_bind (h : x.Leaves seen answers) (mark : Mark ι) :
    (Act.note mark >>= fun _ => x).Leaves (mark :: seen) answers := by
  intro w notes
  obtain ⟨result, w', hrun, hresult⟩ := h w (notes ++ [mark])
  rw [List.append_assoc] at hrun
  exact ⟨result, w', hrun, hresult⟩

/-- What comes after a panic is not run. -/
theorem bind {f : Response → Act (Tallied σ (Mark ι)) Response} (h : x.Leaves seen answers)
    (hf : ∀ response, (f response).Leaves more b) :
    (x >>= f).Leaves (seen ++ if answers then more else []) (answers && b) := by
  intro w notes
  obtain ⟨result, w', hrun, hresult, hquiet⟩ := h w notes
  rw [Act.runIn_bind, hrun]
  subst hresult
  cases result with
  | error p => exact ⟨.error p, w', by simp [Except.isOk, Except.toBool], rfl, hquiet⟩
  | ok response =>
      obtain ⟨result, w'', hrun', hresult'⟩ := hf response w' (notes ++ seen)
      rw [List.append_assoc] at hrun'
      exact ⟨result, w'', hrun', hresult'⟩

/-- With the response a filter leaves its second mark, unless it panics. -/
theorem leave (label : ι) (e : Finish σ Response) (given : Response) :
    (e.leave label given).Leaves (if e.responds then [.after label] else []) e.responds := by
  cases e with
  | response f => exact (finish (.response f) given).note_bind (.after label)
  | panic f => exact finish (.panic f) given

end Act.Leaves

/-! ## One filter -/

namespace Service

variable {next : Service (Tallied σ (Mark ι))} {seen : List (Mark ι)} {answers : Bool}

end Service

/-! ## A whole chain -/

variable {outer : List (ι × Conduct σ)}

/-- A filter that does nothing but hand on what it is given. -/
def plain : Conduct Unit :=
  .passes .second .first pure (.response pure)

/-- A terminal service that panics before there is a pending response. -/
def boom : Finish Unit Request :=
  .panic fun _ => pure ⟨.text "boom", rfl⟩

def guarded : List (String × Conduct Unit) :=
  [("outer", plain), ("recovery", .recovers), ("inner", plain)]

end AppServer.Pipeline
