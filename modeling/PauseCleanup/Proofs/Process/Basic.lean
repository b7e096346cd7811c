import PauseCleanup.Pass.Closing
import PauseCleanup.Pass.Opening
import PauseCleanup.Proofs.Pass.Worker
import Mathlib.Data.Fintype.Basic
/-!
# Many passes in one process

Every pass is opened by one call, has any number of workers, and is closed by another call once none
of them is under way. A list of turns is an interleaving of whole lives.
-/
namespace PauseCleanup

open Host (Query Answer)

namespace Pool

instance {ι Q Mem State Result : Type} {A : Q → Type} [Fintype ι]
    (p : Pool ι A Mem State Result) : Decidable p.AllOver :=
  inferInstanceAs (Decidable (∀ i, (p.calls i).isOver = true))

end Pool

namespace Pass

/-- Whose turn it is in the life of a pass. -/
inductive Actor (ι : Type) where
  | opener
  | worker (i : ι)
  | closer

/-- What a pass is made for: how it is opened, the ids of its workers, and the thread that closes
it. -/
structure Commission (ι : Type) where
  request : Request
  ids : ι → UInt32
  thread : Thread

inductive Stage (ι : Type) where
  | opening (call : Pool Unit Answer Ledger Opening (Plan × Shared))
  | working (plan : Plan) (crew : Pool ι Answer Shared Worker Unit)
  | closing (plan : Plan) (crew : Pool ι Answer Shared Worker Unit)
    (call : Pool Unit Answer Estate Closing Unit)

namespace Stage

variable {ι : Type}

/-- What a turn makes of a pass and of the ledger. -/
structure Outcome (ι : Type) where
  stage : Stage ι
  ledger : Ledger
  aborted : Option Abort := none

def opened (c : Commission ι) (call : Pool Unit Answer Ledger Opening (Plan × Shared)) : Stage ι :=
  match call.calls () with
  | .returned (plan, shared) => .working plan (Pool.start shared fun i => .start (c.ids i))
  | _ => .opening call

variable [DecidableEq ι] [Fintype ι]

/-- One turn. An actor that cannot do anything yet, or any more, does nothing. -/
def turn (c : Commission ι) (l : Ledger) (a : Actor ι)
    (answer : (q : Query) → Except Panic (Answer q)) : Stage ι → Outcome ι
  | .opening call =>
    match a with
    | .opener =>
      let next := { call with mem := l }.turn (fun _ => Opening.move c.request) ⟨(), answer⟩
      ⟨opened c next, next.mem, next.aborted⟩
    | _ => { stage := .opening call, ledger := l }
  | .working plan crew =>
    match a with
    | .opener => { stage := .working plan crew, ledger := l }
    | .worker i =>
      let next := crew.turn (fun _ => Worker.move plan) ⟨i, answer⟩
      ⟨.working plan next, l, next.aborted⟩
    | .closer =>
      if crew.AllOver then
        { stage := .closing plan crew (Pool.start ⟨crew.mem, l⟩ fun _ => .start), ledger := l }
      else { stage := .working plan crew, ledger := l }
  | .closing plan crew call =>
    match a with
    | .closer =>
      let next := { call with mem.ledger := l }.turn
        (fun _ e s => s.move plan c.thread .calm e) ⟨(), answer⟩
      ⟨.closing plan crew next, next.mem.ledger, next.aborted⟩
    | _ => { stage := .closing plan crew call, ledger := l }

end Stage

/-- The passes of a process, each with workers of its own. -/
structure Process (κ : Type) (ι : κ → Type) where
  ledger : Ledger
  stages : (k : κ) → Stage (ι k)
  aborted : Option Abort := none

namespace Process

variable {κ : Type} {ι : κ → Type}

def start (l : Ledger) : Process κ ι where
  ledger := l
  stages _ := .opening (Pool.start l fun _ => .start)

variable [DecidableEq κ] [∀ k, DecidableEq (ι k)] [∀ k, Fintype (ι k)]

def turn (c : (k : κ) → Commission (ι k)) (p : Process κ ι)
    (t : Turn ((k : κ) × Actor (ι k)) Answer) : Process κ ι :=
  match p.aborted with
  | some _ => p
  | none =>
    let o := (p.stages t.caller.1).turn (c t.caller.1) p.ledger t.caller.2 t.answer
    ⟨o.ledger, Function.update p.stages t.caller.1 o.stage, o.aborted⟩

/-- An interleaving of the lives of all passes. -/
def run (c : (k : κ) → Commission (ι k)) (p : Process κ ι)
    (turns : List (Turn ((k : κ) × Actor (ι k)) Answer)) : Process κ ι :=
  turns.foldl (turn c) p

variable (c : (k : κ) → Commission (ι k)) (p : Process κ ι)
  (t : Turn ((k : κ) × Actor (ι k)) Answer)

@[simp] theorem run_nil : p.run c [] = p := rfl

@[simp] theorem run_cons (turns : List (Turn ((k : κ) × Actor (ι k)) Answer)) :
    p.run c (t :: turns) = (p.turn c t).run c turns := rfl

theorem run_append (turns more : List (Turn ((k : κ) × Actor (ι k)) Answer)) :
    p.run c (turns ++ more) = (p.run c turns).run c more :=
  List.foldl_append

theorem run_induction {P : Process κ ι → Prop}
    {turns : List (Turn ((k : κ) × Actor (ι k)) Answer)} (h0 : P p)
    (step : ∀ q, P q → ∀ t ∈ turns, P (q.turn c t)) : P (p.run c turns) := by
  induction turns generalizing p with
  | nil => exact h0
  | cons t rest ih =>
    exact ih (p.turn c t) (step p h0 t (by simp)) fun q hq u hu => step q hq u (by simp [hu])

def outcome : Stage.Outcome (ι t.caller.1) :=
  (p.stages t.caller.1).turn (c t.caller.1) p.ledger t.caller.2 t.answer

variable {p}

theorem turn_eq (h : p.aborted = none) : p.turn c t =
    ⟨(p.outcome c t).ledger, Function.update p.stages t.caller.1 (p.outcome c t).stage,
      (p.outcome c t).aborted⟩ := by
  rw [turn, h]
  rfl

theorem stages_turn_self (h : p.aborted = none) :
    (p.turn c t).stages t.caller.1 = (p.outcome c t).stage := by
  rw [turn_eq c t h]
  exact Function.update_self _ _ _

theorem stages_turn_of_ne {k : κ} (hk : k ≠ t.caller.1) : (p.turn c t).stages k = p.stages k := by
  unfold turn
  split
  · rfl
  · exact Function.update_of_ne hk _ _

end Process

end Pass

end PauseCleanup
