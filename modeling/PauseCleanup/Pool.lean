import PauseCleanup.Move
import Mathlib.Logic.Function.Basic
/-!
# Pools: calls that run at once

A pool is one shared memory with a call of every caller on it. In each turn one call makes one move,
so a list of turns is an interleaving of atomic steps. A turn brings the host's answer at that
moment.
-/
namespace PauseCleanup

/-- Where a call stands. -/
inductive Progress (State Result : Type) where
  | running (state : State)
  | returned (result : Result)
  | panicked (cause : Panic)
  deriving DecidableEq

def Progress.isOver {State Result : Type} : Progress State Result → Bool
  | .running _ => false
  | _ => true

/-- Who moves next, and how the host would answer. -/
structure Turn (ι : Type) {Q : Type} (A : Q → Type) where
  caller : ι
  answer : (q : Q) → Except Panic (A q)

structure Asked (ι : Type) {Q : Type} (A : Q → Type) where
  caller : ι
  question : Q
  reply : Except Panic (A question)

namespace Turn

variable {ι Q : Type} {A : Q → Type}

/-- The host answers as it always does, or panics. -/
def Agrees (host : (q : Q) → A q) (t : Turn ι A) : Prop :=
  ∀ q, t.answer q = .ok (host q) ∨ ∃ cause, t.answer q = .error cause

/-- The host answers as it always does. -/
def Returns (host : (q : Q) → A q) (t : Turn ι A) : Prop := ∀ q, t.answer q = .ok (host q)

theorem Returns.agrees {host : (q : Q) → A q} {t : Turn ι A} (h : t.Returns host) : t.Agrees host :=
  fun q => .inl (h q)

end Turn

structure Pool (ι : Type) {Q : Type} (A : Q → Type) (Mem State Result : Type) where
  mem : Mem
  calls : ι → Progress State Result
  asked : List (Asked ι A) := []
  aborted : Option Abort := none

namespace Pool

variable {ι Q : Type} {A : Q → Type} {Mem State Result : Type}

def start (mem : Mem) (first : ι → State) : Pool ι A Mem State Result where
  mem := mem
  calls i := .running (first i)

/-- Where a call goes on after an answer. -/
def resumed {q : Q} (resume : A q → State) (rescue : Option (Panic → State)) :
    Except Panic (A q) → Progress State Result
  | .ok a => .running (resume a)
  | .error cause => rescue.elim (.panicked cause) fun k => .running (k cause)

variable [DecidableEq ι]

def put (p : Pool ι A Mem State Result) (i : ι) (c : Progress State Result) :
    Pool ι A Mem State Result :=
  { p with calls := Function.update p.calls i c }

def apply (p : Pool ι A Mem State Result) (t : Turn ι A) :
    Move A Mem State Result → Pool ι A Mem State Result
  | .access mem next _ => { p.put t.caller (.running next) with mem }
  | .ask q resume rescue =>
    { p.put t.caller (resumed resume rescue (t.answer q)) with
      asked := ⟨t.caller, q, t.answer q⟩ :: p.asked }
  | .finish r => p.put t.caller (.returned r)
  | .fail cause => p.put t.caller (.panicked cause)
  | .abort reason => { p with aborted := some reason }

/-- One turn. A call that is over stays as it is. -/
def turn (move : ι → Mem → State → Move A Mem State Result) (p : Pool ι A Mem State Result)
    (t : Turn ι A) :
    Pool ι A Mem State Result :=
  match p.aborted, p.calls t.caller with
  | none, .running s => p.apply t (move t.caller p.mem s)
  | _, _ => p

def run (move : ι → Mem → State → Move A Mem State Result) (p : Pool ι A Mem State Result)
    (turns : List (Turn ι A)) : Pool ι A Mem State Result :=
  turns.foldl (turn move) p

/-- One move that a run made: whose it was, from which state, and the memory around it. -/
structure Made (ι Mem State : Type) where
  caller : ι
  state : State
  before : Mem
  after : Mem

def made (move : ι → Mem → State → Move A Mem State Result) (p : Pool ι A Mem State Result)
    (t : Turn ι A) :
    Option (Made ι Mem State) :=
  match p.aborted, p.calls t.caller with
  | none, .running s => some ⟨t.caller, s, p.mem, (p.turn move t).mem⟩
  | _, _ => none

/-- All moves of an interleaving, in order. -/
def history (move : ι → Mem → State → Move A Mem State Result) (p : Pool ι A Mem State Result) :
    List (Turn ι A) → List (Made ι Mem State)
  | [] => []
  | t :: rest => (p.made move t).toList ++ (p.turn move t).history move rest

def AllOver (p : Pool ι A Mem State Result) : Prop := ∀ i, (p.calls i).isOver = true

section

variable (move : ι → Mem → State → Move A Mem State Result) (p : Pool ι A Mem State Result)

@[simp] theorem run_nil : p.run move [] = p := rfl

@[simp] theorem run_cons (t : Turn ι A) (turns : List (Turn ι A)) :
    p.run move (t :: turns) = (p.turn move t).run move turns := rfl

theorem run_append (turns more : List (Turn ι A)) :
    p.run move (turns ++ more) = (p.run move turns).run move more :=
  List.foldl_append

theorem history_append (turns more : List (Turn ι A)) :
    p.history move (turns ++ more) =
      p.history move turns ++ (p.run move turns).history move more := by
  induction turns generalizing p with
  | nil => rfl
  | cons t rest ih => simp [history, ih, List.append_assoc]

theorem turn_of_running {t : Turn ι A} {s : State} (ha : p.aborted = none)
    (hs : p.calls t.caller = .running s) : p.turn move t = p.apply t (move t.caller p.mem s) := by
  simp [turn, ha, hs]

theorem turn_of_over {t : Turn ι A} (h : (p.calls t.caller).isOver = true) : p.turn move t = p := by
  unfold turn
  cases ha : p.aborted <;> cases hc : p.calls t.caller <;> simp_all [Progress.isOver]

theorem run_induction {P : Pool ι A Mem State Result → Prop} {turns : List (Turn ι A)} (h0 : P p)
    (step : ∀ q, P q → ∀ t ∈ turns, P (q.turn move t)) : P (p.run move turns) := by
  induction turns generalizing p with
  | nil => exact h0
  | cons t rest ih =>
    exact ih (p.turn move t) (step p h0 t (by simp)) fun q hq u hu => step q hq u (by simp [hu])

end

end Pool

end PauseCleanup
