import PauseCleanup.Proofs.Pool.Alone
import PauseCleanup.Proofs.Pool.Beside
/-!
# Runs without their idle moves

A shorter machine may do without the moves that leave the memory as it is and lead to a place that
it does not tell apart. With all other moves it comes to the same end.
-/
namespace PauseCleanup

variable {ι Q : Type} {A : Q → Type} {Mem State State' Result : Type}

/-- The same move, with states told in another way. -/
def Move.map (f : State → State') : Move A Mem State Result → Move A Mem State' Result
  | .access mem s notices => .access mem (f s) notices
  | .ask q resume rescue => .ask q (fun a => f (resume a)) (rescue.map fun k cause => f (k cause))
  | .finish r => .finish r
  | .fail cause => .fail cause
  | .abort reason => .abort reason

namespace Pool

def map (f : State → State') (p : Pool ι A Mem State Result) : Pool ι A Mem State' Result where
  mem := p.mem
  calls i := (p.calls i).map f id
  asked := p.asked
  aborted := p.aborted

theorem calls_map (f : State → State') {p : Pool ι A Mem State Result} {i : ι} {s : State}
    (h : p.calls i = .running s) : (p.map f).calls i = .running (f s) :=
  congrArg (Progress.map f id) h

/-- `short` makes the moves of `move` that are not `idle`, and does not tell the places before and
after an idle one apart. -/
structure Shortens (f : State → State') (idle : Mem → State → Bool)
    (move : ι → Mem → State → Move A Mem State Result)
    (short : ι → Mem → State' → Move A Mem State' Result) : Prop where
  still {i : ι} {m : Mem} {s : State} :
    idle m s = true → ∃ s', move i m s = .access m s' ∧ f s' = f s
  along {i : ι} {m : Mem} {s : State} : idle m s = false → short i m (f s) = (move i m s).map f

def idles (idle : Mem → State → Bool) (p : Pool ι A Mem State Result) (t : Turn ι A) : Bool :=
  match p.calls t.caller with
  | .running s => idle p.mem s
  | _ => false

variable [DecidableEq ι]

/-- The turns of a run that make no idle move. -/
def abridged (move : ι → Mem → State → Move A Mem State Result) (idle : Mem → State → Bool)
    (p : Pool ι A Mem State Result) : List (Turn ι A) → List (Turn ι A)
  | [] => []
  | t :: rest =>
    if p.idles idle t then (p.turn move t).abridged move idle rest
    else t :: (p.turn move t).abridged move idle rest

theorem map_put (f : State → State') (p : Pool ι A Mem State Result) (i : ι)
    (c : Progress State Result) : (p.put i c).map f = (p.map f).put i (c.map f id) := by
  simp only [map, put]
  congr 1
  exact Function.comp_update (fun c : Progress State Result => c.map f id) p.calls i c

theorem map_resumed (f : State → State') {q : Q} (resume : A q → State)
    (rescue : Option (Panic → State)) (a : Except Panic (A q)) :
    (resumed resume rescue a : Progress State Result).map f id =
      resumed (fun a => f (resume a)) (rescue.map fun k cause => f (k cause)) a := by
  cases a with
  | ok a => rfl
  | error cause => cases rescue <;> rfl

theorem map_apply (f : State → State') (p : Pool ι A Mem State Result) (t : Turn ι A)
    (mv : Move A Mem State Result) : (p.apply t mv).map f = (p.map f).apply t (mv.map f) := by
  cases mv with
  | access m s notices =>
    have hput := map_put f p t.caller (.running s)
    exact congrArg (fun p' : Pool ι A Mem State' Result => { p' with mem := m }) hput
  | ask q resume rescue =>
    have hput := map_put f p t.caller (resumed resume rescue (t.answer q))
    rw [map_resumed] at hput
    exact congrArg (fun p' : Pool ι A Mem State' Result =>
      { p' with asked := ⟨t.caller, q, t.answer q⟩ :: p.asked }) hput
  | finish r => exact map_put f p t.caller (.returned r)
  | fail cause => exact map_put f p t.caller (.panicked cause)
  | abort reason => rfl

variable {f : State → State'} {idle : Mem → State → Bool}
  {move : ι → Mem → State → Move A Mem State Result}
  {short : ι → Mem → State' → Move A Mem State' Result}

theorem Shortens.turn_of_idle (h : Shortens f idle move short) {p : Pool ι A Mem State Result}
    {t : Turn ι A} (ht : p.idles idle t = true) : (p.turn move t).map f = p.map f := by
  unfold idles at ht
  split at ht
  · next s hs =>
    by_cases ha : p.aborted = none
    · obtain ⟨s', hmove, hf⟩ := h.still (i := t.caller) ht
      have hsame : (p.map f).calls t.caller = .running (f s') := hf ▸ calls_map f hs
      rw [turn_of_running move p ha hs, hmove, map_apply]
      simp only [Move.map, apply, put, ← hsame, Function.update_eq_self]
      rfl
    · rw [turn_of_aborted move ha]
  · cases ht

theorem Shortens.turn_of_busy (h : Shortens f idle move short) {p : Pool ι A Mem State Result}
    {t : Turn ι A} (ht : p.idles idle t = false) :
    (p.turn move t).map f = (p.map f).turn short t := by
  by_cases ha : p.aborted = none
  · cases hc : p.calls t.caller with
    | running s =>
      have hbusy : idle p.mem s = false := by simpa [idles, hc] using ht
      rw [turn_of_running move p ha hc, turn_of_running short (p.map f) ha (calls_map f hc),
        map_apply]
      exact congrArg ((p.map f).apply t) (h.along hbusy).symm
    | _ =>
      have hover : (p.calls t.caller).isOver = true := by
        rw [hc]
        rfl
      have hshort : ((p.map f).calls t.caller).isOver = true :=
        (Progress.isOver_map f id _).trans hover
      rw [turn_of_over move p hover, turn_of_over short (p.map f) hshort]
  · rw [turn_of_aborted move ha, turn_of_aborted short (p := p.map f) ha]

/-- A run of the shorter machine at the turns that make no idle move ends where the whole run
ends. -/
theorem Shortens.run (h : Shortens f idle move short) (p : Pool ι A Mem State Result)
    (turns : List (Turn ι A)) :
    (p.map f).run short (p.abridged move idle turns) = (p.run move turns).map f := by
  induction turns generalizing p with
  | nil => rfl
  | cons t turns ih =>
    cases ht : p.idles idle t with
    | true => simp only [abridged, ht, if_true, run_cons, ← ih, h.turn_of_idle ht]
    | false =>
      simp only [abridged, ht, Bool.false_eq_true, if_false, run_cons, ← ih, h.turn_of_busy ht]

end Pool

end PauseCleanup
