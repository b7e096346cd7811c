import PauseCleanup.Proofs.Pool.Alone
import PauseCleanup.Proofs.Pool.Weights
import Mathlib.Data.List.Induction
/-!
# The course of a run

The course of a run lists its moves with their sources and targets. What a run gives off on its way
is told by its course, and what it gains by its log (`Weights.total_course`).
-/
namespace PauseCleanup

theorem sum_map_countP {α : Type} (P : α → Bool) (l : List α) :
    (l.map fun x => [x].countP P).sum = l.countP P := by
  induction l with
  | nil => rfl
  | cons x l ih =>
    rw [List.map_cons, List.sum_cons, ih, List.countP_cons (l := l), List.countP_singleton,
      Nat.add_comm]

variable {ι Q : Type} {A : Q → Type} {Mem State Result M : Type}

/-- One move: whose it was, from where and to where. -/
structure Leg (ι State Result : Type) where
  caller : ι
  source : State
  target : Progress State Result

namespace Pool

variable [DecidableEq ι] (move : ι → Mem → State → Move A Mem State Result)
  (p : Pool ι A Mem State Result)

/-- The move that a turn makes, if its call is still running and it does not end the process. -/
def leg (t : Turn ι A) : Option (Leg ι State Result) :=
  match (p.turn move t).aborted, p.calls t.caller with
  | none, .running s => some ⟨t.caller, s, (p.turn move t).calls t.caller⟩
  | _, _ => none

/-- All moves of an interleaving, in order. -/
def course (p : Pool ι A Mem State Result) : List (Turn ι A) → List (Leg ι State Result)
  | [] => []
  | t :: rest => (p.leg move t).toList ++ (p.turn move t).course rest

@[simp] theorem course_nil : p.course move [] = [] := rfl

@[simp] theorem course_cons (t : Turn ι A) (turns : List (Turn ι A)) :
    p.course move (t :: turns) = (p.leg move t).toList ++ (p.turn move t).course move turns := rfl

theorem course_append (turns more : List (Turn ι A)) :
    p.course move (turns ++ more) = p.course move turns ++ (p.run move turns).course move more := by
  induction turns generalizing p with
  | nil => rfl
  | cons t turns ih => simp [ih, List.append_assoc]

theorem leg_of_aborted (h : p.aborted ≠ none) (t : Turn ι A) : p.leg move t = none := by
  obtain ⟨reason, hr⟩ := Option.ne_none_iff_exists'.1 h
  simp [leg, turn, hr]

theorem leg_of_over {t : Turn ι A} (h : (p.calls t.caller).isOver = true) :
    p.leg move t = none := by
  unfold leg
  cases hc : p.calls t.caller with
  | running s => rw [hc] at h; cases h
  | returned r => split <;> simp_all
  | panicked cause => split <;> simp_all

variable {move p} {may : Reply A → Prop}

theorem leg_cases {P : State → Mem → Progress State Result → List (Reply A) → Prop}
    {t : Turn ι A} (ht : t.Within may)
    (h : ∀ s, p.calls t.caller = .running s → (move t.caller p.mem s).Ensures may (P s) p.mem) :
    (p.leg move t = none ∧ ((p.turn move t) = p ∨ ∃ reason,
      (p.turn move t) = { p with aborted := some reason })) ∨
      ∃ s m c l, p.calls t.caller = .running s ∧ P s m c l ∧
        p.turn move t = p.after t.caller m c l ∧ p.leg move t = some ⟨t.caller, s, c⟩ := by
  by_cases ha : p.aborted = none
  · rcases p.turn_cases ht h with ⟨he, hmade⟩ | ⟨s, m, c, l, hc, hP, he, -⟩ | ⟨s, reason, _, _, he⟩
    · have hover : (p.calls t.caller).isOver = true := isOver_of_made_eq_none ha hmade
      exact .inl ⟨leg_of_over move p hover, .inl he⟩
    · have hnone : (p.after t.caller m c l).aborted = none := ha
      have hcall : (p.after t.caller m c l).calls t.caller = c := by simp [after]
      exact .inr ⟨s, m, c, l, hc, hP, he, by simp [leg, he, hnone, hc, hcall]⟩
    · exact .inl ⟨by simp [leg, he], .inr ⟨reason, he⟩⟩
  · exact .inl ⟨leg_of_aborted move p ha t, .inl (turn_of_aborted move ha t)⟩

theorem mem_course {o : Outline may move} (h : o.Holds p) {turns : List (Turn ι A)}
    (hturns : ∀ t ∈ turns, t.Within may) {e : Leg ι State Result} (he : e ∈ p.course move turns) :
    ∃ m, o.mem m ∧ o.call e.caller m (.running e.source) := by
  induction turns generalizing p with
  | nil => exact absurd he List.not_mem_nil
  | cons t turns ih =>
    rw [course_cons, List.mem_append] at he
    rcases he with he | he
    · unfold leg at he
      split at he
      · next s _ hc =>
        rw [Option.toList_some, List.mem_singleton] at he
        subst he
        exact ⟨p.mem, h.mem, hc ▸ h.call t.caller⟩
      · exact absurd he List.not_mem_nil
    · exact ih (h.turn (hturns t (by simp))) (fun u hu => hturns u (by simp [hu])) he

end Pool

namespace Weights

variable [AddCommMonoid M] (w : Weights A Mem State Result M) [Fintype ι] [DecidableEq ι]
  {may : Reply A → Prop} {move : ι → Mem → State → Move A Mem State Result}

/-- What moves gain by the replies that they hear they keep, or give off: so does a whole run. -/
theorem total_course (o : Outline may move) (gain : Reply A → M)
    (emit : State → Progress State Result → M)
    (hstep : ∀ {i m s}, o.mem m → o.call i m (.running s) → (move i m s).Ensures may
      (fun m' c l => w.mem m' + w.call c + (l.map w.reply).sum + emit s c =
        w.mem m + w.call (.running s) + (l.map gain).sum) m)
    {p : Pool ι A Mem State Result} (h : o.Holds p) {turns : List (Turn ι A)}
    (hturns : ∀ t ∈ turns, t.Within may) :
    w.total (p.run move turns) + ((p.course move turns).map fun e => emit e.source e.target).sum +
      (p.log.map gain).sum = w.total p + ((p.run move turns).log.map gain).sum := by
  -- From the end: what the last move gains must not be taken away from both sides again.
  induction turns using List.reverseRecOn with
  | nil => simp
  | append_singleton turns t ih =>
    have hbefore := ih fun u hu => hturns u (by simp [hu])
    have hnow : t.Within may := hturns t (by simp)
    have hq := h.run fun u hu => hturns u (List.mem_append_left _ hu)
    rw [Pool.run_append, Pool.course_append, List.map_append, List.sum_append, Pool.run_cons,
      Pool.run_nil, Pool.course_cons, Pool.course_nil, List.append_nil]
    generalize p.run move turns = q at hbefore hq ⊢
    generalize p.course move turns = past at hbefore ⊢
    have hs : ∀ s, q.calls t.caller = .running s → (move t.caller q.mem s).Ensures may
        (fun m' c l => w.mem m' + w.call c + (l.map w.reply).sum + emit s c =
          w.mem q.mem + w.call (.running s) + (l.map gain).sum) q.mem := by
      intro s hc
      exact hstep hq.mem (hc ▸ hq.call t.caller)
    rcases Pool.leg_cases hnow hs with
      ⟨hleg, he | ⟨reason, he⟩⟩ | ⟨s, m, c, l, hc, hsum, he, hleg⟩
    · rw [hleg, he]
      simpa using hbefore
    · rw [hleg, he]
      simp only [Option.toList_none, List.map_nil, List.sum_nil, add_zero]
      exact hbefore
    · have hlog : ((q.after t.caller m c l).log.map gain).sum =
          (q.log.map gain).sum + (l.map gain).sum := by
        rw [Pool.log_after, List.map_append, List.sum_append, List.map_reverse, List.sum_reverse]
      rw [hleg, he, hlog, ← add_assoc (w.total p), ← hbefore, w.total_after,
        w.total_eq q t.caller, hc]
      simp only [Option.toList_some, List.map_cons, List.map_nil, List.sum_cons, List.sum_nil]
      generalize ∑ j ∈ Finset.univ.erase t.caller, w.call (q.calls j) + (q.log.map w.reply).sum = x
      generalize (past.map fun e => emit e.source e.target).sum = y
      calc x + (w.mem m + w.call c + (l.map w.reply).sum) + (y + (emit s c + 0)) +
            (p.log.map gain).sum
          = x + (w.mem m + w.call c + (l.map w.reply).sum + emit s c) + y +
            (p.log.map gain).sum := by abel
        _ = x + (w.mem q.mem + w.call (.running s)) + y + (p.log.map gain).sum +
            (l.map gain).sum := by rw [hsum]; abel

def nothing : Weights A Mem State Result M := ⟨fun _ => 0, fun _ => 0, fun _ => 0⟩

omit [DecidableEq ι] in
theorem total_nothing (p : Pool ι A Mem State Result) :
    (nothing : Weights A Mem State Result M).total p = 0 := by
  simp [total, nothing]

end Weights

/-- What each move gives off by what it hears, a run gives off by its log. -/
theorem Pool.sum_course [AddCommMonoid M] [Fintype ι] [DecidableEq ι]
    {move : ι → Mem → State → Move A Mem State Result} (gain : Reply A → M)
    (emit : State → Progress State Result → M)
    (hstep : ∀ i m s, (move i m s).Ensures (fun _ => True)
      (fun _ c l => emit s c = (l.map gain).sum) m)
    (m : Mem) (first : ι → State) (turns : List (Turn ι A)) :
    (((start m first).course move turns).map fun e => emit e.source e.target).sum =
      (((start m first).run move turns).log.map gain).sum := by
  have htotal := Weights.nothing.total_course (.blank _ move) gain emit
    (fun _ _ => (hstep _ _ _).mono fun _ _ _ h => by simp [Weights.nothing, h])
    (Outline.holds_blank (start m first)) (Turn.within_true turns)
  simpa [Weights.total_nothing] using htotal

end PauseCleanup
