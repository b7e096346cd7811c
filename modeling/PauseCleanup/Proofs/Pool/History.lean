import PauseCleanup.Proofs.Pool.Heard
import PauseCleanup.Proofs.Pool.Weights
import Mathlib.Data.List.Induction
/-!
# What is told together with the history

What the moves made so far say about a pool is told together with the history, and each move keeps
it once it is added.
-/
namespace PauseCleanup

variable {ι Q : Type} {A : Q → Type} {Mem State Result : Type} [DecidableEq ι]
  {may : Reply A → Prop} {move : ι → Mem → State → Move A Mem State Result}

/-- What is told of a pool and of its history, each move keeps if it is told with that move, as long
as no call ends the process. -/
theorem Outline.Holds.history_induction {o : Outline may move} {p : Pool ι A Mem State Result}
    (hp : o.Holds p) (hlive : ∀ i m s reason, move i m s ≠ .abort reason)
    {after : ι → Mem → State → Mem → Progress State Result → List (Reply A) → Prop}
    (hmove : ∀ {i m s}, o.mem m → o.call i m (.running s) →
      (move i m s).Ensures may (after i m s) m)
    {P : Pool ι A Mem State Result → List (Pool.Made ι Mem State) → Prop} (h : P p [])
    (step : ∀ {q past i s m c l}, o.Holds q → P q past → q.calls i = .running s →
      after i q.mem s m c l → P (q.after i m c l) (past ++ [⟨i, s, q.mem, m⟩]))
    {turns : List (Turn ι A)} (hturns : ∀ t ∈ turns, t.Within may) :
    P (p.run move turns) (p.history move turns) := by
  induction turns using List.reverseRecOn with
  | nil => exact h
  | append_singleton before t ih =>
    have hbefore : ∀ u ∈ before, u.Within may := fun u hu => hturns u (by simp [hu])
    have hnow := ih hbefore
    have hq := hp.run hbefore
    rw [Pool.run_append, Pool.history_append]
    generalize p.run move before = q at hnow hq ⊢
    generalize p.history move before = past at hnow ⊢
    have hs : ∀ s, q.calls t.caller = .running s →
        (move t.caller q.mem s).Ensures may (after t.caller q.mem s) q.mem :=
      fun s hc => hmove hq.mem (hc ▸ hq.call t.caller)
    rcases q.turn_cases (hturns t (by simp)) hs with
      ⟨he, hmade⟩ | ⟨s, m, c, l, hc, hafter, he, hmade⟩ | ⟨s, reason, _, habort, _⟩
    · simpa [Pool.history, hmade, he] using hnow
    · simpa [Pool.history, hmade, he] using step hq hnow hc hafter
    · exact absurd habort (hlive t.caller q.mem s reason)

theorem Diary.Holds.history_induction {o : Outline may move} {d : Diary o}
    {p : Pool ι A Mem State Result} (hd : d.Holds p) (hp : o.Holds p)
    (hlive : ∀ i m s reason, move i m s ≠ .abort reason)
    {after : ι → Mem → State → List (Reply A) → Mem → Progress State Result → Prop}
    (hmove : ∀ {i m s h}, o.mem m → d.call i m (.running s) h →
      (move i m s).Ensures may (fun m' c _ => after i m s h m' c) m)
    {P : Pool ι A Mem State Result → List (Pool.Made ι Mem State) → Prop} (h : P p [])
    (step : ∀ {q past i s m c l}, d.Holds q → P q past → q.calls i = .running s →
      after i q.mem s (q.heard i) m c → P (q.after i m c l) (past ++ [⟨i, s, q.mem, m⟩]))
    {turns : List (Turn ι A)} (hturns : ∀ t ∈ turns, t.Within may) :
    P (p.run move turns) (p.history move turns) := by
  have hboth : ∀ {i m s}, o.mem m → o.call i m (.running s) → (move i m s).Ensures may
      (fun m' c l => (o.later m m' ∧ l.length ≤ 1) ∧ ∀ h : { h // d.call i m (.running s) h },
        d.call i m' c (h ++ l) ∧ after i m s h m' c) m := by
    intro i m s hm hc
    refine (((o.step hm hc).mono fun _ _ _ h => h.2.1).and (Move.Ensures.length_le_one _)).and ?_
    exact Move.Ensures.all fun h => (d.step hm hc h.2).and (hmove hm h.2)
  refine (hp.history_induction hlive hboth (P := fun q past => d.Holds q ∧ P q past) ⟨hd, h⟩ ?_
    hturns).2
  rintro q past i s m c l _ ⟨hq, hP⟩ hi ⟨⟨hlater, hlen⟩, hafter⟩
  obtain ⟨hcall, hnow⟩ := hafter ⟨q.heard i, hi ▸ hq i⟩
  exact ⟨hq.after hcall hlen hlater, step hq hP hi hnow⟩

theorem Pool.sum_countP_heard [Fintype ι] (p : Pool ι A Mem State Result) (f : Reply A → Bool) :
    ∑ i, (p.heard i).countP f = p.log.countP f := by
  simp only [heard, log, List.countP_map, List.countP_reverse]
  exact sum_countP_filter (·.caller) _ p.asked

/-- As long as no call panics, a run gains what its moves gain. -/
theorem Weights.total_history {M : Type} [AddCommMonoid M] [Fintype ι]
    (w : Weights A Mem State Result M) (gain : Pool.Made ι Mem State → M) {o : Outline may move}
    {p : Pool ι A Mem State Result} (hp : o.Holds p)
    (hlive : ∀ i m s reason, move i m s ≠ .abort reason)
    (hstep : ∀ {i m s}, o.mem m → o.call i m (.running s) → (move i m s).Ensures may
      (fun m' c l => (∀ cause, c ≠ .panicked cause) →
        w.mem m' + w.call c + (l.map w.reply).sum =
          w.mem m + w.call (.running s) + gain ⟨i, s, m, m'⟩) m)
    {turns : List (Turn ι A)} (hturns : ∀ t ∈ turns, t.Within may)
    (hcalm : ∀ i cause, (p.run move turns).calls i ≠ .panicked cause) :
    w.total (p.run move turns) = w.total p + ((p.history move turns).map gain).sum := by
  refine hp.history_induction hlive hstep (P := fun q past =>
    (∀ i cause, q.calls i ≠ .panicked cause) → w.total q = w.total p + (past.map gain).sum)
    (fun _ => by simp) ?_ hturns hcalm
  intro q past i s m c l _ hq hi hgain hcalm
  have hcall : (q.after i m c l).calls i = c := by simp [Pool.after]
  have hbefore : ∀ j cause, q.calls j ≠ .panicked cause := by
    intro j
    by_cases hj : j = i
    · simp [hj, hi]
    · simpa [Pool.after, hj] using hcalm j
  rw [w.total_after, hgain (hcall ▸ hcalm i), ← add_assoc, ← hi, ← w.total_eq, hq hbefore,
    List.map_append, List.sum_append, List.map_singleton, List.sum_singleton, add_assoc]

end PauseCleanup
