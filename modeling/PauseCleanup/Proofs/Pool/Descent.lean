import PauseCleanup.Proofs.Pool.Outline
import Mathlib.Algebra.Order.BigOperators.Group.Finset
import Mathlib.Data.Prod.Lex
/-!
# Every move comes nearer to the end

A move either uses up some of a stock in the memory, or leaves what the memory shows and lowers the
rank of its call. So only finitely many moves can be made.
-/
namespace PauseCleanup

variable {ι Q V V' : Type} {A : Q → Type} {Sub SubState SubResult Mem State Result : Type}

namespace Move

/-- The move does not end the process, and whatever the host answers, as long as `may` allows it,
`P` holds of the memory and of the place of the call after it. -/
def Proceeds (may : Reply A → Prop) (P : Mem → Progress State Result → Prop) (mem : Mem) :
    Move A Mem State Result → Prop
  | .access m s _ => P m (.running s)
  | .ask q resume rescue => ∀ a, may ⟨q, a⟩ → P mem (Pool.resumed resume rescue a)
  | .finish r => P mem (.returned r)
  | .fail cause => P mem (.panicked cause)
  | .abort _ => False

variable {may : Reply A → Prop} {P : Mem → Progress State Result → Prop} {mem : Mem}

theorem Proceeds.ensures {mv : Move A Mem State Result} (h : mv.Proceeds may P mem) :
    mv.Ensures may (fun m c _ => P m c) mem := by
  cases mv with
  | abort reason => trivial
  | _ => exact h

theorem Proceeds.ne_abort {mv : Move A Mem State Result} (h : mv.Proceeds may P mem)
    (reason : Abort) :
    mv ≠ .abort reason := by
  rintro rfl
  exact h

end Move

/-- What is used up in a memory, and how far a call is from its end. -/
structure Descent (V Mem State Result : Type) where
  view : Mem → V
  stock : V → ℕ
  rank : V → Progress State Result → ℕ

namespace Descent

/-- From `s` the call has come down to `c`. -/
def Down (d : Descent V Mem State Result) (m : Mem) (s : State) (m' : Mem)
    (c : Progress State Result) : Prop :=
  d.stock (d.view m') < d.stock (d.view m) ∨
    d.view m' = d.view m ∧ d.rank (d.view m) c < d.rank (d.view m) (.running s)

variable {d : Descent V Mem State Result} {inside : Descent V' Sub SubState SubResult}
  {may : Reply A → Prop}

theorem Down.of_rank {m m' : Mem} {s : State} {c : Progress State Result}
    (hview : d.view m' = d.view m) (hrank : d.rank (d.view m) c < d.rank (d.view m) (.running s)) :
    d.Down m s m' c :=
  .inr ⟨hview, hrank⟩

/-- A machine that comes down does so inside another one that ranks its places higher by the same
amount, as long as there is still less to do where the outer one takes over. -/
theorem lift {inner : Move A Sub SubState SubResult} {sub : Sub} {s : SubState}
    (h : inner.Proceeds may (inside.Down sub s) sub) {mem : Mem} {put : Sub → Mem}
    (hput : put sub = mem) {wrap : SubState → State}
    {finished : SubResult → Move A Mem State Result} {k : ℕ}
    (hstock : ∀ sub', inside.stock (inside.view sub') < inside.stock (inside.view sub) →
      d.stock (d.view (put sub')) < d.stock (d.view mem))
    (hview : ∀ sub', inside.view sub' = inside.view sub → d.view (put sub') = d.view mem)
    (hrank : ∀ s, d.rank (d.view mem) (.running (wrap s)) =
      k + inside.rank (inside.view sub) (.running s))
    (hfinished : ∀ r,
      inside.rank (inside.view sub) (.returned r) < inside.rank (inside.view sub) (.running s) →
      (finished r).Proceeds may (d.Down mem (wrap s)) mem)
    (hpanicked : ∀ cause, d.rank (d.view mem) (.panicked cause) = 0) :
    (inner.lift mem put wrap finished none).Proceeds may (d.Down mem (wrap s)) mem := by
  subst hput
  have hwrap : ∀ sub' s', inside.Down sub s sub' (.running s') →
      d.Down (put sub) (wrap s) (put sub') (.running (wrap s')) := by
    intro sub' s' hdown
    rcases hdown with hlt | ⟨hsame, hlt⟩
    · exact .inl (hstock sub' hlt)
    · refine .of_rank (hview sub' hsame) ?_
      rw [hrank, hrank]
      exact Nat.add_lt_add_left hlt k
  -- The inner machine fails with its memory as it was, so it has used up nothing.
  have hfail : ∀ cause, inside.Down sub s sub (.panicked cause) →
      d.Down (put sub) (wrap s) (put sub) (.panicked cause) := by
    intro cause hdown
    rcases hdown with hlt | ⟨_, hlt⟩
    · exact absurd hlt (Nat.lt_irrefl _)
    · refine .of_rank rfl ?_
      rw [hpanicked, hrank]
      omega
  cases inner with
  | access m s' n => exact hwrap m s' h
  | ask q resume own =>
    intro a ha
    have hdown := h a ha
    cases a with
    | ok a => exact hwrap sub _ hdown
    | error cause =>
      cases own with
      | none => exact hfail cause hdown
      | some after => exact hwrap sub _ hdown
  | finish r =>
    rcases h with hlt | ⟨_, hlt⟩
    · exact absurd hlt (Nat.lt_irrefl _)
    · exact hfinished r hlt
  | fail cause => exact hfail cause h
  | abort reason => exact h

theorem lift_apart {inside : Descent Unit Sub SubState SubResult}
    {inner : Move A Sub SubState SubResult} {sub : Sub} {s : SubState}
    (h : inner.Proceeds may (inside.Down sub s) sub) {mem : Mem} {put : Sub → Mem}
    (hput : put sub = mem) {wrap : SubState → State}
    {finished : SubResult → Move A Mem State Result} {k : ℕ}
    (hview : ∀ sub', d.view (put sub') = d.view mem)
    (hrank : ∀ s, d.rank (d.view mem) (.running (wrap s)) = k + inside.rank () (.running s))
    (hfinished : ∀ r, 0 < inside.rank () (.running s) →
      (finished r).Proceeds may (d.Down mem (wrap s)) mem)
    (hpanicked : ∀ cause, d.rank (d.view mem) (.panicked cause) = 0) :
    (inner.lift mem put wrap finished none).Proceeds may (d.Down mem (wrap s)) mem :=
  lift h hput (fun _ hlt => absurd hlt (Nat.lt_irrefl _)) (fun sub' _ => hview sub') hrank
    (fun r hlt => hfinished r (Nat.zero_lt_of_lt hlt)) hpanicked

section Pool

variable [DecidableEq ι] [Fintype ι] {move : ι → Mem → State → Move A Mem State Result}
  {o : Outline may move} {p : Pool ι A Mem State Result} {t : Turn ι A}

def total (d : Descent V Mem State Result) (p : Pool ι A Mem State Result) : ℕ :=
  ∑ i, d.rank (d.view p.mem) (p.calls i)

/-- How far a pool is from its end, with so much to do beside it. -/
def height (d : Descent V Mem State Result) (p : Pool ι A Mem State Result) (beside : ℕ) : ℕ ×ₗ ℕ :=
  toLex (d.stock (d.view p.mem), d.total p + beside)

theorem total_after_lt {m : Mem} (hview : d.view m = d.view p.mem) {i : ι} {s : State}
    (hs : p.calls i = .running s) {c : Progress State Result}
    (hrank : d.rank (d.view p.mem) c < d.rank (d.view p.mem) (.running s)) (l : List (Reply A)) :
    d.total (p.after i m c l) < d.total p := by
  have hmover :
      d.rank (d.view p.mem) ((p.after i m c l).calls i) < d.rank (d.view p.mem) (p.calls i) := by
    rw [hs]
    simpa [Pool.after] using hrank
  unfold total
  rw [show d.view (p.after i m c l).mem = d.view p.mem from hview]
  refine Finset.sum_lt_sum (fun j _ => ?_) ⟨i, Finset.mem_univ i, hmover⟩
  by_cases hj : j = i
  · rw [hj]
    exact Nat.le_of_lt hmover
  · simp [Pool.after, hj]

/-- Every move that the outline allows comes down. -/
def Suits (d : Descent V Mem State Result) (o : Outline may move) : Prop :=
  ∀ i m s, o.mem m → o.call i m (.running s) → (move i m s).Proceeds may (d.Down m s) m

theorem Suits.turn_lt (hd : d.Suits o) (hp : o.Holds p) (ht : t.Within may) (ha : p.aborted = none)
    {s : State} (hs : p.calls t.caller = .running s) (beside : ℕ) :
    (p.turn move t).aborted = none ∧ d.height (p.turn move t) beside < d.height p beside := by
  have hmove := hd t.caller p.mem s hp.mem (hs ▸ hp.call t.caller)
  have hdown : ∀ s', p.calls t.caller = .running s' → (move t.caller p.mem s').Ensures may
      (fun m c _ => s' = s → d.Down p.mem s m c) p.mem := by
    intro s' hs'
    obtain rfl : s = s' := Progress.running.inj (hs.symm.trans hs')
    exact hmove.ensures.mono fun _ _ _ h _ => h
  rcases p.turn_cases ht hdown with
    ⟨_, hmade⟩ | ⟨s', m, c, l, hs', hdown, he, _⟩ | ⟨s', reason, hs', habort, _⟩
  · simp [Pool.made, ha, hs] at hmade
  · obtain rfl : s = s' := Progress.running.inj (hs.symm.trans hs')
    rw [he]
    refine ⟨ha, Prod.Lex.lt_iff.2 ?_⟩
    rcases hdown rfl with hlt | ⟨hsame, hlt⟩
    · exact .inl hlt
    · have hless := total_after_lt hsame hs hlt l
      exact .inr ⟨congrArg d.stock hsame, Nat.add_lt_add_right hless beside⟩
  · obtain rfl : s = s' := Progress.running.inj (hs.symm.trans hs')
    exact absurd habort (hmove.ne_abort reason)

end Pool

end Descent

end PauseCleanup
