import PauseCleanup.Proofs.Pool.Alone
import PauseCleanup.Proofs.Pool.Descent
/-!
# Fair schedules

A schedule is fair if every call gets a turn again and again. If every move comes down, all calls of
a pool come to their ends in every fair schedule.
-/
namespace PauseCleanup

theorem exists_ended_of_lower {σ α : Type} [Preorder α] [WellFoundedLT α] (state : ℕ → σ)
    (height : σ → α) (ended : σ → Prop)
    (hlower : ∀ n, ¬ended (state n) → ∃ m, height (state m) < height (state n)) :
    ∃ n, ended (state n) := by
  suffices h : ∀ a n, height (state n) = a → ∃ n, ended (state n) from h _ 0 rfl
  intro a
  induction a using WellFoundedLT.induction with
  | ind a ih =>
    rintro n rfl
    by_cases hend : ended (state n)
    · exact ⟨n, hend⟩
    · obtain ⟨m, hlt⟩ := hlower n hend
      exact ih _ hlt m rfl

/-- Where every change goes down and somebody can always make one, the end is reached, if everybody
gets a turn again and again. -/
theorem exists_ended_of_fair {σ κ α : Type} [Preorder α] [WellFoundedLT α] (state : ℕ → σ)
    (mover : ℕ → κ) (height : σ → α) (ended : σ → Prop)
    (hdown : ∀ n, state (n + 1) = state n ∨ height (state (n + 1)) < height (state n))
    (hmover : ∀ n, ¬ended (state n) → ∃ k, (∀ m, state m = state n → mover m = k →
      height (state (m + 1)) < height (state n)) ∧ ∃ m, n ≤ m ∧ mover m = k) :
    ∃ n, ended (state n) := by
  refine exists_ended_of_lower state height ended fun n hend => ?_
  obtain ⟨k, hlower, m, hm, hk⟩ := hmover n hend
  -- Until the turn of `k` comes, the state is the same or has come down already.
  have hwait : ∀ j, state (n + j) = state n ∨ ∃ i, height (state i) < height (state n) := by
    intro j
    induction j with
    | zero => exact .inl rfl
    | succ j hj =>
      rcases hj with hsame | hlow
      · rcases hdown (n + j) with hstep | hstep
        · exact .inl (hstep.trans hsame)
        · exact .inr ⟨n + j + 1, hsame ▸ hstep⟩
      · exact .inr hlow
  rcases hwait (m - n) with hsame | hlow
  · rw [Nat.add_sub_cancel' hm] at hsame
    exact ⟨m + 1, hlower m hsame hk⟩
  · exact hlow

namespace Pool

variable {ι Q V : Type} {A : Q → Type} {Mem State Result : Type}

def upTo (schedule : ℕ → Turn ι A) (n : ℕ) : List (Turn ι A) := (List.range n).map schedule

/-- Every call gets a turn again and again. -/
def Fair (schedule : ℕ → Turn ι A) : Prop := ∀ i n, ∃ m, n ≤ m ∧ (schedule m).caller = i

variable [DecidableEq ι] {move : ι → Mem → State → Move A Mem State Result} {may : Reply A → Prop}
  {o : Outline may move} {p : Pool ι A Mem State Result} {schedule : ℕ → Turn ι A}

theorem run_upTo_succ (move : ι → Mem → State → Move A Mem State Result)
    (p : Pool ι A Mem State Result) (schedule : ℕ → Turn ι A) (n : ℕ) :
    p.run move (upTo schedule (n + 1)) = (p.run move (upTo schedule n)).turn move (schedule n) := by
  rw [upTo, List.range_succ, List.map_append, run_append]
  rfl

/-- Whatever the schedule, if it is fair all calls come to their ends. -/
theorem ends_of_fair [Fintype ι] {d : Descent V Mem State Result} (hd : d.Suits o) (hp : o.Holds p)
    (ha : p.aborted = none) (hturns : ∀ n, (schedule n).Within may) (hfair : Fair schedule) :
    ∃ n, (p.run move (upTo schedule n)).AllOver := by
  let state : ℕ → Pool ι A Mem State Result := fun n => p.run move (upTo schedule n)
  have hholds : ∀ n, o.Holds (state n) := fun n => hp.run fun t ht => by
    obtain ⟨m, -, rfl⟩ := List.mem_map.1 ht
    exact hturns m
  have hdown : ∀ n s, (state n).aborted = none → (state n).calls (schedule n).caller = .running s →
      (state (n + 1)).aborted = none ∧ d.height (state (n + 1)) 0 < d.height (state n) 0 := by
    intro n s ha hs
    have hlt := hd.turn_lt (hholds n) (hturns n) ha hs 0
    rwa [← run_upTo_succ] at hlt
  have hstill : ∀ n, ((state n).calls (schedule n).caller).isOver = true →
      state (n + 1) = state n := fun n h => by
    show p.run move _ = _
    rw [run_upTo_succ]
    exact turn_of_over move _ h
  have hlive : ∀ n, (state n).aborted = none := by
    intro n
    induction n with
    | zero => exact ha
    | succ n ih =>
      cases hc : (state n).calls (schedule n).caller with
      | running s => exact (hdown n s ih hc).1
      | _ => rw [hstill n (by rw [hc]; rfl), ih]
  refine exists_ended_of_fair state (fun n => (schedule n).caller) (fun q => d.height q 0) AllOver
    (fun n => ?_) fun n hover => ?_
  · cases hc : (state n).calls (schedule n).caller with
    | running s => exact .inr (hdown n s (hlive n) hc).2
    | _ => exact .inl (hstill n (by rw [hc]; rfl))
  · obtain ⟨i, hi⟩ := not_forall.1 hover
    refine ⟨i, fun m hsame hmover => ?_, hfair i n⟩
    cases hc : (state n).calls i with
    | running s =>
      rw [← hsame] at hc ⊢
      exact (hdown m s (hlive m) (hmover.symm ▸ hc)).2
    | _ => rw [hc] at hi; exact absurd rfl hi

theorem alone_ends {move : Mem → State → Move A Mem State Result} {host : (q : Q) → A q}
    {o : Outline (returning host) fun _ : Unit => move} {d : Descent V Mem State Result}
    (hd : d.Suits o) {m : Mem} {s : State} (hp : o.Holds (start m fun _ => s)) :
    ∃ n, ∀ turns : List (Turn Unit A), n ≤ turns.length → (∀ t ∈ turns, t.Returns host) →
      (alone move m s turns).AllOver := by
  have hturn : ∀ t : Turn Unit A, t.Returns host → t = ⟨(), fun q => .ok (host q)⟩ := by
    rintro ⟨_, answer⟩ h
    exact congrArg _ (funext h)
  let always : ℕ → Turn Unit A := fun _ => ⟨(), fun q => .ok (host q)⟩
  have hfair : Fair always := fun _ n => ⟨n, Nat.le_refl n, rfl⟩
  have hwithin : ∀ n, (always n).Within (returning host) := fun _ _ => rfl
  obtain ⟨n, hn⟩ := ends_of_fair hd hp rfl hwithin hfair
  refine ⟨n, fun turns hlen hturns => ?_⟩
  have hsplit : turns = upTo always n ++ turns.drop n := by
    have htake : turns.take n = upTo always n := by
      refine List.ext_getElem (by simp [upTo, hlen]) fun k hk _ => ?_
      simp [upTo, always, hturn _ (hturns _ (List.getElem_mem _))]
    rw [← htake, List.take_append_drop]
  rw [alone, hsplit, run_append, Ended.run (.inr hn)]
  exact hn

end Pool

end PauseCleanup
