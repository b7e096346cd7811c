import PauseCleanup.Proofs.Pool.Heard
import PauseCleanup.Proofs.Pool.Alone
/-!
# What a call does in its own turns

A call moves in its own turns only. A `Pace` tells where it is after so many of them, so the turns
that a call needs can be counted, whoever else is at work.
-/
namespace PauseCleanup

variable {ι Q : Type} {A : Q → Type} {Mem State Result : Type} [DecidableEq ι]
  {may mine : Reply A → Prop} {move : ι → Mem → State → Move A Mem State Result}

namespace Pool

def turnsOf (i : ι) (turns : List (Turn ι A)) : Nat := turns.countP fun t => t.caller = i

theorem turnsOf_cons_self (t : Turn ι A) (turns : List (Turn ι A)) :
    turnsOf t.caller (t :: turns) = turnsOf t.caller turns + 1 := by
  simp [turnsOf]

theorem turnsOf_cons_of_ne {i : ι} {t : Turn ι A} (h : t.caller ≠ i) (turns : List (Turn ι A)) :
    turnsOf i (t :: turns) = turnsOf i turns := by
  simp [turnsOf, h]

end Pool

/-- Where the call of `i` is, by the number of turns that it has had; over a host that answers it
as `mine` allows. -/
structure Pace (o : Outline may move) (mine : Reply A → Prop) (i : ι) where
  place : Nat → Mem → Progress State Result → Prop
  quiet : Pool.Made ι Mem State → Prop := fun _ => True
  beside {n : Nat} {e : Pool.Made ι Mem State} {c : Progress State Result} :
    quiet e → o.later e.before e.after → place n e.before c → place n e.after c
  step {n : Nat} {m : Mem} {s : State} : o.mem m → o.call i m (.running s) →
    place n m (.running s) → (move i m s).Ensures mine (fun m' c _ => place (n + 1) m' c) m
  rests {n : Nat} {m : Mem} {c : Progress State Result} : c.isOver = true → place n m c →
    place (n + 1) m c

namespace Pace

variable {o : Outline may move} {i : ι} {d : Pace o mine i} {p : Pool ι A Mem State Result}
  {n : Nat} {t : Turn ι A}

theorem own_turn (hlive : ∀ i m s reason, move i m s ≠ .abort reason) (hp : o.Holds p)
    (ha : p.aborted = none) (h : d.place n p.mem (p.calls i)) (ht : t.Within mine)
    (hi : t.caller = i) : d.place (n + 1) (p.turn move t).mem ((p.turn move t).calls i) := by
  subst hi
  have hs : ∀ s, p.calls t.caller = .running s → (move t.caller p.mem s).Ensures mine
      (fun m' c _ => d.place (n + 1) m' c) p.mem := by
    intro s hc
    have hcall := hp.call t.caller
    rw [hc] at hcall h
    exact d.step hp.mem hcall h
  rcases p.turn_cases ht hs with
    ⟨he, hmade⟩ | ⟨s, m, c, l, _, hplace, he, _⟩ | ⟨s, reason, _, habort, _⟩
  · rw [he]
    exact d.rests (Pool.isOver_of_made_eq_none ha hmade) h
  · rw [he]
    simpa [Pool.after] using hplace
  · exact absurd habort (hlive _ _ _ reason)

theorem other_turn (hlive : ∀ i m s reason, move i m s ≠ .abort reason) (hp : o.Holds p)
    (h : d.place n p.mem (p.calls i)) (ht : t.Within may) (hi : t.caller ≠ i)
    (hquiet : ∀ e, p.made move t = some e → d.quiet e) :
    d.place n (p.turn move t).mem ((p.turn move t).calls i) := by
  rw [Pool.calls_turn_of_ne move p (Ne.symm hi)]
  have hs : ∀ s, p.calls t.caller = .running s → (move t.caller p.mem s).Ensures may
      (fun m' _ _ => o.later p.mem m') p.mem := by
    intro s hc
    have hcall := hp.call t.caller
    rw [hc] at hcall
    exact (o.step hp.mem hcall).mono fun _ _ _ h => h.2.1
  rcases p.turn_cases ht hs with
    ⟨he, _⟩ | ⟨s, m, c, l, _, hlater, he, hmade⟩ | ⟨s, reason, _, habort, _⟩
  · rwa [he]
  · rw [he]
    exact d.beside (hquiet _ hmade) hlater h
  · exact absurd habort (hlive _ _ _ reason)

/-- However the turns of a call are mixed with others, it is where their number says. -/
theorem run (hlive : ∀ i m s reason, move i m s ≠ .abort reason) (hp : o.Holds p)
    (ha : p.aborted = none) (h : d.place n p.mem (p.calls i)) {turns : List (Turn ι A)}
    (hturns : ∀ t ∈ turns, t.Within may) (hmine : ∀ t ∈ turns, t.caller = i → t.Within mine)
    (hquiet : ∀ e ∈ p.history move turns, e.caller ≠ i → d.quiet e) :
    d.place (n + Pool.turnsOf i turns) (p.run move turns).mem ((p.run move turns).calls i) := by
  -- By induction on the turns: one of the call's own takes it on, any other leaves it in its place.
  induction turns generalizing p n with
  | nil => exact h
  | cons t turns ih =>
    have ht := hturns t (by simp)
    have hmade : ∀ e, p.made move t = some e → e.caller = t.caller := by
      intro e he
      unfold Pool.made at he
      split at he
      · rw [← Option.some.inj he]
      · cases he
    have hhead : ∀ e, p.made move t = some e → t.caller ≠ i → d.quiet e := by
      intro e he hne
      apply hquiet e
      · simp [Pool.history, he]
      · rwa [hmade e he]
    have hafter := hp.turn ht
    have hgoes := Pool.aborted_run hlive p ha [t]
    have hlater : ∀ u ∈ turns, u.Within may := fun u hu => hturns u (by simp [hu])
    have hminelater : ∀ u ∈ turns, u.caller = i → u.Within mine := by
      intro u hu
      exact hmine u (by simp [hu])
    have hquietlater : ∀ e ∈ (p.turn move t).history move turns, e.caller ≠ i → d.quiet e := by
      intro e he
      exact hquiet e (by simp [Pool.history, he])
    by_cases hi : t.caller = i
    · have hnow := own_turn hlive hp ha h (hmine t (by simp) hi) hi
      have hrest := ih hafter hgoes hnow hlater hminelater hquietlater
      subst hi
      rw [Pool.turnsOf_cons_self, Nat.add_comm _ 1, ← Nat.add_assoc]
      exact hrest
    · have hnow := other_turn hlive hp h ht hi fun e he => hhead e he hi
      rw [Pool.turnsOf_cons_of_ne hi]
      exact ih hafter hgoes hnow hlater hminelater hquietlater

end Pace

namespace Pool

variable {p : Pool ι A Mem State Result} {i : ι}

/-- If every move of a call from `inside` brings it to its goal or leaves it inside with a lower
rank, a call with more turns than its rank is at the goal after some of them. -/
theorem reaches_of_rank (hlive : ∀ i m s reason, move i m s ≠ .abort reason) (rank : State → Nat)
    {inside : State → Prop} {goal : Progress State Result → Prop}
    (hmove : ∀ m s, inside s → (move i m s).Ensures (fun _ => True)
      (fun _ c _ => goal c ∨ ∃ s', c = .running s' ∧ inside s' ∧ rank s' < rank s) m)
    (ha : p.aborted = none) {s : State} (hs : p.calls i = .running s) (hin : inside s)
    {turns : List (Turn ι A)} (hturns : rank s < turnsOf i turns) :
    ∃ first, first <+: turns ∧ goal ((p.run move first).calls i) := by
  induction turns generalizing p s with
  | nil => exact absurd hturns (Nat.not_lt_zero _)
  | cons t turns ih =>
    have hgoes : (p.turn move t).aborted = none := aborted_turn hlive ha t
    by_cases hi : t.caller = i
    · subst hi
      have hown : ∀ s', p.calls t.caller = .running s' → (move t.caller p.mem s').Ensures
          (fun _ => True) (fun _ c _ => goal c ∨
            ∃ s'', c = .running s'' ∧ inside s'' ∧ rank s'' < rank s) p.mem := by
        intro s' hs'
        obtain rfl : s = s' := Progress.running.inj (hs.symm.trans hs')
        exact hmove p.mem s hin
      rw [turnsOf_cons_self] at hturns
      rcases p.turn_cases (Turn.within_true [t] t List.mem_cons_self) hown with
        ⟨_, hmade⟩ | ⟨_, m, c, l, _, hnext, he, _⟩ | ⟨_, reason, _, habort, _⟩
      · simp [made, ha, hs] at hmade
      -- The own turn has brought the call to its goal, or lowered its rank for those that remain.
      · have hcall : (p.turn move t).calls t.caller = c := by simp [he, after]
        rcases hnext with hgoal | ⟨s', rfl, hin', hlt⟩
        · exact ⟨[t], ⟨turns, rfl⟩, by rwa [run_cons, run_nil, hcall]⟩
        · obtain ⟨first, hfirst, hgoal⟩ := ih hgoes hcall hin' (by omega)
          exact ⟨t :: first, List.cons_prefix_cons.2 ⟨rfl, hfirst⟩, hgoal⟩
      · exact absurd habort (hlive _ _ _ reason)
    · have hcall : (p.turn move t).calls i = .running s := by
        rw [calls_turn_of_ne move p (Ne.symm hi), hs]
      rw [turnsOf_cons_of_ne hi] at hturns
      obtain ⟨first, hfirst, hgoal⟩ := ih hgoes hcall hin hturns
      exact ⟨t :: first, List.cons_prefix_cons.2 ⟨rfl, hfirst⟩, hgoal⟩

theorem calls_run_of_over (h : (p.calls i).isOver = true) (turns : List (Turn ι A)) :
    (p.run move turns).calls i = p.calls i := by
  refine p.run_induction move (P := fun q => q.calls i = p.calls i) rfl fun q hq t _ => ?_
  by_cases hi : t.caller = i
  · subst hi
    rwa [turn_of_over move q (hq ▸ h)]
  · rwa [calls_turn_of_ne move q (Ne.symm hi)]

/-- With more turns than its rank, a call whose every move lowers its rank comes to its end. -/
theorem over_of_rank (hlive : ∀ i m s reason, move i m s ≠ .abort reason) (rank : State → Nat)
    (hrank : ∀ i m s, (move i m s).Ensures (fun _ => True) (Below rank (rank s)) m) (mem : Mem)
    {first : ι → State} {turns : List (Turn ι A)} {i : ι} (h : rank (first i) < turnsOf i turns) :
    (((start mem first).run move turns).calls i).isOver = true := by
  have hmove : ∀ m s, True → (move i m s).Ensures (fun _ => True) (fun _ c _ =>
      c.isOver = true ∨ ∃ s', c = .running s' ∧ True ∧ rank s' < rank s) m := by
    intro m s _
    refine (hrank i m s).mono fun _ c _ hbelow => ?_
    cases c with
    | running s' => exact .inr ⟨s', rfl, trivial, hbelow s' rfl⟩
    | returned r => exact .inl rfl
    | panicked cause => exact .inl rfl
  obtain ⟨before, ⟨later, rfl⟩, hover⟩ :=
    reaches_of_rank hlive rank hmove (p := start mem first) rfl rfl trivial h
  rwa [run_append, calls_run_of_over hover]

end Pool

end PauseCleanup
