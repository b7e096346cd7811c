import PauseCleanup.Proofs.Pool.Ensures
/-!
# A call that is alone

What opens or closes something is one call with the memory to itself. What it asked, the memory and
its place are told together (`Told`).
-/
namespace PauseCleanup.Pool

variable {ι Q : Type} {A : Q → Type} {Mem State Result : Type} [DecidableEq ι]

section Below

variable {Sub SubState SubResult : Type}

/-- Where the call goes on, it has a lower rank than `n`. -/
def Below (rank : State → Nat) (n : Nat) (_ : Mem) (c : Progress State Result)
    (_ : List (Reply A)) : Prop :=
  ∀ s, c = .running s → rank s < n

theorem Below.lift {inner : Move A Sub SubState SubResult} {sub : Sub} {mem : Mem}
    {may : Reply A → Prop} {inside : SubState → Nat} {rank : State → Nat} {k n : Nat}
    (h : inner.Ensures may (Below inside k) sub) {put : Sub → Mem} (hput : put sub = mem)
    {wrap : SubState → State} {finished : SubResult → Move A Mem State Result}
    {rescue : Option (Panic → State)} (hwrap : ∀ s, inside s < k → rank (wrap s) < n)
    (hfinished : ∀ r, (finished r).Ensures may (Below rank n) mem)
    (hrescue : ∀ after, rescue = some after → ∀ cause, rank (after cause) < n) :
    (inner.lift mem put wrap finished rescue).Ensures may (Below rank n) mem := by
  refine h.lift hput ?_ (fun r _ => hfinished r) ?_
  · intro m s l hs s' hs'
    rw [← Progress.running.inj hs']
    exact hwrap s (hs s rfl)
  · intro cause l _ s' hs'
    cases rescue with
    | none => cases hs'
    | some after =>
      rw [← Progress.running.inj hs']
      exact hrescue after rfl cause

end Below

/-- No call will move any more. -/
def Ended (p : Pool ι A Mem State Result) : Prop := p.aborted ≠ none ∨ p.AllOver

theorem turn_of_aborted (move : ι → Mem → State → Move A Mem State Result)
    {p : Pool ι A Mem State Result} (h : p.aborted ≠ none) (t : Turn ι A) : p.turn move t = p := by
  obtain ⟨reason, hr⟩ := Option.ne_none_iff_exists'.1 h
  simp [turn, hr]

theorem Ended.turn {move : ι → Mem → State → Move A Mem State Result}
    {p : Pool ι A Mem State Result} (h : p.Ended) (t : Turn ι A) : p.turn move t = p := by
  rcases h with h | h
  · exact turn_of_aborted move h t
  · exact turn_of_over move p (h t.caller)

theorem Ended.run {move : ι → Mem → State → Move A Mem State Result} {p : Pool ι A Mem State Result}
    (h : p.Ended) (turns : List (Turn ι A)) : p.run move turns = p := by
  induction turns with
  | nil => rfl
  | cons t turns ih => rw [run_cons, h.turn, ih]

section Unit

variable {move : Mem → State → Move A Mem State Result} {may : Reply A → Prop}
  {H : List (Reply A) → Mem → Progress State Result → Prop} {p : Pool Unit A Mem State Result}

def alone (move : Mem → State → Move A Mem State Result) (m : Mem) (s : State)
    (turns : List (Turn Unit A)) : Pool Unit A Mem State Result :=
  (start m fun _ => s).run (fun _ => move) turns

/-- What is told of the log, the memory and the call; and if the process was aborted, it was by the
call's next move. -/
structure Told (move : Mem → State → Move A Mem State Result)
    (H : List (Reply A) → Mem → Progress State Result → Prop) (p : Pool Unit A Mem State Result) :
    Prop where
  story : H p.log p.mem (p.calls ())
  aborted : ∀ reason, p.aborted = some reason →
    ∃ s, p.calls () = .running s ∧ move p.mem s = .abort reason

theorem Told.turn (hstep : ∀ log m s, H log m (.running s) →
      (move m s).Ensures may (fun m' c l => H (log ++ l.reverse) m' c) m)
    (h : Told move H p) {t : Turn Unit A} (ht : t.Within may) :
    Told move H (p.turn (fun _ => move) t) := by
  by_cases ha : p.aborted = none
  · have hs : ∀ s, p.calls t.caller = .running s →
        (move p.mem s).Ensures may (fun m' c l => H (p.log ++ l.reverse) m' c) p.mem :=
      fun s hc => hstep _ _ _ (hc ▸ h.story)
    rcases @turn_cases _ _ _ _ _ _ _ (fun _ => move) _ _ p t ht hs with
      ⟨he, _⟩ | ⟨s, m, c, l, _, hH, he, _⟩ | ⟨s, reason, hc, hm, he⟩
    · rwa [he]
    · rw [he]
      refine ⟨?_, fun reason hr => ?_⟩
      · rw [log_after]
        exact hH
      · have hnone : (p.after t.caller m c l).aborted = none := ha
        rw [hnone] at hr
        cases hr
    · rw [he]
      refine ⟨h.story, fun reason' hr => ⟨s, hc, ?_⟩⟩
      rw [← Option.some.inj hr]
      exact hm
  · rwa [turn_of_aborted _ ha]

theorem told_alone (hstep : ∀ log m s, H log m (.running s) →
      (move m s).Ensures may (fun m' c l => H (log ++ l.reverse) m' c) m)
    {m : Mem} {s : State} (h0 : H [] m (.running s)) {turns : List (Turn Unit A)}
    (hturns : ∀ t ∈ turns, t.Within may) : Told move H (alone move m s turns) := by
  have hstart : Told move H (start m fun _ => s) := ⟨h0, fun reason hr => by cases hr⟩
  exact run_induction _ _ hstart fun q hq t ht => hq.turn hstep (hturns t ht)

inductive Told.Ending (move : Mem → State → Move A Mem State Result)
    (H : List (Reply A) → Mem → Progress State Result → Prop) (p : Pool Unit A Mem State Result) :
    Prop
  | aborted {s : State} {reason : Abort} : p.aborted = some reason → p.calls () = .running s →
    move p.mem s = .abort reason → H p.log p.mem (.running s) → Ending move H p
  | returned {r : Result} : p.aborted = none → p.calls () = .returned r →
    H p.log p.mem (.returned r) → Ending move H p
  | panicked {cause : Panic} : p.aborted = none → p.calls () = .panicked cause →
    H p.log p.mem (.panicked cause) → Ending move H p

theorem Told.ending (h : Told move H p) (hended : p.Ended) : Told.Ending move H p := by
  have hstory := h.story
  cases ha : p.aborted with
  | some reason =>
    obtain ⟨s, hc, hmove⟩ := h.aborted reason ha
    rw [hc] at hstory
    exact .aborted ha hc hmove hstory
  | none =>
    have hover : p.AllOver := hended.resolve_left fun hne => hne ha
    cases hc : p.calls () with
    | running s => exact absurd hc (hover.ne_running () s)
    | returned r =>
      rw [hc] at hstory
      exact .returned ha hc hstory
    | panicked cause =>
      rw [hc] at hstory
      exact .panicked ha hc hstory

/-- With more turns than the rank, a call whose every move lowers its rank comes to its end. -/
theorem ended_of_rank (rank : State → Nat)
    (hrank : ∀ m s, (move m s).Ensures (fun _ => True) (Below rank (rank s)) m)
    (turns : List (Turn Unit A)) (hp : ∀ s, p.calls () = .running s → rank s < turns.length) :
    (p.run (fun _ => move) turns).Ended := by
  induction turns generalizing p with
  | nil =>
    -- No turn is left, and no rank is below 0: the call is not running.
    right
    intro i
    cases hc : p.calls () with
    | running s => exact absurd (hp s hc) (Nat.not_lt_zero _)
    | returned r => rw [run_nil, hc]; rfl
    | panicked cause => rw [run_nil, hc]; rfl
  | cons t turns ih =>
    have hs : ∀ s, p.calls t.caller = .running s →
        (move p.mem s).Ensures (fun _ => True) (Below rank (rank s)) p.mem := fun s _ => hrank _ s
    have ht : t.Within fun _ => True := fun _ => trivial
    rw [run_cons]
    rcases @turn_cases _ _ _ _ _ _ _ (fun _ => move) _ _ p t ht hs with
      ⟨he, hmade⟩ | ⟨s, m, c, l, hc, hlt, he, _⟩ | ⟨s, reason, _, _, he⟩
    · have hended : p.Ended := by
        by_cases ha : p.aborted = none
        · exact .inr fun _ => isOver_of_made_eq_none ha hmade
        · exact .inl ha
      rwa [he, hended.run]
    · rw [he]
      apply ih
      intro s' hs'
      have hcalls : (p.after t.caller m c l).calls () = c := by simp [after]
      have hrs := hp s hc
      have := hlt s' (hcalls ▸ hs')
      rw [List.length_cons] at hrs
      omega
    · have hended : (p.turn (fun _ => move) t).Ended :=
        .inl (by rw [he]; exact Option.some_ne_none reason)
      rwa [hended.run]

theorem alone_ended (rank : State → Nat)
    (hrank : ∀ m s, (move m s).Ensures (fun _ => True) (Below rank (rank s)) m) (m : Mem)
    {s : State} {turns : List (Turn Unit A)} (h : rank s < turns.length) :
    (alone move m s turns).Ended := by
  refine ended_of_rank rank hrank turns fun s' hs' => ?_
  rw [← Progress.running.inj hs']
  exact h

end Unit

end PauseCleanup.Pool
