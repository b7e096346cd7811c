import PauseCleanup.Proofs.Pool.Alone
/-!
# Callers that only fail

A caller whose first move is to panic leaves nothing behind: but for it, the pool is as if it had
never been there.
-/
namespace PauseCleanup.Pool

variable {ι Q : Type} {A : Q → Type} {Mem State Result : Type} {P : ι → Prop}

/-- The pool `p` is as the pool `q` of the callers in `P`, and the others have panicked at most. -/
structure Covers (first : ι → State) (cause : ι → Panic) (p : Pool ι A Mem State Result)
    (q : Pool {i // P i} A Mem State Result) : Prop where
  mem : p.mem = q.mem
  log : p.log = q.log
  aborted : p.aborted = q.aborted
  calls : ∀ i : {i // P i}, p.calls i = q.calls i
  others : ∀ i, ¬P i → p.calls i = .running (first i) ∨ p.calls i = .panicked (cause i)

variable {first : ι → State} {cause : ι → Panic} {p : Pool ι A Mem State Result}
  {q : Pool {i // P i} A Mem State Result}

theorem covers_start (mem : Mem) :
    Covers first cause (start mem first : Pool ι A Mem State Result)
      (start mem fun i : {i // P i} => first i) where
  mem := rfl
  log := rfl
  aborted := rfl
  calls _ := rfl
  others _ _ := .inl rfl

theorem Covers.times [DecidableEq Q] (h : Covers first cause p q) (a : Q) :
    p.times a = q.times a := by
  rw [times_eq, times_eq, h.log]

variable [DecidableEq ι] {move : ι → Mem → State → Move A Mem State Result}

theorem Covers.after (h : Covers first cause p q) (i : {i // P i}) {m m' : Mem} (hm : m = m')
    (c : Progress State Result) (l : List (Reply A)) :
    Covers first cause (p.after i m c l) (q.after i m' c l) := by
  constructor
  case mem => exact hm
  case log =>
    rw [log_after, log_after, h.log]
  case aborted => exact h.aborted
  case calls =>
    intro j
    by_cases hj : j = i
    · subst hj
      simp [Pool.after]
    · have hj' : (j : ι) ≠ i := fun he => hj (Subtype.ext he)
      simp [Pool.after, hj, hj', h.calls j]
  case others =>
    intro j hj
    have hj' : j ≠ i := fun he => hj (he ▸ i.2)
    simpa [Pool.after, hj'] using h.others j hj

theorem Covers.turn (move : ι → Mem → State → Move A Mem State Result) (h : Covers first cause p q)
    (i : {i // P i}) (answer : (a : Q) → Except Panic (A a)) :
    Covers first cause (p.turn move ⟨i, answer⟩)
      (q.turn (fun i : {i // P i} => move i) ⟨i, answer⟩) := by
  by_cases ha : q.aborted = none
  · cases hc : q.calls i with
    | running s =>
      have hp :=
        turn_of_running move p (t := ⟨i, answer⟩) (h.aborted.trans ha) ((h.calls i).trans hc)
      have hq := turn_of_running (fun i : {i // P i} => move i) q (t := ⟨i, answer⟩) ha hc
      rw [hp, hq, h.mem]
      cases move i q.mem s with
      | access m s' n => exact h.after i rfl _ []
      | ask a resume rescue => exact h.after i h.mem _ [⟨a, answer a⟩]
      | finish r => exact h.after i h.mem _ []
      | fail why => exact h.after i h.mem _ []
      | abort reason => exact ⟨h.mem, h.log, rfl, h.calls, h.others⟩
    | _ =>
      have hover : (q.calls i).isOver = true := by rw [hc]; rfl
      rw [turn_of_over move p (t := ⟨i, answer⟩) (by rw [h.calls i]; exact hover),
        turn_of_over (fun i : {i // P i} => move i) q (t := ⟨i, answer⟩) hover]
      exact h
  · have hp : p.turn move ⟨i, answer⟩ = p := turn_of_aborted move (h.aborted ▸ ha) _
    have hq : q.turn (fun i : {i // P i} => move i) ⟨i, answer⟩ = q := turn_of_aborted _ ha _
    rwa [hp, hq]

theorem Covers.fail (h : Covers first cause p q) {i : ι} (hi : ¬P i)
    (hfail : ∀ m, move i m (first i) = .fail (cause i)) (answer : (a : Q) → Except Panic (A a)) :
    Covers first cause (p.turn move ⟨i, answer⟩) q := by
  by_cases ha : p.aborted = none
  · rcases h.others i hi with hc | hc
    · rw [turn_of_running move p (t := ⟨i, answer⟩) ha hc, hfail]
      constructor
      case mem => exact h.mem
      case log => exact h.log
      case aborted => exact h.aborted
      case calls =>
        intro j
        have hj : (j : ι) ≠ i := fun he => hi (he ▸ j.2)
        simpa [apply, put, hj] using h.calls j
      case others =>
        intro j hj
        by_cases he : j = i
        · right
          simp [apply, put, he]
        · simpa [apply, put, he] using h.others j hj
    · rwa [turn_of_over move p (t := ⟨i, answer⟩) (by rw [hc]; rfl)]
  · rwa [turn_of_aborted move ha]

/-- The callers in `P` are all that makes a difference. -/
theorem Covers.run (move : ι → Mem → State → Move A Mem State Result) (h : Covers first cause p q)
    {ts : List (Turn ι A)}
    (hfail : ∀ t ∈ ts, ¬P t.caller →
      ∀ m, move t.caller m (first t.caller) = .fail (cause t.caller)) :
    ∃ us : List (Turn {i // P i} A), (∀ u ∈ us, ∃ t ∈ ts, u.answer = t.answer) ∧
      Covers first cause (p.run move ts) (q.run (fun i : {i // P i} => move i) us) := by
  induction ts generalizing p q with
  | nil => exact ⟨[], by simp, h⟩
  | cons t ts ih =>
    have hrest := fun u hu => hfail u (List.mem_cons_of_mem t hu)
    by_cases ht : P t.caller
    · obtain ⟨us, hus, hcovers⟩ := ih (h.turn move ⟨t.caller, ht⟩ t.answer) hrest
      refine ⟨⟨⟨t.caller, ht⟩, t.answer⟩ :: us, fun u hu => ?_, hcovers⟩
      rcases List.mem_cons.1 hu with rfl | hu
      · exact ⟨t, List.mem_cons_self, rfl⟩
      · obtain ⟨v, hv, he⟩ := hus u hu
        exact ⟨v, List.mem_cons_of_mem t hv, he⟩
    · obtain ⟨us, hus, hcovers⟩ := ih (h.fail ht (hfail t List.mem_cons_self ht) t.answer) hrest
      refine ⟨us, fun u hu => ?_, hcovers⟩
      obtain ⟨v, hv, he⟩ := hus u hu
      exact ⟨v, List.mem_cons_of_mem t hv, he⟩

end PauseCleanup.Pool
