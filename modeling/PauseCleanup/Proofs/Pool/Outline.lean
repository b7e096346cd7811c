import PauseCleanup.Proofs.Pool.Ensures
/-!
# Outlines: what holds at every moment of a run

An outline says what is known of the memory and of each call where it stands. Its own moves keep
that (`step`), and it survives the moves of all others (`stable`); so it holds after every
interleaving.
-/
namespace PauseCleanup

variable {ι Q : Type} {A : Q → Type} {Mem State Result : Type}

structure Outline (may : Reply A → Prop) (move : ι → Mem → State → Move A Mem State Result) where
  mem : Mem → Prop
  call : ι → Mem → Progress State Result → Prop
  asks : Reply A → Prop := fun _ => True
  /-- What other calls may do to the memory in the meantime. -/
  later : Mem → Mem → Prop
  stable : ∀ {i m m' c}, later m m' → call i m c → call i m' c
  step : ∀ {i m s}, mem m → call i m (.running s) → (move i m s).Ensures may
    (fun m' c l => (mem m' ∧ call i m' c) ∧ later m m' ∧ ∀ r ∈ l, asks r) m

namespace Outline

variable {may : Reply A → Prop} {move : ι → Mem → State → Move A Mem State Result}

/-- The outline that tells nothing. -/
def blank (may : Reply A → Prop) (move : ι → Mem → State → Move A Mem State Result) :
    Outline may move where
  mem _ := True
  call _ _ _ := True
  later _ _ := True
  stable _ _ := trivial
  step _ _ := (Move.Ensures.of_may _).mono fun _ _ _ _ =>
    ⟨⟨trivial, trivial⟩, trivial, fun _ _ => trivial⟩

structure Holds (o : Outline may move) (p : Pool ι A Mem State Result) : Prop where
  mem : o.mem p.mem
  call : ∀ i, o.call i p.mem (p.calls i)
  asks : ∀ r ∈ p.log, o.asks r

theorem holds_blank (p : Pool ι A Mem State Result) : (blank may move).Holds p :=
  ⟨trivial, fun _ => trivial, fun _ _ => trivial⟩

theorem holds_start (o : Outline may move) {m : Mem} {first : ι → State} (hmem : o.mem m)
    (hcall : ∀ i, o.call i m (.running (first i))) : o.Holds (Pool.start m first) :=
  ⟨hmem, hcall, by simp⟩

variable [DecidableEq ι] {o : Outline may move} {p : Pool ι A Mem State Result}

theorem Holds.after (h : o.Holds p) {i : ι} {m : Mem} {c : Progress State Result}
    {l : List (Reply A)} (hm : o.mem m) (hc : o.call i m c) (hl : o.later p.mem m)
    (ha : ∀ r ∈ l, o.asks r) : o.Holds (p.after i m c l) := by
  refine ⟨hm, ?_, ?_⟩
  · intro j
    by_cases hj : j = i
    · subst hj
      simpa [Pool.after] using hc
    · simpa [Pool.after, hj] using o.stable hl (h.call j)
  · intro r hr
    rw [Pool.log_after, List.mem_append, List.mem_reverse] at hr
    exact hr.elim (h.asks r) (ha r)

theorem Holds.turn (h : o.Holds p) {t : Turn ι A} (ht : t.Within may) :
    o.Holds (p.turn move t) := by
  have hs : ∀ s, p.calls t.caller = .running s → (move t.caller p.mem s).Ensures may
      (fun m' c l => (o.mem m' ∧ o.call t.caller m' c) ∧ o.later p.mem m' ∧ ∀ r ∈ l, o.asks r)
        p.mem := by
    intro s hc
    exact o.step h.mem (hc ▸ h.call t.caller)
  rcases p.turn_cases ht hs with
    ⟨he, _⟩ | ⟨s, m, c, l, _, ⟨⟨hm, hc⟩, hl, ha⟩, he, _⟩ | ⟨s, reason, _, _, he⟩
  · rwa [he]
  · rw [he]
    exact h.after hm hc hl ha
  · rw [he]
    exact ⟨h.mem, h.call, h.asks⟩

theorem Holds.run (h : o.Holds p) {turns : List (Turn ι A)} (ht : ∀ t ∈ turns, t.Within may) :
    o.Holds (p.run move turns) :=
  p.run_induction move h fun _ hq t hm => hq.turn (ht t hm)

end Outline

end PauseCleanup
