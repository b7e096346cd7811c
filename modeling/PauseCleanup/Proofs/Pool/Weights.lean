import PauseCleanup.Proofs.Pool.Outline
import Mathlib.Algebra.BigOperators.Group.Finset.Piecewise
import Mathlib.Tactic.Abel
/-!
# Weights: what no move creates or loses

If no move changes the sum of the weights of the memory, of the calls and of the replies, no
interleaving changes the total. The same goes for relations other than equality that may be added
to.
-/
namespace PauseCleanup

theorem sum_countP_filter {α ι : Type} [Fintype ι] [DecidableEq ι] (key : α → ι) (p : α → Bool)
    (l : List α) : ∑ i, (l.filter fun a => key a = i).countP p = l.countP p := by
  induction l with
  | nil => simp
  | cons a l ih =>
    have hmore : ∀ i, ((a :: l).filter fun a => key a = i).countP p =
        (l.filter fun a => key a = i).countP p + if key a = i then [a].countP p else 0 := by
      intro i
      by_cases h : key a = i
      · simp [h, List.countP_cons]
      · simp [h]
    rw [Finset.sum_congr rfl fun i _ => hmore i, Finset.sum_add_distrib, ih, Finset.sum_ite_eq,
      if_pos (Finset.mem_univ _), List.countP_cons (l := l), List.countP_singleton]

variable {ι Q : Type} {A : Q → Type} {Mem State Result M : Type}

structure Weights (A : Q → Type) (Mem State Result M : Type) where
  mem : Mem → M
  call : Progress State Result → M
  reply : Reply A → M

namespace Weights

variable [AddCommMonoid M] (w : Weights A Mem State Result M)

/-- How the sums before and after a move are related. -/
def Related (r : M → M → Prop) (m : Mem) (c : Progress State Result) (m' : Mem)
    (c' : Progress State Result) (l : List (Reply A)) : Prop :=
  r (w.mem m' + w.call c' + (l.map w.reply).sum) (w.mem m + w.call c)

variable [Fintype ι]

def total (p : Pool ι A Mem State Result) : M :=
  w.mem p.mem + ∑ i, w.call (p.calls i) + (p.log.map w.reply).sum

theorem total_start (m : Mem) (first : ι → State) :
    w.total (Pool.start m first) = w.mem m + ∑ i, w.call (.running (first i)) := by
  simp [total, Pool.start, Pool.log]

variable [DecidableEq ι]

theorem sum_call_update (calls : ι → Progress State Result) (i : ι) (c : Progress State Result) :
    ∑ j, w.call (Function.update calls i c j) =
      w.call c + ∑ j ∈ Finset.univ.erase i, w.call (calls j) := by
  rw [← Finset.add_sum_erase _ _ (Finset.mem_univ i), Function.update_self]
  congr 1
  apply Finset.sum_congr rfl
  intro j hj
  rw [Function.update_of_ne (Finset.ne_of_mem_erase hj)]

theorem total_eq (p : Pool ι A Mem State Result) (i : ι) :
    w.total p = (∑ j ∈ Finset.univ.erase i, w.call (p.calls j) + (p.log.map w.reply).sum) +
      (w.mem p.mem + w.call (p.calls i)) := by
  rw [total, ← Finset.add_sum_erase _ _ (Finset.mem_univ i)]
  abel

theorem total_after (p : Pool ι A Mem State Result) (i : ι) (m : Mem) (c : Progress State Result)
    (l : List (Reply A)) :
    w.total (p.after i m c l) =
    (∑ j ∈ Finset.univ.erase i, w.call (p.calls j) + (p.log.map w.reply).sum) +
      (w.mem m + w.call c + (l.map w.reply).sum) := by
  rw [total, Pool.log_after, List.map_append, List.sum_append, List.map_reverse, List.sum_reverse]
  simp only [Pool.after, sum_call_update]
  abel

variable {may : Reply A → Prop} {move : ι → Mem → State → Move A Mem State Result}

theorem total_turn (o : Outline may move) {r : M → M → Prop} (hr : ∀ a, r a a)
    (hadd : ∀ {a b} (c), r a b → r (c + a) (c + b))
    (hstep : ∀ {i m s}, o.mem m → o.call i m (.running s) →
      (move i m s).Ensures may (w.Related r m (.running s)) m)
    {p : Pool ι A Mem State Result} (h : o.Holds p) {t : Turn ι A} (ht : t.Within may) :
    r (w.total (p.turn move t)) (w.total p) := by
  have hs : ∀ s, p.calls t.caller = .running s →
      (move t.caller p.mem s).Ensures may (w.Related r p.mem (.running s)) p.mem := by
    intro s hc
    exact hstep h.mem (hc ▸ h.call t.caller)
  rcases p.turn_cases ht hs with ⟨he, _⟩ | ⟨s, m, c, l, hc, hw, he, _⟩ | ⟨s, reason, _, _, he⟩
  · rw [he]
    exact hr _
  · rw [he, w.total_after, w.total_eq p t.caller, hc]
    exact hadd _ hw
  · rw [he]
    exact hr _

/-- A relation between the sums before and after each move holds between the totals before and after
each run. -/
theorem total_run (o : Outline may move) {r : M → M → Prop} (hr : ∀ a, r a a)
    (htrans : ∀ {a b c}, r a b → r b c → r a c) (hadd : ∀ {a b} (c), r a b → r (c + a) (c + b))
    (hstep : ∀ {i m s}, o.mem m → o.call i m (.running s) →
      (move i m s).Ensures may (w.Related r m (.running s)) m)
    {p : Pool ι A Mem State Result} (h : o.Holds p) {turns : List (Turn ι A)}
    (ht : ∀ t ∈ turns, t.Within may) : r (w.total (p.run move turns)) (w.total p) := by
  have hboth : o.Holds (p.run move turns) ∧ r (w.total (p.run move turns)) (w.total p) := by
    refine p.run_induction move (P := fun q => o.Holds q ∧ r (w.total q) (w.total p)) ⟨h, hr _⟩ ?_
    rintro q ⟨hq, hle⟩ t hm
    exact ⟨hq.turn (ht t hm), htrans (w.total_turn o hr hadd hstep hq (ht t hm)) hle⟩
  exact hboth.2

/-- What no move changes, whatever the host answers, no run changes. -/
theorem total_run_eq
    (hstep : ∀ i m s, (move i m s).Ensures (fun _ => True) (w.Related Eq m (.running s)) m)
    (p : Pool ι A Mem State Result) (turns : List (Turn ι A)) :
    w.total (p.run move turns) = w.total p :=
  w.total_run (.blank _ move) (r := Eq) (fun _ => rfl) Eq.trans (fun c h => by rw [h])
    (fun _ _ => hstep _ _ _) (Outline.holds_blank p) (Turn.within_true turns)

end Weights

end PauseCleanup
