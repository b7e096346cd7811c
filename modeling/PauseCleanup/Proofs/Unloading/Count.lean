import PauseCleanup.Proofs.Chores
import PauseCleanup.Proofs.Phases
import PauseCleanup.Proofs.Pool.Weights
import Mathlib.Data.UInt
/-!
# What an unloading counts

The count of an unloading is a word: the number of units whose unloading came to its end, less those
that a worker is just about to count.
-/
namespace PauseCleanup

open Host (Query Answer)
open scoped UInt64.CommRing

def isUnloaded : Reply Answer → Bool
  | ⟨.unload .., .ok _⟩ => true
  | _ => false

/-- The units whose unloading came to its end. -/
def unloadings (l : List (Reply Answer)) : ℕ := l.countP isUnloaded

theorem unloadings_of_within {l : List (Reply Answer)} {ph : Option Phase} (h : Within ph l)
    (hph : ph ≠ some .code) : unloadings l = 0 := by
  rw [unloadings, List.countP_eq_zero]
  rintro ⟨q, a⟩ hr hu
  have hq := h _ hr
  cases q with
  | unload u pass unl => exact hph hq.symm
  | _ => simp [isUnloaded] at hu

theorem unloadings_of_next {l : List (Reply Answer)} (h : ∀ r ∈ l, ∃ u, r.1 = .nextAlive u) :
    unloadings l = 0 := by
  rw [unloadings, List.countP_eq_zero]
  rintro ⟨q, a⟩ hr
  obtain ⟨u, rfl⟩ := h _ hr
  simp [isUnloaded]

theorem unloadings_cons (r : Reply Answer) (l : List (Reply Answer)) :
    unloadings (r :: l) = unloadings [r] + unloadings l := by
  simp [unloadings, List.countP_cons, Nat.add_comm]

def Host.Query.isUnload : Query → Bool
  | .unload .. => true
  | _ => false

theorem unloadings_of_returning {host : (q : Query) → Answer q} {l : List (Reply Answer)}
    (h : ∀ r ∈ l, returning host r) : unloadings l = (chores l).countP (·.isUnload) := by
  rw [chores, Multiset.coe_countP, List.countP_filter, List.countP_map, unloadings]
  refine List.countP_congr ?_
  rintro ⟨q, a⟩ hr
  have ha : a = .ok (host q) := h _ hr
  subst ha
  cases q <;> simp [isUnloaded, Query.isUnload, Query.isChore]

/-- The questions that unloaded a unit to the end. -/
def unloaded (l : List (Reply Answer)) : Multiset Query := ↑((l.filter isUnloaded).map (·.1))

theorem card_unloaded (l : List (Reply Answer)) : (unloaded l).card = unloadings l := by
  rw [unloaded, Multiset.coe_card, List.length_map, unloadings, List.countP_eq_length_filter]

theorem unloaded_le_chores (l : List (Reply Answer)) : unloaded l ≤ chores l := by
  rw [unloaded, chores, List.filter_map]
  refine Multiset.coe_le.2 (List.Sublist.subperm (List.Sublist.map _ ?_))
  refine List.monotone_filter_right l ?_
  rintro ⟨q, a⟩ hr
  cases q <;> simp_all [isUnloaded, Query.isChore]

theorem mem_unloaded {l : List (Reply Answer)} {u : UnitId} {pass : PassId} {unloading : Bool} :
    .unload u pass unloading ∈ unloaded l ↔
      (⟨.unload u pass unloading, .ok ()⟩ : Reply Answer) ∈ l := by
  rw [unloaded, Multiset.mem_coe, List.mem_map]
  constructor
  · intro h
    obtain ⟨⟨q, a⟩, hr, rfl⟩ := h
    obtain ⟨hmem, hu⟩ := List.mem_filter.1 hr
    cases a with
    | error cause => simp [isUnloaded] at hu
    | ok a => exact hmem
  · intro h
    exact ⟨_, List.mem_filter.2 ⟨h, rfl⟩, rfl⟩

/-- A move that lets no unit pass uncounted: the count with what is still `pending` grows by the
units unloaded. -/
def Counts {Mem State Result : Type} (count : Mem → UInt64)
    (pending : Progress State Result → UInt64) (m : Mem) (c : Progress State Result) (m' : Mem)
    (c' : Progress State Result) (l : List (Reply Answer)) : Prop :=
  count m' + pending c' = count m + pending c + .ofNat (unloadings l)

theorem Counts.quiet {Mem State Result : Type} {count : Mem → UInt64}
    {pending : Progress State Result → UInt64} {m m' : Mem} {c c' : Progress State Result}
    {l : List (Reply Answer)} (hm : count m' = count m) (hc : pending c' = pending c)
    (hl : unloadings l = 0) : Counts count pending m c m' c' l := by
  rw [Counts, hm, hc, hl]
  simp

def countWeights {Mem State Result : Type} (count : Mem → UInt64)
    (pending : Progress State Result → UInt64) : Weights Answer Mem State Result UInt64 where
  mem := count
  call := pending
  reply r := -UInt64.ofNat (unloadings [r])

/-- If no move lets a unit pass uncounted, no run does: the count is that of the units unloaded,
less those that are still pending. -/
theorem count_run {ι Mem State Result : Type} [Fintype ι] [DecidableEq ι]
    {move : ι → Mem → State → HostMove Mem State Result} (count : Mem → UInt64)
    (pending : Progress State Result → UInt64)
    (hstep : ∀ i m s, (move i m s).Ensures (fun _ => True) (Counts count pending m (.running s)) m)
    (m : Mem) (first : ι → State) (hfirst : ∀ i, pending (.running (first i)) = 0)
    (turns : List (Turn ι Answer)) :
    let p := (Pool.start m first).run move turns
    count p.mem + ∑ i, pending (p.calls i) = count m + .ofNat (unloadings p.log) := by
  intro p
  have hreplies : ∀ l, (l.map (countWeights count pending).reply).sum =
      -UInt64.ofNat (unloadings l) := by
    intro l
    induction l with
    | nil => rfl
    | cons r l ih =>
      rw [List.map_cons, List.sum_cons, ih, unloadings_cons, UInt64.ofNat_add, neg_add]
      rfl
  have hrelated : ∀ i m s, (move i m s).Ensures (fun _ => True)
      ((countWeights count pending).Related Eq m (.running s)) m := by
    intro i m s
    refine (hstep i m s).mono fun m' c l h => ?_
    rw [Weights.Related, hreplies]
    show count m' + pending c + -UInt64.ofNat (unloadings l) = _
    rw [h, add_neg_cancel_right]
    rfl
  have htotal := (countWeights count pending).total_run_eq hrelated (Pool.start m first) turns
  rw [Weights.total_start, Weights.total, hreplies, add_neg_eq_iff_eq_add] at htotal
  have hzero : ∑ i, (countWeights count pending).call (.running (first i)) = 0 :=
    Finset.sum_eq_zero fun i _ => hfirst i
  rw [hzero, add_zero] at htotal
  exact htotal

namespace Unloading.Worker

/-- Units that were unloaded by a worker and not counted yet. -/
def uncounted : Progress Worker ℕ → UInt64
  | .running (.count ..) => 1
  | _ => 0

variable {may : Reply Answer → Prop}

theorem move_counts (p : Plan) (t : Tallied Shared) (s : Worker) :
    (s.move p t).Ensures may (Counts (fun t => t.own.unloaded) uncounted t (.running s)) t := by
  cases s with
  | start id =>
    simp only [move]
    split <;> exact .quiet rfl rfl rfl
  | enter id =>
    have hnone : uncounted (.running (afterEnter p id)) = 0 := by
      unfold afterEnter
      split
      · split <;> rfl
      · rfl
    exact .quiet rfl hnone rfl
  | first u attempt =>
    refine (attempt.within t.own.first (some .metadata)).lift rfl ?_ ?_ ?_
    · exact fun flag _ l hl => .quiet rfl rfl (unloadings_of_within hl (by decide))
    · intro won _
      cases won <;> exact .quiet rfl rfl rfl
    · exact fun cause l hl => .quiet rfl rfl (unloadings_of_within hl (by decide))
  | buffer total =>
    simp only [move]
    split <;> exact .quiet rfl rfl rfl
  | claim total c =>
    refine (c.asks_next p.batch t.own.frontier).lift rfl ?_ ?_ ?_
    · exact fun f _ l hl => .quiet rfl rfl (unloadings_of_next hl)
    · intro b _
      by_cases hb : b.units = []
      · simp only [hb, if_true]
        exact .quiet rfl rfl rfl
      · simp only [hb, if_false]
        exact .quiet rfl rfl rfl
    · exact fun cause l hl => .quiet rfl rfl (unloadings_of_next hl)
  | batch total us => exact .quiet rfl rfl rfl
  | unload total us opened =>
    cases us with
    | nil =>
      simp only [move]
      split <;> exact .quiet rfl rfl rfl
    | cons u us =>
      intro a ha
      cases a with
      | error cause => exact .quiet rfl rfl rfl
      | ok a =>
        show t.own.unloaded + 1 = t.own.unloaded + 0 + .ofNat 1
        rw [add_zero]
        rfl
  | count total us opened =>
    show t.own.unloaded + 1 + 0 = t.own.unloaded + 1 + .ofNat 0
    rfl
  | tally total us opened => exact .quiet rfl rfl rfl
  | done total => exact .quiet rfl rfl rfl

end Unloading.Worker

end PauseCleanup
