import PauseCleanup.Proofs.Pool.Outline
import PauseCleanup.Proofs.SmallHost
import PauseCleanup.Proofs.Unloading.Closing
import PauseCleanup.Proofs.Unloading.Opening
import PauseCleanup.Proofs.Unloading.Operation
import Mathlib.Algebra.BigOperators.Ring.Finset
import Mathlib.Data.Fin.VecNotation
/-!
# The count tells whether every unit was unloaded once

A count can stand in for the units only because no history unloads a unit twice: then as many as
there are means each of them.
-/
namespace PauseCleanup.Unloading

open Host (Query Answer)
open Frontier (Batch)
open scoped UInt64.CommRing

theorem Stable.length_lt {next : UnitId → Option UnitId} {here : Option UnitId}
    {units : List UnitId} (h : Stable next here units) : units.length < 18446744073709551616 := by
  have hnodup : (units.map fun u => u.index.toNat).Nodup := by
    refine h.nodup.map ?_
    intro u v he
    cases u
    cases v
    exact congrArg UnitId.mk (UInt64.toNat_inj.1 he)
  have hsub : (units.map fun u => u.index.toNat) ⊆ List.range 18446744073709551615 := by
    intro n hn
    obtain ⟨u, hu, rfl⟩ := List.mem_map.1 hn
    exact List.mem_range.2 (h.small u hu)
  have hlen := (hnodup.subperm hsub).length_le
  rw [List.length_map, List.length_range] at hlen
  omega

section

variable {ι : Type} {units : List UnitId} {plan : Plan}

/-- The unit was asked to be unloaded once, and its unloading came to its end. -/
def UnloadedOnce (plan : Plan) (p : Pool ι Answer (Tallied Shared) Operation (ℕ ⊕ Batch))
    (u : UnitId) : Prop :=
  p.times (.unload u plan.pass plan.unloading) = 1 ∧
    (⟨.unload u plan.pass plan.unloading, .ok ()⟩ : Reply Answer) ∈ p.log

/-- If no unit was asked for twice, as many unloadings as units are one of each. -/
theorem unloadings_eq_iff (hnodup : units.Nodup)
    {p : Pool ι Answer (Tallied Shared) Operation (ℕ ⊕ Batch)}
    (hle : chores p.log ≤ plan.asks units) :
    unloadings p.log = units.length ↔ ∀ u ∈ units, UnloadedOnce plan p u := by
  have hcard : (plan.asks units).card = units.length := by simp [Plan.asks]
  have hdone : unloaded p.log ≤ plan.asks units := (unloaded_le_chores p.log).trans hle
  constructor
  · intro hlen u hu
    have heq : unloaded p.log = plan.asks units :=
      Multiset.eq_of_le_of_card_le hdone (by rw [hcard, card_unloaded, hlen])
    have hchores : chores p.log = plan.asks units :=
      le_antisymm hle (heq ▸ unloaded_le_chores p.log)
    have hmem : Query.unload u plan.pass plan.unloading ∈ plan.asks units :=
      Multiset.mem_coe.2 (List.mem_map_of_mem hu)
    refine ⟨?_, mem_unloaded.1 (heq ▸ hmem)⟩
    rw [p.times_eq, ← count_chores rfl, hchores]
    exact Multiset.count_eq_one_of_mem (Multiset.coe_nodup.2 (plan.nodup_asks hnodup)) hmem
  · intro hall
    have hsub : plan.asks units ≤ unloaded p.log := by
      have hasks : (plan.asks units).Nodup := Multiset.coe_nodup.2 (plan.nodup_asks hnodup)
      refine (Multiset.le_iff_subset hasks).2 fun q hq => ?_
      obtain ⟨u, hu, rfl⟩ := List.mem_map.1 (Multiset.mem_coe.1 hq)
      exact mem_unloaded.2 (hall u hu).2
    rw [← card_unloaded, ← hcard, le_antisymm hdone hsub]

end

def operations {ι : Type} {may : Reply Answer → Prop} {host : (q : Query) → Answer q}
    {here : Option UnitId} {units : List UnitId} (hmay : Steady host may)
    (hchain : Chain (fun u => host (.nextAlive u)) here units) (plan : Plan) :
    Outline may (fun _ : ι => Operation.move plan) where
  mem t := t.own.frontier.Valid units
  call _ t c := Operation.Knows may units plan t.own c
  later t t' := Later t.own t'.own
  stable h hc := Operation.knows_stable h hc
  step hm hs := (Operation.move_ensures hmay hchain hm hs).mono fun _ _ _ h =>
    ⟨⟨h.valid, h.knows⟩, h.later, fun _ _ => trivial⟩

def weights (units : List UnitId) (plan : Plan) :
    Weights Answer (Tallied Shared) Operation (ℕ ⊕ Batch) (Multiset Query) where
  mem t := t.own.owes plan units
  call := Operation.owes plan
  reply r := chores [r]

def entries (plan : Plan) : Weights Answer (Tallied Shared) Operation (ℕ ⊕ Batch) UInt64 where
  mem t := t.own.entered
  call := Operation.unentered plan
  reply _ := 0

section

variable {ι : Type} [Fintype ι] [DecidableEq ι] {host : (q : Query) → Answer q}
  {units : List UnitId} {r : Request} {plan : Plan} {shared : Shared} {calls : ι → Call}
  {turns : List (Turn ι Answer)}

/-- No unit is asked for twice, and nothing but the units of the unloading. -/
theorem chores_le (calls : ι → Call)
    (hunits : Stable (fun u => host (.nextAlive u)) (host .firstAlive) units)
    (hopened : Opened host units r plan shared) (tally : Tally)
    (hturns : ∀ t ∈ turns, t.Agrees host) :
    let p := operate plan ⟨shared, tally⟩ calls turns
    chores p.log ≤ plan.asks units := by
  intro p
  obtain ⟨hvalid, howes⟩ := hopened.owes hunits.chain
  have hstart : (operations (steady_agreeing host) hunits.chain plan).Holds
      (Pool.start ⟨shared, tally⟩ fun i => (calls i).start) := by
    refine Outline.holds_start _ hvalid fun i => ?_
    cases calls i with
    | worker id => exact ⟨id, rfl⟩
    | claim buffer => exact trivial
  have hstep : ∀ {t : Tallied Shared} {s : Operation}, t.own.frontier.Valid units →
      Operation.Knows (agreeing host) units plan t.own (.running s) → (s.move plan t).Ensures
        (agreeing host) ((weights units plan).Related (· ≤ ·) t (.running s)) t := by
    intro t s hm hs
    have hmoved := Operation.move_ensures (steady_agreeing host) hunits.chain hm hs
    refine hmoved.mono fun t' c l h => ?_
    have hle := h.settles.le
    rw [← sum_chores] at hle
    exact hle
  have htotal := (weights units plan).total_run _ (r := (· ≤ ·)) (fun _ => le_rfl) le_trans
    (fun c h => add_le_add le_rfl h) hstep hstart hturns
  have hfresh : ∑ i, Operation.owes plan (.running (calls i).start) = 0 :=
    Finset.sum_eq_zero fun i _ => by cases calls i <;> rfl
  rw [Weights.total_start, Weights.total] at htotal
  rw [← sum_chores]
  calc (p.log.map fun r => chores [r]).sum
      ≤ p.mem.own.owes plan units + ∑ i,
        Operation.owes plan (p.calls i) + (p.log.map fun r => chores [r]).sum :=
        Multiset.le_add_left _ _
    _ ≤ shared.owes plan units + ∑ i, Operation.owes plan (.running (calls i).start) := htotal
    _ = plan.asks units := by rw [hfresh, add_zero, howes]

theorem counted_run (hopened : Opened host units r plan shared) (tally : Tally)
    (hover : (operate plan ⟨shared, tally⟩ calls turns).AllOver) :
    let p := operate plan ⟨shared, tally⟩ calls turns
    p.mem.own.unloaded = .ofNat (unloadings p.log) := by
  intro p
  have hcount := count_run (fun t : Tallied Shared => t.own.unloaded) Operation.uncounted
    (fun _ t s => Operation.move_counts plan t s) ⟨shared, tally⟩ (fun i => (calls i).start)
    (fun i => by cases calls i <;> rfl) turns
  have hnone : ∑ i, Operation.uncounted (p.calls i) = 0 := by
    refine Finset.sum_eq_zero fun i _ => ?_
    cases hc : p.calls i with
    | running s => exact absurd hc (hover.ne_running i s)
    | returned b => rfl
    | panicked cause => rfl
  obtain ⟨f, -, rfl⟩ := hopened.shared
  have hsum : p.mem.own.unloaded + ∑ i, Operation.uncounted (p.calls i) =
    0 + .ofNat (unloadings p.log) := hcount
  rwa [hnone, add_zero, zero_add] at hsum

theorem entered_run (hopened : Opened host units r plan shared) (tally : Tally)
    (hover : (operate plan ⟨shared, tally⟩ calls turns).AllOver) :
    let p := operate plan ⟨shared, tally⟩ calls turns
    p.mem.own.entered = .ofNat (Finset.univ.filter fun i => (calls i).enters plan).card := by
  intro p
  have hstep : ∀ (i : ι) (t : Tallied Shared) (s : Operation),
    (s.move plan t).Ensures (fun _ => True)
      ((entries plan).Related Eq t (.running s)) t := by
    intro i t s
    refine (Operation.move_enters plan t s).mono fun t' c l h => ?_
    have hzero : (l.map (entries plan).reply).sum = 0 := by simp [entries]
    rw [Weights.Related, hzero, add_zero]
    exact h
  have htotal : (entries plan).total p = _ :=
    (entries plan).total_run_eq hstep (Pool.start ⟨shared, tally⟩ fun i => (calls i).start) turns
  -- Whoever is over has been counted, or will never be.
  have hnone : ∑ i, (entries plan).call (p.calls i) = 0 := by
    refine Finset.sum_eq_zero fun i _ => ?_
    cases hc : p.calls i with
    | running s => exact absurd hc (hover.ne_running i s)
    | returned b => rfl
    | panicked cause => rfl
  have hall : ∑ i, (entries plan).call (.running (calls i).start) =
      ((Finset.univ.filter fun i => (calls i).enters plan).card : UInt64) := by
    rw [← Finset.sum_boole]
    refine Finset.sum_congr rfl fun i _ => ?_
    cases calls i <;> simp [entries, Call.start, Call.enters, Operation.unentered, Worker.unentered]
  have hreplies : (p.log.map (entries plan).reply).sum = 0 := by simp [entries]
  obtain ⟨f, -, rfl⟩ := hopened.shared
  rw [Weights.total_start, hall, Weights.total, hnone, hreplies, add_zero, add_zero] at htotal
  have hword : p.mem.own.entered =
    0 + ((Finset.univ.filter fun i => (calls i).enters plan).card : UInt64) := htotal
  rw [hword, zero_add]
  rfl

/-- What a count tells once all calls are over. `entered` is the number of calls that came past the
range check. -/
structure CountIsExact (units : List UnitId) (plan : Plan) (entered : ℕ)
    (p : Pool ι Answer (Tallied Shared) Operation (ℕ ⊕ Batch)) : Prop where
  counted : p.mem.own.unloaded.toNat = unloadings p.log
  bounded : ∃ n, plan.expected = some n ∧ n.toNat = units.length ∧ p.mem.own.unloaded ≤ n
  check : checkCount plan.expected p.mem.own.unloaded = none ↔ ∀ u ∈ units, UnloadedOnce plan p u
  /-- Closed while no panic is under way, the unloading ends the process if a unit was missed, and
  else leaves the decision to the host. Entries are counted in a word, which is 0 again after so
  many. -/
  closing : ¬18446744073709551616 ∣ entered → ∀ turns : List (Turn Unit Answer), 4 < turns.length →
    let q := Pool.alone (Closing.move plan false) p.mem.own .start turns
    ((∃ u ∈ units, ¬UnloadedOnce plan p u) → q.log = [] ∧
      q.aborted = some (.violation (.countMismatch (.ofNat units.length) p.mem.own.unloaded))) ∧
    ((∀ u ∈ units, UnloadedOnce plan p u) →
      Closing.Decided plan.hostChecks q.log (q.calls ()) q.aborted)

variable (r calls)

/-- However workers and bare claims interleave, and wherever the host panics: the count of an
unloading that was opened with a check is exact. -/
theorem count_is_exact (hunits : Stable (fun u => host (.nextAlive u)) (host .firstAlive) units)
    (hverify : r.verify = true) {opening : List (Turn Unit Answer)}
    (hopening : ∀ t ∈ opening, t.Agrees host)
    (hopen : (Pool.alone (fun _ => Opening.move r) () .start opening).calls () =
      .returned (plan, shared))
    (tally : Tally) (hturns : ∀ t ∈ turns, t.Agrees host)
    (hover : (operate plan ⟨shared, tally⟩ calls turns).AllOver) :
    CountIsExact units plan (Finset.univ.filter fun i => (calls i).enters plan).card
      (operate plan ⟨shared, tally⟩ calls turns) := by
  have hopened := Opening.returned_opened (steady_agreeing host) hunits.chain hopening hopen
  have hchores := chores_le calls hunits hopened tally hturns
  have hcounted := counted_run hopened tally hover
  have hentered := entered_run hopened tally hover
  dsimp only at hchores hcounted hentered
  generalize operate plan ⟨shared, tally⟩ calls turns = p
    at hover hchores hcounted hentered ⊢
  have hlength := hunits.length_lt
  -- No unit was asked for twice, so no more were unloaded than there are, and no word wraps.
  have hle : unloadings p.log ≤ units.length := by
    have hcard := Multiset.card_le_card ((unloaded_le_chores p.log).trans hchores)
    rw [card_unloaded] at hcard
    simpa [Plan.asks] using hcard
  have hnat : p.mem.own.unloaded.toNat = unloadings p.log := by
    rw [hcounted, UInt64.toNat_ofNat_of_lt' (Nat.lt_of_le_of_lt hle hlength)]
  have hsize : (UInt64.ofNat units.length).toNat = units.length := UInt64.toNat_ofNat_of_lt' hlength
  have hexpected : plan.expected = some (.ofNat units.length) := by
    rw [hopened.plan, Request.expects, if_pos hverify]
  have hcheck : checkCount plan.expected p.mem.own.unloaded = none ↔ ∀ u ∈ units,
    UnloadedOnce plan p u := by
    rw [hexpected, checkCount_some_eq_none, ← unloadings_eq_iff hunits.nodup hchores,
      ← UInt64.toNat_inj, hnat, hsize]
    exact eq_comm
  refine ⟨hnat, ⟨_, hexpected, hsize, ?_⟩, hcheck, ?_⟩
  · rw [UInt64.le_iff_toNat_le, hnat, hsize]
    exact hle
  -- Entries are counted in a word: unless it is back at 0, the closing has something to check.
  · intro hword closing hlen
    have hsome : (p.mem.own.entered == 0) = false := by
      rw [beq_eq_false_iff_ne, hentered]
      intro hzero
      have hmod := congrArg UInt64.toNat hzero
      rw [UInt64.toNat_ofNat'] at hmod
      exact hword (Nat.dvd_of_mod_eq_zero hmod)
    have hspec := Closing.alone_spec (p := plan) hsome hlen
    constructor
    · intro hsome
      obtain ⟨u, hu, hmissed⟩ := hsome
      have hne : ¬checkCount plan.expected p.mem.own.unloaded = none :=
        fun h => hmissed (hcheck.1 h u hu)
      have hviolation : checkCount plan.expected p.mem.own.unloaded =
          some (.countMismatch (.ofNat units.length) p.mem.own.unloaded) := by
        rw [hexpected, checkCount] at hne ⊢
        split at hne
        · exact absurd rfl hne
        · next h => rw [if_neg h]
      rw [hviolation] at hspec
      exact hspec
    · intro hall
      rw [hcheck.2 hall] at hspec
      exact hspec

end

def smallRequest : Request where
  pass := ⟨1⟩
  unloading := true
  workers := 2
  batch := .ofWord 1
  verify := true

def smallPlan : Plan where
  pass := ⟨1⟩
  unloading := true
  workers := 2
  batch := .ofWord 1
  first := some ⟨5⟩
  expected := some 3

theorem count_is_exact_small :
    let calls : Fin 3 → Call := ![.worker 0, .worker 1, .claim []]
    let turns := calmTurns smallHost (List.replicate 23 [0, 1, 2]).flatten
    let p := operate smallPlan ⟨{ frontier := ⟨6⟩ }, {}⟩ calls turns
    p.mem.own.unloaded = 2 ∧
      CountIsExact smallUnits smallPlan
        (Finset.univ.filter fun i => (calls i).enters smallPlan).card p := by
  intro calls turns p
  refine ⟨by decide +kernel, ?_⟩
  refine count_is_exact smallRequest calls smallUnits_stable rfl
    (fun t ht => (calmTurns_returns smallHost (List.replicate 8 ()) t ht).agrees) rfl _
    (fun t ht => (calmTurns_returns smallHost _ t ht).agrees) ?_
  unfold Pool.AllOver
  decide +kernel

end PauseCleanup.Unloading
