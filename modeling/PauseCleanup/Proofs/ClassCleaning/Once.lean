import PauseCleanup.Proofs.ClassCleaning.Operation
import PauseCleanup.Proofs.SmallHost
import Mathlib.Algebra.Order.BigOperators.Group.Finset
/-!
# Every class is handed out once

Workers, searches and tries for the tree run on one class cleaning in any order, and any callback
may panic. A class is handed out as often as it stands in the source.
-/
namespace PauseCleanup.ClassCleaning

open Host (Query Answer)

/-- The class whose kind was to be told when the host panicked. -/
def untold : Reply Answer → List ClassId
  | ⟨.kindOf c, .error _⟩ => [c]
  | _ => []

theorem count_treeWork_of_ne {q : Query} (h : q ≠ .cleanTree) : treeWork.count q = 0 :=
  Multiset.count_eq_zero.2 fun hq => h (Multiset.mem_singleton.1 hq)

section counts

variable (host : (q : Query) → Answer q)

theorem count_kindOf_works (c : ClassId) (cs : List ClassId) :
    (works host cs).count (.kindOf c) = cs.count c := by
  rw [works_eq, Multiset.count_add, Multiset.coe_count, Multiset.coe_count,
    List.count_map_of_injective cs Query.kindOf fun _ _ h => Query.kindOf.inj h]
  simp [List.count_eq_zero]

theorem count_cleanLinks_works (c : ClassId) (cs : List ClassId) :
    (works host cs).count (.cleanLinks c) =
      if (host (.kindOf c)).isInstance then cs.count c else 0 := by
  have hkinds : (cs.map Query.kindOf).count (.cleanLinks c) = 0 := List.count_eq_zero.2 (by simp)
  rw [works_eq, Multiset.count_add, Multiset.coe_count, Multiset.coe_count, hkinds, Nat.zero_add,
    List.count_map_of_injective _ Query.cleanLinks fun _ _ h => Query.cleanLinks.inj h]
  split
  · next hi => exact List.count_filter hi
  · next hi => exact List.count_eq_zero.2 (by simp [hi])

theorem count_cleanTree_works (cs : List ClassId) : (works host cs).count .cleanTree = 0 := by
  rw [works_eq, Multiset.count_add, Multiset.coe_count, Multiset.coe_count]
  simp [List.count_eq_zero]

theorem count_lost (c : ClassId) (l : List (Reply Answer)) :
    ((l.map (lost host)).sum).count (.cleanLinks c) =
      if (host (.kindOf c)).isInstance then (l.flatMap untold).count c else 0 := by
  induction l with
  | nil => simp
  | cons r l ih =>
    rw [List.map_cons, List.sum_cons, Multiset.count_add, ih, List.flatMap_cons, List.count_append]
    have hhead : (lost host r).count (.cleanLinks c) =
        if (host (.kindOf c)).isInstance then (untold r).count c else 0 := by
      unfold lost untold
      split
      · next d _ =>
        by_cases hd : d = c
        · subst hd
          split <;> simp [links]
        · have hne : Query.cleanLinks c ≠ .cleanLinks d := fun h => hd (Query.cleanLinks.inj h).symm
          split <;> simp [links, hd, hne]
      · simp
    rw [hhead]
    split <;> rfl

theorem count_kindOf_lost (c : ClassId) (l : List (Reply Answer)) :
    ((l.map (lost host)).sum).count (.kindOf c) = 0 := by
  induction l with
  | nil => simp
  | cons r l ih =>
    rw [List.map_cons, List.sum_cons, Multiset.count_add, ih]
    unfold lost
    split
    · split <;> simp [links]
    · simp

end counts

namespace Operation

def given : Progress Operation Outcome → List ClassId
  | .returned (.picked cls) => cls.toList
  | _ => []

def treesWon : Progress Operation Outcome → ℕ
  | .returned (.tried true) => 1
  | _ => 0

/-- The call has had the answer that no class is left. -/
def SawEnd : Progress Operation Outcome → Prop
  | .running (.work (.report _)) | .running (.work (.done _)) => True
  | .returned (.worked _) | .returned (.picked none) => True
  | _ => False

/-- What a call keeps for good. -/
def kept (c : Progress Operation Outcome) : Multiset Query :=
  (↑((given c).map Query.cleanLinks) : Multiset Query) + Multiset.replicate (treesWon c) .cleanTree

variable {host : (q : Query) → Answer q} {may : Reply Answer → Prop} {m : Shared}
  {c : Progress Operation Outcome}

theorem kept_of_over (h : c.isOver = true ∨ SawEnd c) : owes host c = kept c := by
  cases c with
  | running s =>
    rcases h with h | h
    · cases h
    · unfold SawEnd at h
      split at h <;> simp_all [owes, kept, given, treesWon, Worker.owes]
  | returned r =>
    cases r with
    | tried won => cases won <;> simp [owes, kept, given, treesWon, treeWork]
    | picked cls => simp [owes, kept, given, treesWon, links]
    | worked n => simp [owes, kept, given, treesWon]
  | panicked cause => simp [owes, kept, given, treesWon]

theorem kept_le (c : Progress Operation Outcome) : kept c ≤ owes host c := by
  cases c with
  | running s => exact Multiset.zero_le _
  | _ => exact (kept_of_over (.inl rfl)).ge

theorem SawEnd.isEmpty (h : SawEnd c) (hc : Knows may m c) : m.source.IsEmpty := by
  unfold SawEnd at h
  split at h
  · exact hc.2
  · exact hc.2
  · exact hc.2
  · exact hc rfl
  · exact h.elim

theorem count_kindOf_kept (d : ClassId) : (kept c).count (.kindOf d) = 0 := by
  simp [kept, Multiset.count_replicate]

theorem count_cleanLinks_kept (d : ClassId) :
    (kept c).count (.cleanLinks d) = (given c).count d := by
  rw [kept, Multiset.count_add, Multiset.coe_count,
    List.count_map_of_injective _ Query.cleanLinks (fun _ _ h => Query.cleanLinks.inj h)]
  simp [Multiset.count_replicate]

theorem count_cleanTree_kept : (kept c).count .cleanTree = treesWon c := by
  simp [kept]

end Operation

open Operation (given treesWon SawEnd kept)

section Run

variable {ι : Type} {host : (q : Query) → Answer q} {may : Reply Answer → Prop}

def operations (ι : Type) (hmay : Steady host may) :
    Outline may (fun _ : ι => Operation.move) where
  mem t := t.own.source.Valid
  call _ t c := Operation.Knows may t.own c
  later t t' := Later t.own t'.own
  stable h hc := Operation.knows_stable h hc
  step hm hs := (Operation.move_ensures hmay hm hs).mono fun _ _ _ h =>
    ⟨⟨h.valid, h.knows⟩, h.later, fun _ _ => trivial⟩

/-- What is owed by the memory and by the calls, and what is settled. -/
def account (host : (q : Query) → Answer q) :
    Weights Answer (Tallied Shared) Operation Outcome (Multiset Query) where
  mem t := t.own.owes host
  call := Operation.owes host
  reply := settled host

variable [DecidableEq ι]

def operate (source : ClassSource) (tally : Tally) (calls : ι → Call)
    (turns : List (Turn ι Answer)) : Pool ι Answer (Tallied Shared) Operation Outcome :=
  (Pool.start ⟨{ source }, tally⟩ fun i => (calls i).start).run (fun _ => Operation.move) turns

variable {source : ClassSource} {tally : Tally} {calls : ι → Call} {turns : List (Turn ι Answer)}

omit [DecidableEq ι] in
theorem operations_start (hmay : Steady host may) (hsource : source.Valid) (tally : Tally)
    (calls : ι → Call) : (operations ι hmay).Holds
      (Pool.start ⟨{ source }, tally⟩ fun i => (calls i).start) :=
  Outline.holds_start _ hsource fun i => by
    show Operation.Knows _ _ (.running (calls i).start)
    cases calls i <;> trivial

variable [Fintype ι]

/-- Each question that is owed at first is still owed, or taken along, asked or lost in the end. -/
theorem count_settled (tally : Tally) (calls : ι → Call) (hsource : source.Valid)
    (hturns : ∀ t ∈ turns, t.Agrees host) {q : Query} (hq : q.isChore = true) :
    let p := operate source tally calls turns
    (p.mem.own.owes host).count q + ∑ i, (Operation.owes host (p.calls i)).count q +
      (p.times q + ((p.log.map (lost host)).sum).count q) =
        (treeWork + works host source.rest).count q := by
  intro p
  have hstart := operations_start (steady_agreeing host) hsource tally calls
  have htotal : (account host).total p = (account host).total
      (Pool.start (⟨{ source }, tally⟩ : Tallied Shared) fun i => (calls i).start) :=
    (account host).total_run _ (fun _ => rfl) Eq.trans (fun c h => by rw [h])
      (fun hm hs => (Operation.move_ensures (steady_agreeing host) hm hs).mono
        fun _ _ _ h => h.settled) hstart hturns
  have hsplit : (p.log.map (settled host)).sum = chores p.log + (p.log.map (lost host)).sum := by
    rw [← sum_chores, ← List.sum_map_add]
    rfl
  have hnone : ∀ i, Operation.owes host (.running (calls i).start) = 0 := fun i => by
    cases calls i <;> rfl
  rw [Weights.total_start] at htotal
  simp only [Weights.total, account, hnone, Finset.sum_const_zero, add_zero, hsplit] at htotal
  have hcount := congrArg (Multiset.count q) htotal
  simp only [Multiset.count_add, Multiset.count_sum', count_chores hq] at hcount
  rw [Pool.times_eq, hcount, Shared.owes, OneShot.left_fresh, Multiset.count_add]

/-- What calls keep for good, what they have asked and what was lost is no more than there was. -/
theorem count_kept_le (hsource : source.Valid) (hturns : ∀ t ∈ turns, t.Agrees host) {q : Query}
    (hq : q.isChore = true) :
    let p := operate source tally calls turns
    ∑ i, (kept (p.calls i)).count q + (p.times q + ((p.log.map (lost host)).sum).count q) ≤
      (treeWork + works host source.rest).count q := by
  intro p
  rw [← count_settled tally calls hsource hturns hq]
  refine Nat.add_le_add_right ?_ _
  refine (Finset.sum_le_sum fun i _ => ?_).trans (Nat.le_add_left _ _)
  exact Multiset.count_le_of_le q (Operation.kept_le _)

theorem count_kept_eq (hsource : source.Valid) (hturns : ∀ t ∈ turns, t.Agrees host) {q : Query}
    (hq : q.isChore = true) (htree : q ≠ .cleanTree) {i : ι}
    (hi : SawEnd ((operate source tally calls turns).calls i))
    (hothers : ∀ j, j ≠ i → ((operate source tally calls turns).calls j).isOver = true) :
    let p := operate source tally calls turns
    ∑ i, (kept (p.calls i)).count q + (p.times q + ((p.log.map (lost host)).sum).count q) =
      (works host source.rest).count q := by
  intro p
  have hholds := (operations_start (steady_agreeing host) hsource tally calls).run hturns
  have hempty : p.mem.own.source.IsEmpty := hi.isEmpty (hholds.call i)
  have hnone : treeWork.count q = 0 := count_treeWork_of_ne htree
  have hmem : (p.mem.own.owes host).count q = 0 := by
    -- With no class left, the memory owes no more than the tree.
    rw [Shared.owes, ClassSource.rest_of_isEmpty hempty, works_nil, add_zero, OneShot.left]
    split
    · exact Multiset.count_zero q
    · exact hnone
  have hcalls : ∀ j, Operation.owes host (p.calls j) = kept (p.calls j) := fun j => by
    by_cases hj : j = i
    · exact Operation.kept_of_over (.inr (hj ▸ hi))
    · exact Operation.kept_of_over (.inl (hothers j hj))
  have hcount := count_settled tally calls hsource hturns hq
  rw [Multiset.count_add, hnone, zero_add] at hcount
  rw [← hcount]
  simp only [← hcalls]
  rw [hmem, zero_add]

/-- What has become of the classes `cs` that a source had at first. -/
structure HandedOut (host : (q : Query) → Answer q) (cs : List ClassId)
    (p : Pool ι Answer (Tallied Shared) Operation Outcome) : Prop where
  kinds : ∀ c, p.times (.kindOf c) ≤ cs.count c
  instances : ∀ c, (host (.kindOf c)).isInstance = true →
    p.times (.cleanLinks c) + ∑ i, (given (p.calls i)).count c ≤ cs.count c
  others : ∀ c, (host (.kindOf c)).isInstance = false →
    p.times (.cleanLinks c) = 0 ∧ ∀ i, p.calls i ≠ .returned (.picked (some c))
  tree : p.times .cleanTree + ∑ i, treesWon (p.calls i) ≤ 1
  /-- Once somebody was told that nothing is left, and nobody else is on the way, all classes have
  been asked about; an instance class is then only missing if its kind could not be told. -/
  all : ∀ i, SawEnd (p.calls i) → (∀ j, j ≠ i → (p.calls j).isOver = true) → ∀ c,
    p.times (.kindOf c) = cs.count c ∧ ((host (.kindOf c)).isInstance = true →
      p.times (.cleanLinks c) + ∑ i, (given (p.calls i)).count c +
        (p.log.flatMap untold).count c = cs.count c)

omit [DecidableEq ι] in
theorem handedOut_of_counts {cs : List ClassId}
    {p : Pool ι Answer (Tallied Shared) Operation Outcome}
    (hle : ∀ q : Query, q.isChore = true → ∑ i, (kept (p.calls i)).count q +
      (p.times q + ((p.log.map (lost host)).sum).count q) ≤ (treeWork + works host cs).count q)
    (heq : ∀ i, SawEnd (p.calls i) → (∀ j, j ≠ i → (p.calls j).isOver = true) →
      ∀ q : Query, q.isChore = true → q ≠ .cleanTree → ∑ i, (kept (p.calls i)).count q +
        (p.times q + ((p.log.map (lost host)).sum).count q) = (works host cs).count q) :
    HandedOut host cs p := by
  have hlinks : ∀ c, ∑ i, (given (p.calls i)).count c + (p.times (.cleanLinks c) +
      if (host (.kindOf c)).isInstance then (p.log.flatMap untold).count c else 0) ≤
        if (host (.kindOf c)).isInstance then cs.count c else 0 := fun c => by
    have h := hle (.cleanLinks c) rfl
    rw [Multiset.count_add, count_cleanLinks_works, count_lost, count_treeWork_of_ne (by simp),
      zero_add] at h
    simpa only [Operation.count_cleanLinks_kept] using h
  constructor
  case kinds =>
    intro c
    have h := hle (.kindOf c) rfl
    rw [Multiset.count_add, count_kindOf_works, count_treeWork_of_ne (by simp), zero_add] at h
    omega
  case instances =>
    intro c hc
    have h := hlinks c
    rw [if_pos hc, if_pos hc] at h
    omega
  case others =>
    intro c hc
    have h := hlinks c
    simp only [hc, Bool.false_eq_true, if_false] at h
    refine ⟨by omega, fun i hi => ?_⟩
    have hone : (given (p.calls i)).count c ≤ ∑ i, (given (p.calls i)).count c :=
      Finset.single_le_sum (f := fun i => (given (p.calls i)).count c) (fun _ _ => Nat.zero_le _)
        (Finset.mem_univ i)
    have hgiven : (given (p.calls i)).count c = 1 := by simp [hi, given]
    omega
  case tree =>
    have h := hle .cleanTree rfl
    rw [Multiset.count_add, count_cleanTree_works, treeWork, Multiset.count_singleton,
      if_pos rfl] at h
    simp only [Operation.count_cleanTree_kept] at h
    omega
  case all =>
    intro i hi hothers c
    have hasked : p.times (.kindOf c) = cs.count c := by
      have h := heq i hi hothers (.kindOf c) rfl (by simp)
      rw [count_kindOf_works, count_kindOf_lost] at h
      simpa only [Operation.count_kindOf_kept, Finset.sum_const_zero, zero_add, add_zero] using h
    refine ⟨hasked, fun hc => ?_⟩
    have h := heq i hi hothers (.cleanLinks c) rfl (by simp)
    rw [count_cleanLinks_works, count_lost, if_pos hc, if_pos hc] at h
    simp only [Operation.count_cleanLinks_kept] at h
    omega

/-- Workers, searches and tries for the tree may run on one class cleaning in any number and order,
and any callback may panic: no class is handed out twice, and none is left out. -/
theorem classes_are_handed_out_once (hsource : source.Valid) (tally : Tally) (calls : ι → Call)
    (hturns : ∀ t ∈ turns, t.Agrees host) :
    HandedOut host source.rest (operate source tally calls turns) :=
  handedOut_of_counts (fun _ hq => count_kept_le hsource hturns hq)
    fun _ hi hothers _ hq htree => count_kept_eq hsource hturns hq htree hi hothers

end Run

theorem classes_are_handed_out_once_small :
    let calls : Fin 3 → Call := fun i => if i = 0 then .worker else if i = 1 then .pick else .tree
    let turns := brokenTurns smallHost (fun q => q = .kindOf ⟨0⟩)
      ([1, 1, 1, 1] ++ List.replicate 4 2 ++ List.replicate 20 0)
    let p := operate (.listed [⟨0⟩, ⟨1⟩, ⟨2⟩]) {} calls turns
    (p.calls 0 = .returned (.worked 1) ∧ p.calls 2 = .returned (.tried true) ∧
      p.log.flatMap untold = [⟨0⟩]) ∧ HandedOut smallHost [⟨0⟩, ⟨1⟩, ⟨2⟩] p := by
  refine ⟨⟨rfl, rfl, by decide +kernel⟩, ?_⟩
  have hsource : (ClassSource.listed [⟨0⟩, ⟨1⟩, ⟨2⟩]).Valid := trivial
  exact classes_are_handed_out_once hsource {} _ (brokenTurns_agrees smallHost _ _)

end PauseCleanup.ClassCleaning
