import PauseCleanup.Proofs.Pass.Calm
import PauseCleanup.Proofs.Pass.Subtotals
import PauseCleanup.Proofs.Pass.Yields
import PauseCleanup.Proofs.SmallHost
import PauseCleanup.Proofs.TallyEntries
import Mathlib.Data.Fin.VecNotation
/-!
# The numbers of a pass

When the workers of a calm pass are over, its tally says what there was to do. Only how often a walk
was thrown away depends on the interleaving.
-/
namespace PauseCleanup

open Host (Query Answer)
open scoped UInt64.CommRing

namespace Pass

namespace Worker

variable {host : (q : Query) → Answer q} {may : Reply Answer → Prop} {units : List UnitId}
  {p : Plan} {id : UInt32} {here : Option UnitId} {m : Shared}

/-- What a worker has still to enter into the tally. -/
def pending : Progress Worker Unit → Tally
  | .running (.start _) => { workers := 1 }
  | .running (.enter _) => { workers := 1 }
  | .running (.metadata _ s) => MetadataRelease.Worker.pending (.running s)
  | .running (.code _ s) => Unloading.Worker.pending (.running s)
  | .running (.table _ s) => TableSweep.Worker.pending (.running s)
  | .running (.classes _ s) => ClassCleaning.Worker.pending (.running s)
  | _ => 0

/-- The books that `note` keeps of a pass are kept, if they are in the phase of the code cache, with
what the memory of this phase has `coming`. -/
theorem books_of_code (note : Tally →+ Tally) (hnote : ∀ {b a : Tally} {State Result : Type}
      {c : Progress State Result} {l : List (Reply Answer)}, Books b a c l →
        Books (note b) (note a) c l) (coming : Unloading.Shared → Tally) {s : Worker}
    (hcode : ∀ id w, s = .code id w → (w.move p.code m.codePart).Ensures may (fun t' c l =>
      Books (note m.tally.sums + coming m.code + note (Unloading.Worker.pending (.running w)))
        (note t'.tally.sums + coming t'.own + note (Unloading.Worker.pending c)) c l) m.codePart) :
    (s.move p m).Ensures may (fun m' c l =>
      Books (note m.tally.sums + coming m.code + note (pending (.running s)))
        (note m'.tally.sums + coming m'.code + note (pending c)) c l) m := by
  -- A phase other than that of the code cache leaves what is coming as it is.
  have hpart : ∀ {State Result : Type} {t t' o o' : Tally} {c : Progress State Result}
      {l : List (Reply Answer)}, Books (t + o) (t' + o') c l →
        Books (note t + coming m.code + note o) (note t' + coming m.code + note o') c l := by
    intro State Result t t' o o' c l h
    have hnoted := hnote h
    rw [map_add, map_add] at hnoted
    exact hnoted.frame _
  cases s with
  | start id =>
    simp only [move]
    split
    · exact .silent rfl
    · exact .torn
  | enter id =>
    refine hpart (.silent ?_)
    simp [pending, MetadataRelease.Worker.pending, Tally.sums, Tally.add_def, Tally.zero_def]
  | metadata id s =>
    refine (s.move_books may p.compiler p.unloading m.metadataPart).lift rfl ?_ ?_ ?_
    · exact fun t' s' l h => (hpart h).inner (by simp)
    · exact fun ran h => (hpart h).inner (by simp)
    · exact fun _ _ _ => .torn
  | code id s =>
    refine (hcode id s rfl).lift rfl ?_ ?_ ?_
    · exact fun t' s' l h => h.inner (by simp)
    · exact fun total h => h.inner (by simp)
    · exact fun _ _ _ => .torn
  | table id s =>
    refine (s.move_books may p.sweep m.tally).lift rfl ?_ ?_ ?_
    · exact fun t' s' l h => (hpart h).inner (by simp)
    · intro r h
      split <;> exact (hpart h).inner (by simp)
    · exact fun _ _ _ => .torn
  | classes id s =>
    refine (s.move_books may m.classPart).lift rfl ?_ ?_ ?_
    · exact fun t' s' l h => (hpart h).inner (by simp)
    · exact fun cleaned h => (hpart h).inner (by simp)
    · exact fun _ _ _ => .torn
  | done => exact .silent rfl

theorem move_books (hmay : Steady host may)
    (hchain : Unloading.Chain (fun u => host (.nextAlive u)) here units) (hm : Valid units m)
    {s : Worker} (hs : Knows host units p may id m (.running s)) :
    (s.move p m).Ensures may (fun m' c l =>
      Books (m.tally.sums + m.code.coming units p.code + pending (.running s))
        (m'.tally.sums + m'.code.coming units p.code + pending c) c l) m := by
  refine books_of_code (.id Tally) (fun h => h) (·.coming units p.code) ?_
  rintro id' w rfl
  exact Unloading.Worker.move_books (t := m.codePart) hmay hchain hm.frontier hs.2.2

end Worker

variable {ι : Type} {host : (q : Query) → Answer q} {units : List UnitId}
  {r : Request} {plan : Plan} {shared : Shared} {ids : ι → UInt32} {turns : List (Turn ι Answer)}

def earned (host : (q : Query) → Answer q) (q : Query) : Tally := worth ⟨q, .ok (host q)⟩

theorem earned_of_not_chore {q : Query} (h : q.isChore = false) : earned host q = 0 := by
  cases q <;> first | rfl | cases h

theorem sum_earned_kinds (cs : List ClassId) : (cs.map fun c => earned host (.kindOf c)).sum =
    (others host cs).length • { skipped := 1 } := by
  induction cs with
  | nil => rfl
  | cons c cs ih =>
    rw [List.map_cons, List.sum_cons, ih]
    cases hi : (host (.kindOf c)).isInstance with
    | true => simp [others, earned, worth, hi]
    | false =>
      simp only [others, earned, worth, hi, List.filter_cons, Bool.not_false, if_true,
        List.length_cons, succ_nsmul]
      exact add_comm _ _

theorem earned_duties [Fintype ι] : yields (earned host) (duties host units r plan ids) =
    units.length • { units := 1 } +
      (if MetadataRelease.isDue host r.compiler r.unloading then { metadataReleased := true }
        else 0) +
      (if r.unloading then
        { treeRebuilt := true } +
          ((others host (host .classSource).rest).length • { skipped := 1 } +
          (instances host (host .classSource).rest).length • { cleaned := 1 })
      else 0) +
      if plan.sweep.enabled then Fintype.card ι • { partitions := 1 } else 0 := by
  have hunits : (units.map fun u =>
      earned host (.unload u plan.code.pass plan.code.unloading)).sum =
        units.length • { units := 1 } := by
    simp [earned, worth]
  have hlinks : ∀ cs : List ClassId, (cs.map fun c => earned host (.cleanLinks c)).sum =
      cs.length • { cleaned := 1 } := by
    intro cs
    simp [earned, worth]
  have hshares : ∑ i, earned host (.unlink (ids i) plan.sweep.keeps) =
      Fintype.card ι • { partitions := 1 } := by
    simp [earned, worth]
  rw [yields_duties, hunits, sum_earned_kinds, hlinks, hshares]
  rfl

variable [DecidableEq ι]

def workCourse (p : Plan) (m : Shared) (ids : ι → UInt32) (turns : List (Turn ι Answer)) :
    List (Leg ι Worker Unit) :=
  (Pool.start m fun i => Worker.start (ids i)).course (fun _ => Worker.move p) turns

variable [Fintype ι]

/-- What the workers of a calm pass gain by the replies that they hear they keep, or give off. -/
theorem calm_total {M : Type} [AddCommMonoid M]
    (hunits : Unloading.Stable (fun u => host (.nextAlive u)) (host .firstAlive) units)
    (hsource : (host .classSource).Valid) (hfit : r.tuning.batch.fitsMemory = true)
    (hopened : Opened host units r plan shared) (hids : ∀ i, ids i < r.workers)
    (hturns : ∀ t ∈ turns, t.Returns host) (w : Weights Answer Shared Worker Unit M)
    (hreply : ∀ r, w.reply r = 0) (gain : Reply Answer → M) (emit : Worker → M)
    (hstep : ∀ {id m s}, Valid units m →
      Worker.Knows host units plan (returning host) id m (.running s) →
      (s.move plan m).Ensures (returning host) (fun m' c l => (∀ cause, c ≠ .panicked cause) →
        w.mem m' + w.call c + emit s = w.mem m + w.call (.running s) + (l.map gain).sum) m) :
    let p := work plan shared ids turns
    w.mem p.mem + ∑ i, w.call (p.calls i) +
      ((workCourse plan shared ids turns).map fun e => emit e.source).sum =
      w.mem shared + ∑ i, w.call (.running (.start (ids i))) + (p.log.map gain).sum := by
  intro p
  have hnone : ∀ l : List (Reply Answer), (l.map w.reply).sum = 0 := by
    intro l
    apply List.sum_eq_zero
    intro x hx
    obtain ⟨r, -, rfl⟩ := List.mem_map.1 hx
    exact hreply r
  have hall : ∀ {i : ι} {m : Shared} {s : Worker}, Valid units m →
      Worker.Knows host units plan (returning host) (ids i) m (.running s) →
      (s.move plan m).Ensures (returning host) (fun m' c l =>
        w.mem m' + w.call c + (l.map w.reply).sum + emit s =
          w.mem m + w.call (.running s) + (l.map gain).sum) m := by
    intro i m s hm hs
    refine calm_move hunits hfit hopened (hids i) hm hs ((hstep hm hs).mono fun _ _ _ h hcalm => ?_)
    rw [hnone, add_zero]
    exact h hcalm
  have hstart : (outline (steady_returning host) hunits.chain plan ids).Holds
      (Pool.start shared fun i => Worker.start (ids i)) :=
    holds_work hunits hsource hopened ids (List.forall_mem_nil _)
  have htotal := w.total_course _ gain (fun s _ => emit s) hall hstart hturns
  rw [Weights.total_start, Weights.total, hnone, add_zero, Pool.log_start, List.map_nil,
    List.sum_nil, add_zero] at htotal
  exact htotal

def Counting.weights (k : Counting) : Weights Answer Shared Worker Unit ℕ where
  mem _ := 0
  call := k.subtotal
  reply _ := 0

theorem sum_results_eq
    (hunits : Unloading.Stable (fun u => host (.nextAlive u)) (host .firstAlive) units)
    (hsource : (host .classSource).Valid) (hfit : r.tuning.batch.fitsMemory = true)
    (hopened : Opened host units r plan shared) (hids : ∀ i, ids i < r.workers)
    (hturns : ∀ t ∈ turns, t.Returns host)
    (hreturned : ∀ i, (work plan shared ids turns).calls i = .returned ()) (k : Counting)
    (hstep : ∀ m s, (Worker.move plan m s).Ensures (returning host) (fun _ c l => k.Keeps s c l)
      m) :
    (results k.result (workCourse plan shared ids turns)).sum =
      (work plan shared ids turns).log.countP k.counts := by
  have htotal := calm_total hunits hsource hfit hopened hids hturns k.weights (fun _ => rfl)
    (fun r => [r].countP k.counts) (fun s => (k.result s).getD 0) fun {_ m s} _ _ => by
      refine (hstep m s).mono fun m' c l h hcalm => ?_
      rw [sum_map_countP]
      show 0 + k.subtotal c + _ = 0 + k.subtotal (.running s) + _
      rw [zero_add, zero_add]
      exact h hcalm
  have hbefore : ∑ i, k.weights.call (.running (.start (ids i))) = 0 :=
    Finset.sum_eq_zero fun i _ => k.aside _ (.inl (by simp [Worker.phase]))
  have hafter : ∑ i, k.weights.call ((work plan shared ids turns).calls i) = 0 :=
    Finset.sum_eq_zero fun i _ => by rw [hreturned i]; exact k.returned
  dsimp only at htotal
  rw [hbefore, hafter, sum_results, sum_map_countP] at htotal
  simpa [Counting.weights] using htotal

/-- What there is to be counted in a pass for so many callers, if `retries` walks are thrown
away. -/
def fullTally (host : (q : Query) → Answer q) (units : List UnitId) (r : Request) (callers : ℕ)
    (retries : UInt64) : Tally where
  workers := .ofNat callers
  units := .ofNat units.length
  batches := .ofNat ((units.length - 1) ⌈/⌉ r.tuning.batch.val.toNat)
  retries := retries
  cleaned := if r.unloading then .ofNat (instances host (host .classSource).rest).length else 0
  skipped := if r.unloading then .ofNat (others host (host .classSource).rest).length else 0
  treeRebuilt := r.unloading
  metadataReleased := r.unloading && r.compiler && host .metadataEnabled
  partitions := if host .tableEnabled then .ofNat callers else 0

theorem coming_of_opened (hopened : Opened host units r plan shared)
    (hchain : Unloading.Chain (fun u => host (.nextAlive u)) (host .firstAlive) units) :
    shared.code.coming units plan.code =
      ((units.length - 1) ⌈/⌉ r.tuning.batch.val.toNat) • { batches := 1 } := by
  obtain ⟨f, hf, hcode⟩ := hopened.code.shared
  have hbatch : plan.code.batch = r.tuning.batch := by
    rw [hopened.code.plan]
    rfl
  rw [Unloading.Shared.coming, hcode, (Frontier.after_spec hchain hf).2, List.length_tail, hbatch]

def tallyWeights (units : List UnitId) (plan : Plan) : Weights Answer Shared Worker Unit Tally where
  mem m := m.tally.sums + m.code.coming units plan.code
  call := Worker.pending
  reply _ := 0

/-- When the workers of a calm pass are over, their tally is full. -/
theorem tally_eq (hunits : Unloading.Stable (fun u => host (.nextAlive u)) (host .firstAlive) units)
    (hsource : (host .classSource).Valid) (hfit : r.tuning.batch.fitsMemory = true)
    (hopened : Opened host units r plan shared) (hids : ∀ i, ids i < r.workers)
    (hturns : ∀ t ∈ turns, t.Returns host)
    (hfinished : Finished host units r plan ids (work plan shared ids turns)) :
    (work plan shared ids turns).mem.tally =
      fullTally host units r (Fintype.card ι) (work plan shared ids turns).mem.tally.retries := by
  have htotal := calm_total hunits hsource hfit hopened hids hturns (tallyWeights units plan)
    (fun _ => rfl) worth
    (fun _ => 0) fun hm hs => by
      have hbooks := Worker.move_books (steady_returning host) hunits.chain hm hs
      refine hbooks.mono fun _ _ _ h hcalm => ?_
      rw [add_zero]
      exact h hcalm
  dsimp only at htotal
  generalize work plan shared ids turns = p at hfinished htotal ⊢
  have hmem : (tallyWeights units plan).mem p.mem = p.mem.tally.sums := by
    have hnone : p.mem.code.coming units plan.code = 0 := by
      rw [Unloading.Shared.coming, Frontier.rest_of_zero _ hfinished.used, List.length_nil,
        zero_ceilDiv, zero_nsmul]
    show p.mem.tally.sums + p.mem.code.coming units plan.code = _
    rw [hnone, add_zero]
  have hcalls : ∑ i, (tallyWeights units plan).call (p.calls i) = 0 :=
    Finset.sum_eq_zero fun i _ => by rw [hfinished.returned i]; rfl
  have hstart : (tallyWeights units plan).mem shared =
      ((units.length - 1) ⌈/⌉ r.tuning.batch.val.toNat) • { batches := 1 } := by
    have hnone : shared.tally.sums = 0 := by rw [hopened.tally]; rfl
    show shared.tally.sums + shared.code.coming units plan.code = _
    rw [hnone, zero_add, coming_of_opened hopened hunits.chain]
  have hcallers : ∑ i, (tallyWeights units plan).call (.running (.start (ids i))) =
      Fintype.card ι • { workers := 1 } :=
    (Finset.sum_const _).trans (by rw [Finset.card_univ])
  -- Nothing is given off on the way: all that was heard is in the tally.
  have hzero : ((workCourse plan shared ids turns).map fun _ => (0 : Tally)).sum = 0 :=
    List.sum_map_zero
  have hsweep : plan.sweep.enabled = host .tableEnabled := by rw [hopened.sweep]
  rw [hmem, hcalls, hzero, add_zero, add_zero, hstart, hcallers,
    sum_map_eq_yields (earned host) (fun _ => rfl) (fun _ => earned_of_not_chore) hfinished.replies,
    hfinished.asked, earned_duties, hsweep] at htotal
  have hretries : p.mem.tally = { p.mem.tally.sums with retries := p.mem.tally.retries } := rfl
  rw [hretries, htotal]
  unfold MetadataRelease.isDue fullTally
  cases r.unloading <;> cases r.compiler <;> cases host .metadataEnabled <;>
    cases host .tableEnabled <;> simp [Tally.nsmul_def, Tally.add_def, Tally.zero_def]

/-- What a calm pass tells of itself in numbers. -/
structure Numbers (host : (q : Query) → Answer q) (units : List UnitId) (r : Request) (plan : Plan)
    (p : Pool ι Answer Shared Worker Unit) (course : List (Leg ι Worker Unit)) : Prop where
  metrics : ∃ retries, metrics plan p.mem =
    { pass := plan.pass
      unloading := r.unloading
      counts := fullTally host units r (Fintype.card ι) retries }
  code : (results Worker.codeResult course).sum = units.length
  classes : (results Worker.classResult course).sum =
    if r.unloading then (instances host (host .classSource).rest).length else 0

/-- How many classes an answered question has cleaned. -/
def cleaningOf (host : (q : Query) → Answer q) (q : Query) : ℕ :=
  [(⟨q, .ok (host q)⟩ : Reply Answer)].countP isCleaned

theorem cleaningOf_of_not_isChore {q : Query} (hq : q.isChore = false) : cleaningOf host q = 0 := by
  cases q <;> first | rfl | cases hq

omit [DecidableEq ι] in
theorem cleanings_of_finished {p : Pool ι Answer Shared Worker Unit}
    (hfinished : Finished host units r plan ids p) :
    p.log.countP isCleaned =
      if r.unloading then (instances host (host .classSource).rest).length else 0 := by
  rw [← sum_map_countP, sum_map_eq_yields (cleaningOf host) (fun _ => rfl)
    (fun _ => cleaningOf_of_not_isChore) hfinished.replies, hfinished.asked, yields_duties]
  simp [cleaningOf, isCleaned]

omit [DecidableEq ι] in
theorem unloadings_of_finished {p : Pool ι Answer Shared Worker Unit}
    (hfinished : Finished host units r plan ids p) : p.log.countP isUnloaded = units.length := by
  rw [← unloadings, unloadings_of_returning hfinished.replies, hfinished.asked,
    countP_unload_duties]

variable (r ids)

/-- However the workers of a calm pass interleave, its numbers are the same, and exact. -/
theorem metrics_are_exact
    (hunits : Unloading.Stable (fun u => host (.nextAlive u)) (host .firstAlive) units)
    (hsource : (host .classSource).Valid) (hfit : r.tuning.batch.fitsMemory = true)
    (ledger : Ledger) {opening : List (Turn Unit Answer)} (hopening : ∀ t ∈ opening, t.Returns host)
    (hopen : (Pool.alone (Opening.move r) ledger .start opening).calls () =
      .returned (plan, shared))
    (hids : ∀ i, ids i < r.workers) (hzero : ∃ i, ids i = 0) (hturns : ∀ t ∈ turns, t.Returns host)
    (hover : (work plan shared ids turns).AllOver) :
    Numbers host units r plan (work plan shared ids turns) (workCourse plan shared ids turns) := by
  have hopened : Opened host units r plan shared :=
    Opening.returned_opened (steady_returning host) hunits.chain hopening hopen
  have hfinished := finished hunits hsource hfit hopened hids hzero hturns hover
  refine ⟨⟨(work plan shared ids turns).mem.tally.retries, ?_⟩, ?_, ?_⟩
  · rw [metrics, hopened.unloading, ← tally_eq hunits hsource hfit hopened hids hturns hfinished]
    rfl
  · have hsum := sum_results_eq hunits hsource hfit hopened hids hturns hfinished.returned
      Worker.codeCounting fun m s => s.move_unloads _ plan m
    exact hsum.trans (unloadings_of_finished hfinished)
  · have hsum := sum_results_eq hunits hsource hfit hopened hids hturns hfinished.returned
      Worker.classCounting fun m s => s.move_cleans _ plan m
    exact hsum.trans (cleanings_of_finished hfinished)

theorem metrics_are_exact_small :
    let ids : Fin 3 → UInt32 := ![0, 1, 0]
    let turns := calmTurns smallHost (List.replicate 70 [0, 1, 2]).flatten
    let p := work smallPlan smallShared ids turns
    fullTally smallHost smallUnits smallRequest 3 p.mem.tally.retries =
        { workers := 3, units := 3, batches := 2, retries := p.mem.tally.retries, cleaned := 2,
          skipped := 1, treeRebuilt := true, metadataReleased := true, partitions := 3 } ∧
      Numbers smallHost smallUnits smallRequest smallPlan p
        (workCourse smallPlan smallShared ids turns) := by
  intro ids turns p
  refine ⟨rfl, ?_⟩
  refine metrics_are_exact smallRequest ids smallUnits_stable (UInt64.le_iff_toNat_le.2 (by decide))
    (by decide) {} (calmTurns_returns smallHost (List.replicate 15 ())) ?_ (by decide) ⟨0, rfl⟩
    (calmTurns_returns _ _) ?_
  · rfl
  · unfold Pool.AllOver
    decide +kernel

end Pass

end PauseCleanup
