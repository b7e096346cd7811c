import PauseCleanup.Proofs.Pool.Course
import PauseCleanup.Proofs.SmallHost
import PauseCleanup.Proofs.Unloading.Hand
import PauseCleanup.Proofs.Unloading.Verified
import Mathlib.Data.Fin.VecNotation
/-!
# What a panic costs an unloading

When a call panics over a unit, the units behind it in its batch are in nobody's hand any more.
Nothing else is lost: at every other moment at which a call can panic its hand is empty.
-/
namespace PauseCleanup.Unloading

open Host (Query Answer)

/-- Workers with the given ids at work on an open unloading. -/
def work {ι : Type} [DecidableEq ι] (p : Plan) (t : Tallied Shared) (ids : ι → UInt32)
    (turns : List (Turn ι Answer)) : Pool ι Answer (Tallied Shared) Worker ℕ :=
  (Pool.start t fun i => Worker.start (ids i)).run (fun _ => Worker.move p) turns

def workCourse {ι : Type} [DecidableEq ι] (p : Plan) (t : Tallied Shared) (ids : ι → UInt32)
    (turns : List (Turn ι Answer)) : List (Leg ι Worker ℕ) :=
  (Pool.start t fun i => Worker.start (ids i)).course (fun _ => Worker.move p) turns

/-- What stands behind the units whose unloading panicked, in the batches that were cut short. -/
def lost {ι : Type} (course : List (Leg ι Worker ℕ)) : List UnitId :=
  course.flatMap fun e => (Worker.cutShort e.source e.target).getD []

def isTorn : Reply Answer → Bool
  | ⟨.unload .., .error _⟩ => true
  | _ => false

/-- How often the host panicked while it unloaded a unit. -/
def tears (l : List (Reply Answer)) : ℕ := l.countP isTorn

/-- A call that has panicked was one too many, or it has left the first unit to nobody else. -/
def Worker.Leaves (p : Plan) (id : UInt32) (m : Shared) (c : Progress Worker ℕ) : Prop :=
  ∀ cause, c = .panicked cause → Settled p id m ∨ ¬id < p.workers

namespace Worker

variable {may : Reply Answer → Prop} {units : List UnitId} {p : Plan} {id : UInt32}

theorem Leaves.later {m m' : Shared} {c : Progress Worker ℕ} (hlater : Later m m')
    (h : Leaves p id m c) : Leaves p id m' c :=
  fun cause hc => (h cause hc).imp_left (Settled.later hlater)

theorem move_leaves {t : Tallied Shared} {s : Worker}
    (hs : Knows may units p id t.own (.running s)) :
    (s.move p t).Ensures may (fun t' c _ => Leaves p id t'.own c) t := by
  cases s with
  | start id' =>
    obtain rfl : id' = id := hs
    simp only [move]
    split
    · intro _ h
      cases h
    · next h => exact fun _ _ => .inr h
  | enter id' =>
    intro _ h
    cases h
  | first u attempt =>
    refine (OneShot.Try.move_ensures (0 : ℕ) hs.2).lift rfl ?_ ?_ ?_
    · intro _ _ _ _ _ h
      cases h
    · intro won _ _ h
      cases won <;> cases h
    · intro _ _ h
      exact h.1.elim
  | buffer total =>
    simp only [move]
    split
    · intro _ h
      cases h
    · exact fun _ _ => .inl hs
  | claim total c =>
    refine (c.asks_next p.batch t.own.frontier).lift rfl ?_ ?_ ?_
    · intro _ _ _ _ _ h
      cases h
    · intro b _ _ h
      cases h
    · exact fun _ _ _ _ _ => .inl hs.1
  | unload total us opened =>
    cases us with
    | nil =>
      intro _ h
      cases h
    | cons u us => exact fun a _ _ _ => .inl hs
  | _ =>
    intro _ h
    cases h

def torn : Worker → Progress Worker ℕ → ℕ
  | .unload _ (_ :: _) _, .panicked _ => 1
  | _, _ => 0

theorem move_tears (t : Tallied Shared) (s : Worker) :
    (s.move p t).Ensures may (fun _ c l => tears l = torn s c) t := by
  cases s with
  | start id =>
    simp only [move]
    split <;> rfl
  | first u attempt =>
    cases attempt with
    | done won => cases won <;> rfl
    | _ => rfl
  | buffer total =>
    simp only [move]
    split <;> rfl
  | claim total c =>
    have hquiet : ∀ l : List (Reply Answer), (∀ r ∈ l, ∃ u, r.1 = .nextAlive u) → tears l = 0 := by
      intro l hl
      rw [tears, List.countP_eq_zero]
      rintro ⟨q, a⟩ hr
      obtain ⟨u, rfl⟩ := hl _ hr
      simp [isTorn]
    refine (c.asks_next p.batch t.own.frontier).lift rfl ?_ ?_ ?_
    · exact fun _ _ l hl => hquiet l hl
    · exact fun b _ => rfl
    · exact fun _ l hl => hquiet l hl
  | unload total us opened =>
    cases us with
    | nil => rfl
    | cons u us =>
      intro a _
      cases a <;> rfl
  | _ => rfl

/-- Of a batch that is cut short, one unit at least was asked for. -/
theorem length_cutShort_le {s : Worker} (hfits : Fits p (.running s)) (c : Progress Worker ℕ) :
    ((cutShort s c).getD []).length ≤ torn s c * (p.batch.val.toNat - 1) := by
  unfold cutShort
  split
  · next total u us cause =>
    have hle : us.length + 1 ≤ p.batch.val.toNat := hfits
    have hone : torn (.unload total (u :: us) true) (.panicked cause) = 1 := rfl
    rw [hone, one_mul, Option.getD_some]
    omega
  · exact Nat.zero_le _

end Worker

section

variable {ι : Type} {host : (q : Query) → Answer q} {may : Reply Answer → Prop}
  {units : List UnitId} {here : Option UnitId} {r : Request} {plan : Plan} {shared : Shared}
  {ids : ι → UInt32}

def workers (hmay : Steady host may) (hchain : Chain (fun u => host (.nextAlive u)) here units)
    (plan : Plan) (ids : ι → UInt32) : Outline may (fun _ : ι => Worker.move plan) where
  mem t := t.own.frontier.Valid units
  call i t c := (Worker.Knows may units plan (ids i) t.own c ∧ Worker.Leaves plan (ids i) t.own c) ∧
    Worker.Fits plan c
  later t t' := Later t.own t'.own
  stable h hc := ⟨⟨Worker.knows_stable h hc.1.1, hc.1.2.later h⟩, hc.2⟩
  step hm hs :=
    (((Worker.move_ensures hmay hchain hm hs.1.1).and (Worker.move_leaves hs.1.1)).and
      (Worker.move_fits hmay hchain hm hs.1.1 hs.2)).mono fun _ _ _ h =>
        ⟨⟨h.1.1.valid, ⟨h.1.1.knows, h.1.2⟩, h.2⟩, h.1.1.later, fun _ _ => trivial⟩

theorem workers_start (plan : Plan) (ids : ι → UInt32) (t : Tallied Shared)
    (hmay : Steady host may) (hchain : Chain (fun u => host (.nextAlive u)) here units)
    (hvalid : t.own.frontier.Valid units) :
    (workers hmay hchain plan ids).Holds (Pool.start t fun i => Worker.start (ids i)) := by
  refine Outline.holds_start _ hvalid fun i => ⟨⟨rfl, ?_⟩, Worker.fits_nil rfl⟩
  intro _ h
  cases h

def workerWeights (units : List UnitId) (plan : Plan) :
    Weights Answer (Tallied Shared) Worker ℕ (Multiset Query) where
  mem t := t.own.owes plan units
  call := Worker.owes plan
  reply r := chores [r]

/-- What a move loses: nothing, unless it cuts a batch short. -/
def loss (plan : Plan) (s : Worker) (c : Progress Worker ℕ) : Multiset Query :=
  plan.asks ((Worker.cutShort s c).getD [])

theorem sum_loss (course : List (Leg ι Worker ℕ)) :
    (course.map fun e => loss plan e.source e.target).sum = plan.asks (lost course) := by
  induction course with
  | nil => rfl
  | cons e course ih =>
    rw [List.map_cons, List.sum_cons, ih, loss, lost, lost, List.flatMap_cons, Plan.asks_append]

/-- Panics or not, what a move does not keep it has asked for or lost. -/
theorem move_keeps (hmay : Steady host may)
    (hchain : Chain (fun u => host (.nextAlive u)) here units) {t : Tallied Shared} {id : UInt32}
    (hf : t.own.frontier.Valid units) {s : Worker}
    (hs : Worker.Knows may units plan id t.own (.running s))
    (hfits : Worker.Fits plan (.running s)) : (s.move plan t).Ensures may
      (fun t' c l => t'.own.owes plan units + Worker.owes plan c + (l.map fun r => chores [r]).sum +
        loss plan s c = t.own.owes plan units + Worker.owes plan (.running s) +
          (l.map fun _ => 0).sum) t := by
  have hmove := ((Worker.move_ensures hmay hchain hf hs).and (Worker.move_loses t hfits)).and
    (Move.Ensures.of_panic _)
  refine hmove.mono fun t' c l h => ?_
  obtain ⟨⟨hmoved, hloses⟩, hstays⟩ := h
  rw [sum_chores, List.sum_map_zero, add_zero]
  by_cases hpanic : ∃ cause, c = .panicked cause
  · obtain ⟨cause, rfl⟩ := hpanic
    have hnone : Worker.owes plan (.panicked cause) = 0 := rfl
    rw [hstays cause rfl, hloses cause rfl, hnone, loss, add_zero, add_assoc]
  · have hcalm : ∀ cause, c ≠ .panicked cause := fun cause hc => hpanic ⟨cause, hc⟩
    have hnone : loss plan s c = 0 := by
      rw [loss, Worker.cutShort_of_calm hcalm]
      rfl
    rw [hnone, add_zero, hmoved.settles.eq hcalm]

/-- Every panic in an unloading loses less than a batch. -/
theorem length_lost_le {course : List (Leg ι Worker ℕ)}
    (hfits : ∀ e ∈ course, Worker.Fits plan (.running e.source)) : (lost course).length ≤
      (course.map fun e => Worker.torn e.source e.target).sum * (plan.batch.val.toNat - 1) := by
  induction course with
  | nil => exact Nat.zero_le _
  | cons e course ih =>
    have hhead := Worker.length_cutShort_le (hfits e (by simp)) e.target
    have htail := ih fun e' he' => hfits e' (by simp [he'])
    rw [lost, List.flatMap_cons, List.length_append, List.map_cons, List.sum_cons, Nat.add_mul]
    exact Nat.add_le_add hhead htail

theorem owes_eq_zero_of_over [Fintype ι] {p : Pool ι Answer (Tallied Shared) Worker ℕ}
    (hmay : Steady host may) (hchain : Chain (fun u => host (.nextAlive u)) here units)
    (hholds : (workers hmay hchain plan ids).Holds p) (hids : ∀ i, ids i < plan.workers)
    (hover : p.AllOver) (hzero : ∃ i, ids i = 0)
    (hreturned : ∃ i total, p.calls i = .returned total) :
    p.mem.own.owes plan units + ∑ i, Worker.owes plan (p.calls i) = 0 := by
  have hfirst : plan.first = none ∨ p.mem.own.first.taken = true := by
    obtain ⟨i, hi⟩ := hzero
    have hcall := hholds.call i
    cases hc : p.calls i with
    | running s => exact absurd hc (hover.ne_running i s)
    | returned total =>
      rw [hc] at hcall
      exact hcall.1.1.1 hi
    | panicked cause =>
      rcases hcall.1.2 cause hc with hsettled | hrange
      · exact hsettled hi
      · exact absurd (hids i) hrange
  have hword : p.mem.own.frontier.word = 0 := by
    obtain ⟨i, total, hc⟩ := hreturned
    have hcall := hholds.call i
    rw [hc] at hcall
    exact hcall.1.1.2
  have hcalls : ∑ i, Worker.owes plan (p.calls i) = 0 := by
    refine Finset.sum_eq_zero fun i _ => ?_
    cases hc : p.calls i with
    | running s => exact absurd hc (hover.ne_running i s)
    | _ => rfl
  rw [Shared.owes_eq_zero units hfirst hword, hcalls, add_zero]

variable [DecidableEq ι] [Fintype ι]

theorem sum_torn (t : Tallied Shared) (turns : List (Turn ι Answer)) :
    ((workCourse plan t ids turns).map fun e => Worker.torn e.source e.target).sum =
      tears (work plan t ids turns).log := by
  have hsum : ∀ l : List (Reply Answer), (l.map fun r => tears [r]).sum = tears l :=
    sum_map_countP isTorn
  have hcourse := Pool.sum_course (fun r => tears [r]) Worker.torn (fun (_ : ι) m s =>
    (s.move_tears (p := plan) m).mono fun _ _ l h => ((hsum l).trans h).symm) t
    (fun i => Worker.start (ids i)) turns
  rwa [hsum] at hcourse

/-- Every unit is still to be had, in one hand, asked for, or lost. -/
theorem asked_or_lost (ids : ι → UInt32)
    (hunits : Stable (fun u => host (.nextAlive u)) (host .firstAlive) units)
    (hopened : Opened host units r plan shared) (tally : Tally) {turns : List (Turn ι Answer)}
    (hturns : ∀ t ∈ turns, t.Agrees host) :
    let p := work plan ⟨shared, tally⟩ ids turns
    p.mem.own.owes plan units + ∑ i, Worker.owes plan (p.calls i) + chores p.log +
      plan.asks (lost (workCourse plan ⟨shared, tally⟩ ids turns)) = plan.asks units := by
  intro p
  obtain ⟨hvalid, howes⟩ := hopened.owes hunits.chain
  have hstart := workers_start plan ids ⟨shared, tally⟩ (steady_agreeing host) hunits.chain hvalid
  have htotal := (workerWeights units plan).total_course
    (workers (steady_agreeing host) hunits.chain plan ids) (fun _ => 0) (loss plan)
    (fun hm hs => move_keeps (steady_agreeing host) hunits.chain hm hs.1.1 hs.2) hstart hturns
  have hfresh : ∑ i, Worker.owes plan (.running (.start (ids i))) = 0 :=
    Finset.sum_eq_zero fun i _ => rfl
  rw [Weights.total_start, Weights.total, sum_loss, List.sum_map_zero, List.sum_map_zero, add_zero,
    add_zero] at htotal
  -- The total weighs what is owed, asked and lost; in the beginning all of it is owed.
  rw [← sum_chores]
  calc _ = shared.owes plan units + ∑ i, Worker.owes plan (.running (.start (ids i))) := htotal
    _ = plan.asks units := by rw [hfresh, add_zero, howes]

theorem times_add_lost_le (ids : ι → UInt32)
    (hunits : Stable (fun u => host (.nextAlive u)) (host .firstAlive) units)
    (hopened : Opened host units r plan shared) (tally : Tally) {turns : List (Turn ι Answer)}
    (hturns : ∀ t ∈ turns, t.Agrees host) {q : Query} (hq : q.isChore = true) :
    (work plan ⟨shared, tally⟩ ids turns).times q +
      (plan.asks (lost (workCourse plan ⟨shared, tally⟩ ids turns))).count q ≤
        (plan.asks units).count q := by
  have hall := asked_or_lost ids hunits hopened tally hturns
  have hcount := congrArg (Multiset.count q) hall
  rw [Multiset.count_add, Multiset.count_add, count_chores hq, ← Pool.times_eq] at hcount
  omega

theorem count_asks_unload (hnodup : units.Nodup) (plan : Plan) (u : UnitId) (pass : PassId)
    (unloading : Bool) : (plan.asks units).count (.unload u pass unloading) =
      if u ∈ units ∧ pass = plan.pass ∧ unloading = plan.unloading then 1 else 0 := by
  rw [plan.count_asks hnodup]
  simp [eq_comm (a := pass), eq_comm (a := unloading)]

/-- Once the calls are over, a unit was missed if and only if it was lost. -/
theorem missed_iff_lost (hids : ∀ i, ids i < plan.workers)
    (hunits : Stable (fun u => host (.nextAlive u)) (host .firstAlive) units)
    (hopened : Opened host units r plan shared) (tally : Tally) {turns : List (Turn ι Answer)}
    (hturns : ∀ t ∈ turns, t.Agrees host)
    (hover : (work plan ⟨shared, tally⟩ ids turns).AllOver) (hzero : ∃ i, ids i = 0)
    (hreturned : ∃ i total, (work plan ⟨shared, tally⟩ ids turns).calls i = .returned total)
    {u : UnitId} (hu : u ∈ units) :
    (work plan ⟨shared, tally⟩ ids turns).times (.unload u plan.pass plan.unloading) = 0 ↔
      u ∈ lost (workCourse plan ⟨shared, tally⟩ ids turns) := by
  have hall := asked_or_lost ids hunits hopened tally hturns
  have hholds := (workers_start plan ids ⟨shared, tally⟩ (steady_agreeing host) hunits.chain
    (hopened.owes hunits.chain).1).run hturns
  have hnone := owes_eq_zero_of_over _ _ hholds hids hover hzero hreturned
  rw [← work] at hnone
  dsimp only at hall
  rw [hnone, zero_add] at hall
  have hcount := congrArg (Multiset.count (.unload u plan.pass plan.unloading)) hall
  rw [Multiset.count_add, count_chores rfl, ← Pool.times_eq, count_asks_unload hunits.nodup,
    if_pos ⟨hu, rfl, rfl⟩] at hcount
  rw [← plan.mem_asks, ← Multiset.one_le_count_iff_mem]
  omega

theorem lost_never_asked (ids : ι → UInt32)
    (hunits : Stable (fun u => host (.nextAlive u)) (host .firstAlive) units)
    (hopened : Opened host units r plan shared) (tally : Tally) {turns later : List (Turn ι Answer)}
    (hturns : ∀ t ∈ turns, t.Agrees host) (hlater : ∀ t ∈ later, t.Agrees host) {u : UnitId}
    (hu : u ∈ lost (workCourse plan ⟨shared, tally⟩ ids turns)) :
    (work plan ⟨shared, tally⟩ ids (turns ++ later)).times
      (.unload u plan.pass plan.unloading) = 0 := by
  have hboth : ∀ t ∈ turns ++ later, t.Agrees host := fun t ht =>
    (List.mem_append.1 ht).elim (hturns t) (hlater t)
  have hle := times_add_lost_le ids hunits hopened tally hboth
    (q := .unload u plan.pass plan.unloading) rfl
  have hstill : u ∈ lost (workCourse plan ⟨shared, tally⟩ ids (turns ++ later)) := by
    rw [workCourse, Pool.course_append, lost, List.flatMap_append]
    exact List.mem_append_left _ hu
  have hpos := Multiset.count_pos.2 (plan.mem_asks.2 hstill)
  have hone : (plan.asks units).count (.unload u plan.pass plan.unloading) ≤ 1 := by
    rw [count_asks_unload hunits.nodup]
    split <;> omega
  omega

/-- What panics may cost: `gone` are the units that stand behind those at which the host panicked,
in the batches that were cut short. -/
structure Contained (units : List UnitId) (plan : Plan) (ids : ι → UInt32) (gone : List UnitId)
    (p : Pool ι Answer (Tallied Shared) Worker ℕ) : Prop where
  once : ∀ u pass unloading, p.times (.unload u pass unloading) ≤
    if u ∈ units ∧ pass = plan.pass ∧ unloading = plan.unloading then 1 else 0
  /-- Once the calls are over, a unit was missed if and only if it is one of these; provided that
  somebody has tried for the first unit, and somebody has come to the end of the others. -/
  missed : p.AllOver → (∃ i, ids i = 0) → (∃ i total, p.calls i = .returned total) →
    ∀ u ∈ units, p.times (.unload u plan.pass plan.unloading) = 0 ↔ u ∈ gone
  few : gone.length ≤ tears p.log * (plan.batch.val.toNat - 1)

variable (r ids)

/-- However workers interleave, and wherever the host panics: no unit is unloaded twice, what is
lost is what stood behind a panic in one batch, and nobody will ever unload it. -/
theorem panics_are_contained
    (hunits : Stable (fun u => host (.nextAlive u)) (host .firstAlive) units)
    {opening : List (Turn Unit Answer)} (hopening : ∀ t ∈ opening, t.Agrees host)
    (hopen : (Pool.alone (fun _ => Opening.move r) () .start opening).calls () =
      .returned (plan, shared))
    (hids : ∀ i, ids i < plan.workers) (tally : Tally) {turns : List (Turn ι Answer)}
    (hturns : ∀ t ∈ turns, t.Agrees host) :
    let gone := lost (workCourse plan ⟨shared, tally⟩ ids turns)
    Contained units plan ids gone (work plan ⟨shared, tally⟩ ids turns) ∧
      ∀ later : List (Turn ι Answer), (∀ t ∈ later, t.Agrees host) → ∀ u ∈ gone,
        (work plan ⟨shared, tally⟩ ids (turns ++ later)).times
          (.unload u plan.pass plan.unloading) = 0 := by
  intro gone
  have hopened := Opening.returned_opened (steady_agreeing host) hunits.chain hopening hopen
  refine ⟨⟨fun u pass unloading => ?_, fun hover hzero hreturned u hu => ?_, ?_⟩,
    fun later hlater u hu => ?_⟩
  · have hle := times_add_lost_le ids hunits hopened tally hturns
      (q := .unload u pass unloading) rfl
    rw [← count_asks_unload hunits.nodup]
    omega
  · exact missed_iff_lost hids hunits hopened tally hturns hover hzero hreturned hu
  · have hstart := workers_start plan ids ⟨shared, tally⟩ (steady_agreeing host) hunits.chain
      (hopened.owes hunits.chain).1
    have hfits : ∀ e ∈ workCourse plan ⟨shared, tally⟩ ids turns,
        Worker.Fits plan (.running e.source) := by
      intro e he
      obtain ⟨m, -, hcall⟩ := Pool.mem_course hstart hturns he
      exact hcall.2
    rw [← sum_torn]
    exact length_lost_le hfits
  · exact lost_never_asked ids hunits hopened tally hturns hlater hu

end

theorem panics_are_contained_small :
    let plan := { smallPlan with batch := .ofWord 2 }
    let t : Tallied Shared := ⟨{ frontier := ⟨6⟩ }, {}⟩
    let ids : Fin 2 → UInt32 := ![0, 1]
    let answer : (q : Query) → Except Panic (Answer q) := fun q =>
      if q = .unload ⟨2⟩ ⟨1⟩ true then .error (.raised (.number 0)) else .ok (smallHost q)
    let turns : List (Turn (Fin 2) Answer) :=
      (List.replicate 20 [0, 1]).flatten.map fun i => ⟨i, answer⟩
    let gone := lost (workCourse plan t ids turns)
    gone = [⟨9⟩] ∧ (work plan t ids turns).AllOver ∧ tears (work plan t ids turns).log = 1 ∧
      Contained smallUnits plan ids gone (work plan t ids turns) := by
  intro plan t ids answer turns gone
  have hagrees : ∀ t ∈ turns, t.Agrees smallHost := by
    intro t ht q
    obtain ⟨i, -, rfl⟩ := List.mem_map.1 ht
    by_cases hq : q = .unload ⟨2⟩ ⟨1⟩ true
    · exact .inr ⟨_, if_pos hq⟩
    · exact .inl (if_neg hq)
  refine ⟨by decide +kernel, ?_, by decide +kernel, ?_⟩
  · unfold Pool.AllOver
    decide +kernel
  · refine (panics_are_contained { smallRequest with batch := .ofWord 2 } ids smallUnits_stable
      (fun t ht => (calmTurns_returns smallHost (List.replicate 8 ()) t ht).agrees) rfl
      (by decide) {} hagrees).1

end PauseCleanup.Unloading
