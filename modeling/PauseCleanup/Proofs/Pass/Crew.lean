import PauseCleanup.Proofs.Crew.Attendance
import PauseCleanup.Proofs.Crew.Ends
import PauseCleanup.Proofs.Descents
import PauseCleanup.Proofs.Pass.CalmClosing
import PauseCleanup.Proofs.Pass.Metrics
import PauseCleanup.Proofs.Pass.Once
import PauseCleanup.Proofs.Pool.Restrict
/-!
# A crew at work on a pass

A crew of any size comes to work on a pass. Those that are too many panic before they touch
anything, so the pass is done by the others, as if they had come alone.
-/
namespace PauseCleanup

open Host (Query Answer)

theorem lt_min_iff_word {id a b : UInt32} : id < min a b ↔ id < a ∧ id < b := by
  rw [UInt32.lt_iff_toNat_lt, UInt32.toNat_min, Nat.lt_min]
  rfl

theorem Crew.card_below (k : UInt32) : Fintype.card {id : UInt32 // id < k} = k.toNat := by
  rw [Fintype.card_of_subtype (Crew.below k).toFinset fun id => by
    rw [List.mem_toFinset, Crew.mem_below]]
  have hnodup : (Crew.below k).Pairwise (· ≠ ·) := by
    refine (Crew.pairwise_below k).imp fun {a b} hlt => ?_
    rintro rfl
    exact UInt32.lt_irrefl a hlt
  rw [List.toFinset_card_of_nodup hnodup, Crew.below, List.length_map, List.length_range]

namespace Pass

open Crew (Shift)

/-- A crew at work on an open pass. -/
def crewed (c : Crew) (hasThread : UInt32 → Bool) (p : Plan) (m : Shared)
    (turns : List (Shift.ShiftTurn Answer)) : Shift Answer Shared Worker :=
  (Shift.start m Worker.start).run c taskName hasThread (fun _ => Worker.move p) turns

def tooMany (r : Request) (id : UInt32) : Panic := .fault (.workerOutOfRange id r.workers)

variable {host : (q : Query) → Answer q} {units : List UnitId} {len : UInt64} {r : Request}
  {plan : Plan} {shared : Shared} {c : Crew} {hasThread : UInt32 → Bool}
  {turns : List (Shift.ShiftTurn Answer)}

/-- The ids of those of a crew that a pass was opened for. -/
abbrev InRange (c : Crew) (r : Request) : Type := {id : UInt32 // id < min c.workers r.workers}

/-- What is known of a crew on its way. -/
structure Underway (host : (q : Query) → Answer q) (r : Request) (plan : Plan) (shared : Shared)
    (c : Crew) (hasThread : UInt32 → Bool) (s : Shift Answer Shared Worker) : Prop where
  stage : s.AtStage c hasThread Worker.start
  calm : ∀ id < r.workers, ∀ cause, s.work.calls id ≠ .panicked cause
  /-- All that was done was done by them. -/
  covers : ∃ us : List (Turn (InRange c r) Answer), (∀ u ∈ us, u.Returns host) ∧
    Pool.Covers Worker.start (tooMany r) s.work (work plan shared (fun id : InRange c r => id.1) us)

theorem underway (hunits : Unloading.Stable (fun u => host (.nextAlive u)) (host .firstAlive) units)
    (hsource : (host .classSource).Valid) (hfit : r.tuning.batch.fitsMemory = true)
    (hopened : Opened host units r plan shared) (hname : c.name.contains '\x00' = false)
    (hasThread : UInt32 → Bool) (hturns : ∀ t ∈ turns, t.Returns host) :
    Underway host r plan shared c hasThread (crewed c hasThread plan shared turns) := by
  obtain ⟨hstage, ts, hwork, hts⟩ := Shift.run_work (fun _ => hname)
    (Shift.atStage_start c hasThread shared Worker.start) turns
  have hworked : (crewed c hasThread plan shared turns).work =
      work plan shared (fun id : UInt32 => id) ts := hwork
  have hreturns : ∀ t ∈ ts, t.Returns host := by
    intro t ht
    obtain ⟨_, u, hu, he⟩ := hts t ht
    intro q
    rw [he]
    exact hturns u hu q
  refine ⟨hstage, fun id hid cause hc => ?_, ?_⟩
  · have hknows := (holds_work hunits hsource hopened (fun id : UInt32 => id) hreturns).call id
    rw [hworked] at hc
    rw [hc] at hknows
    exact not_excused hunits hfit hopened hid hknows
  · have hstart : Pool.Covers Worker.start (tooMany r)
        (Pool.start shared Worker.start : Pool UInt32 Answer Shared Worker Unit)
        (Pool.start shared fun i : InRange c r => Worker.start i) := Pool.covers_start shared
    have hfail : ∀ t ∈ ts, ¬t.caller < min c.workers r.workers → ∀ m,
        Worker.move plan m (.start t.caller) = .fail (tooMany r t.caller) := by
      intro t ht hout m
      have hrange : ¬t.caller < r.workers := fun hlt => hout (lt_min_iff_word.2 ⟨(hts t ht).1, hlt⟩)
      simp only [Worker.move, hopened.workers, if_neg hrange, tooMany]
    obtain ⟨us, hus, hcovers⟩ := hstart.run (fun _ => Worker.move plan) hfail
    refine ⟨us, fun u hu q => ?_, ?_⟩
    · obtain ⟨t, ht, he⟩ := hus u hu
      rw [he]
      exact hreturns t ht q
    · rw [hworked]
      exact hcovers

section

variable {s : Shift Answer Shared Worker}

/-- Those that the pass was opened for all return. -/
theorem Underway.returned (h : Underway host r plan shared c hasThread s)
    (hover : s.caller.isOver = true) (i : InRange c r) : s.work.calls i = .returned () := by
  obtain ⟨hcrew, hrange⟩ := lt_min_iff_word.1 i.2
  exact h.stage.returned_below hover h.calm hrange hcrew

theorem Underway.outcome (h : Underway host r plan shared c hasThread s)
    (hover : s.caller.isOver = true) :
    (s.caller = .returned () ∧ c.workers ≤ r.workers) ∨
      ∃ id, r.workers ≤ id ∧ id < c.workers ∧ s.caller = .panicked (tooMany r id) := by
  obtain ⟨us, _, hcovers⟩ := h.covers
  have hothers : ∀ id, ¬id < r.workers →
      s.work.calls id = .running (.start id) ∨ s.work.calls id = .panicked (tooMany r id) :=
    fun id hout => hcovers.others id fun hin => hout (lt_min_iff_word.1 hin).2
  rcases h.stage.outcome hover with ⟨hreturned, hall⟩ | ⟨id, cause, hid, hc, hpanicked⟩
  · refine .inl ⟨hreturned, UInt32.not_lt.1 fun hlt => ?_⟩
    have hfirst := hall r.workers hlt
    rcases hothers r.workers (UInt32.lt_irrefl _) with hc | hc <;>
      rw [hc] at hfirst <;> cases hfirst
  · have hout : ¬id < r.workers := fun hlt => h.calm id hlt cause hc
    refine .inr ⟨id, UInt32.not_lt.1 hout, hid, ?_⟩
    rcases hothers id hout with hc' | hc' <;> rw [hc'] at hc <;> cases hc
    exact hpanicked

end

/-- The pass was done once, by the workers below `k`. -/
structure DoneBy (host : (q : Query) → Answer q) (units : List UnitId) (len : UInt64) (r : Request)
    (plan : Plan) (k : UInt32) (p : Pool UInt32 Answer Shared Worker Unit) : Prop where
  unloads : ∀ u pass unloading, p.times (.unload u pass unloading) =
    if u ∈ units ∧ pass = plan.pass ∧ unloading = r.unloading then 1 else 0
  tree : p.times .cleanTree = if r.unloading then 1 else 0
  kinds : ∀ cls, p.times (.kindOf cls) = if r.unloading ∧ cls.index < len then 1 else 0
  links : ∀ cls, p.times (.cleanLinks cls) =
    if r.unloading ∧ cls.index < len ∧ (host (.kindOf cls)).isInstance then 1 else 0
  metadata : ∀ unloading, p.times (.releaseMetadata unloading) =
    if unloading ∧ r.unloading ∧ r.compiler ∧ host .metadataEnabled then 1 else 0
  table : ∀ id keeps, p.times (.unlink id keeps) =
    if keeps = false ∧ host .tableEnabled ∧ id < k then 1 else 0
  workers : (metrics plan p.mem).counts.workers = .ofNat k.toNat
  counted : Unloading.checkCount plan.code.expected p.mem.code.unloaded = none

theorem card_inRange (c : Crew) (r : Request) (id : UInt32) :
    (Finset.univ.filter fun i : InRange c r => i.1 = id).card =
      if id < min c.workers r.workers then 1 else 0 := by
  split
  · next hid =>
    have hsingle : (Finset.univ.filter fun i : InRange c r => i.1 = id) = {⟨id, hid⟩} := by
      ext i
      simp [Subtype.ext_iff]
    rw [hsingle, Finset.card_singleton]
  · next hid =>
    rw [Finset.card_eq_zero, Finset.filter_eq_empty_iff]
    rintro i - rfl
    exact hid i.2

theorem Underway.doneBy
    (hunits : Unloading.Stable (fun u => host (.nextAlive u)) (host .firstAlive) units)
    (hclasses : (host .classSource).GivesBelow len) (hfit : r.tuning.batch.fitsMemory = true)
    (hopened : Opened host units r plan shared) (hpos : 0 < c.workers)
    {s : Shift Answer Shared Worker} (h : Underway host r plan shared c hasThread s)
    (hover : s.caller.isOver = true) :
    DoneBy host units len r plan (min c.workers r.workers) s.work := by
  have hreturned := h.returned hover
  obtain ⟨us, hus, hcovers⟩ := h.covers
  have hids : ∀ i : InRange c r, i.1 < r.workers := fun i => (lt_min_iff_word.1 i.2).2
  have hrange : 0 < r.workers :=
    UInt32.lt_of_lt_of_le (by decide) (r.tuning.one_le_headcount r.machine)
  have hall : (work plan shared (fun i : InRange c r => i.1) us).AllOver := by
    intro i
    rw [← hcovers.calls i, hreturned i]
    rfl
  have hfinished := finished hunits hclasses.valid hfit hopened hids
    ⟨⟨0, lt_min_iff_word.2 ⟨hpos, hrange⟩⟩, rfl⟩ hus hall
  have htally := tally_eq hunits hclasses.valid hfit hopened hids hus hfinished
  have hdone : DoneOnce host units len r plan (fun i : InRange c r => i.1)
      (work plan shared (fun i : InRange c r => i.1) us) :=
    hfinished.doneOnce hunits hclasses hopened
  constructor
  case unloads =>
    intro u pass unloading
    rw [hcovers.times, hdone.unloads]
  case tree =>
    rw [hcovers.times, hdone.tree]
  case kinds =>
    intro cls
    rw [hcovers.times, hdone.kinds]
  case links =>
    intro cls
    rw [hcovers.times, hdone.links]
  case metadata =>
    intro unloading
    rw [hcovers.times, hdone.metadata]
  case table =>
    intro id keeps
    rw [hcovers.times, hdone.table, card_inRange]
    by_cases hid : id < min c.workers r.workers <;> simp [hid]
  case workers =>
    rw [hcovers.mem, metrics, htally]
    exact congrArg UInt64.ofNat (Crew.card_below _)
  case counted =>
    rw [hcovers.mem]
    exact hdone.counted.2

theorem Underway.untouched (hopened : Opened host units r plan shared)
    {s : Shift Answer Shared Worker} (h : Underway host r plan shared c hasThread s)
    (t : Shift.ShiftTurn Answer) {id : UInt32} (hout : ¬id < r.workers)
    (hmoved : (s.turn c taskName hasThread (fun _ => Worker.move plan) t).work.calls id ≠
      s.work.calls id) :
    (s.turn c taskName hasThread (fun _ => Worker.move plan) t).work.mem = s.work.mem ∧
      (s.turn c taskName hasThread (fun _ => Worker.move plan) t).work.asked = s.work.asked := by
  obtain ⟨us, _, hcovers⟩ := h.covers
  have hstep := Shift.step_turn c taskName hasThread (fun _ => Worker.move plan) s t
  rcases hstep.work with he | ⟨i, _, he⟩
  · exact absurd (congrArg (fun p => p.calls id) he) hmoved
  · rw [he] at hmoved ⊢
    by_cases hi : id = i
    · subst hi
      have hplan : ¬id < plan.workers := by rwa [hopened.workers]
      rcases hcovers.others id fun hin => hout (lt_min_iff_word.1 hin).2 with hc | hc
      · by_cases ha : s.work.aborted = none
        · rw [Pool.turn_of_running _ _ ha hc]
          simp only [Worker.move, if_neg hplan]
          exact ⟨rfl, rfl⟩
        · rw [Pool.turn_of_aborted _ ha]
          exact ⟨rfl, rfl⟩
      · rw [Pool.turn_of_over _ _ (by rw [hc]; rfl)]
        exact ⟨rfl, rfl⟩
    · exact absurd (Pool.calls_turn_of_ne _ _ hi) hmoved

theorem ofTuning_workers (name : String) (r : Request) :
    (Crew.ofTuning name r.tuning r.machine).workers = r.workers := by
  have hone : ¬r.tuning.headcount r.machine < 1 :=
    UInt32.not_lt.2 (r.tuning.one_le_headcount r.machine)
  exact if_neg hone

/-- What a crew that is through has done. -/
structure Completed (host : (q : Query) → Answer q) (units : List UnitId) (len : UInt64)
    (r : Request) (plan : Plan) (c : Crew) (s : Shift Answer Shared Worker) : Prop where
  done : DoneBy host units len r plan (min c.workers r.workers) s.work
  outcome : (s.caller = .returned () ∧ c.workers ≤ r.workers) ∨
    ∃ id, r.workers ≤ id ∧ id < c.workers ∧ s.caller = .panicked (tooMany r id)
  sameTuning : c = .ofTuning c.name r.tuning r.machine → s.caller = .returned ()
  closes : host .checkCode = none → ∀ thread ledger (ending : List (Turn Unit Answer)),
    (∀ t ∈ ending, t.Returns host) →
      (closing plan thread .calm ⟨s.work.mem, ledger⟩ ending).aborted = none ∧
        (19 < ending.length →
          (closing plan thread .calm ⟨s.work.mem, ledger⟩ ending).calls () = .returned ())

/-- Whatever the size of a crew, and whichever of its workers get a thread, it comes to its end in
every fair schedule, and then the pass is done. -/
theorem crew_completes_pass
    (hunits : Unloading.Stable (fun u => host (.nextAlive u)) (host .firstAlive) units)
    (hclasses : (host .classSource).GivesBelow len) (hfit : r.tuning.batch.fitsMemory = true)
    (ledger : Ledger) {opening : List (Turn Unit Answer)} (hopening : ∀ t ∈ opening, t.Returns host)
    (hopen :
      (Pool.alone (Opening.move r) ledger .start opening).calls () = .returned (plan, shared))
    (hpos : 0 < c.workers) (hname : c.name.contains '\x00' = false) (hasThread : UInt32 → Bool) :
    (∀ schedule : ℕ → Shift.ShiftTurn Answer, (∀ n, (schedule n).Returns host) →
      Shift.Fair c schedule →
        ∃ n, (crewed c hasThread plan shared (Shift.upTo schedule n)).caller.isOver = true) ∧
    ∀ turns : List (Shift.ShiftTurn Answer), (∀ t ∈ turns, t.Returns host) →
      let s := crewed c hasThread plan shared turns
      (s.caller.isOver = true → Completed host units len r plan c s) ∧
      ∀ t id, ¬id < r.workers →
        let s' := s.turn c taskName hasThread (fun _ => Worker.move plan) t
        s'.work.calls id ≠ s.work.calls id →
          s'.work.mem = s.work.mem ∧ s'.work.asked = s.work.asked := by
  have hopened : Opened host units r plan shared :=
    Opening.returned_opened (steady_returning host) hunits.chain hopening hopen
  refine ⟨fun schedule hschedule hfair => ?_, fun turns hturns => ?_⟩
  · have hstart : (outline (steady_returning host) hunits.chain plan fun id : UInt32 => id).Holds
        (Pool.start shared Worker.start) :=
      Outline.holds_start _ (hopened.valid_of_source hunits.chain hclasses.valid) fun _ => rfl
    exact Shift.ends_of_fair (fun _ _ _ _ hs => Worker.descends hs) (fun _ => hname) hstart
      taskName hschedule hfair
  · have hway := underway hunits hclasses.valid hfit hopened hname hasThread hturns
    refine ⟨fun hover => ?_, fun t id hout hmoved => hway.untouched hopened t hout hmoved⟩
    have hdone := hway.doneBy hunits hclasses hfit hopened hpos hover
    have houtcome := hway.outcome hover
    constructor
    case done => exact hdone
    case outcome => exact houtcome
    case sameTuning =>
      intro hsame
      -- A crew of the size that the pass expects has no worker that is one too many.
      rcases houtcome with ⟨hreturned, _⟩ | ⟨id, hle, hlt, _⟩
      · exact hreturned
      · rw [hsame, ofTuning_workers] at hlt
        exact absurd hlt (UInt32.not_lt.2 hle)
    case closes =>
      intro hcheck thread ledger ending hending
      exact calm_closing hdone.counted hcheck thread ledger hending

theorem crew_completes_pass_small :
    let c : Crew := ⟨"gang", 3⟩
    ∃ n, let s := crewed c (· = 1) smallPlan smallShared (Shift.upTo (Shift.inTurn c smallHost) n)
      s.caller = .panicked (tooMany smallRequest 2) ∧
        Completed smallHost smallUnits 3 smallRequest smallPlan c s := by
  intro c
  have hopen :
      (Pool.alone (Opening.move smallRequest) {} .start
        (calmTurns smallHost (List.replicate 15 ()))).calls () =
      .returned (smallPlan, smallShared) := by
    rfl
  obtain ⟨hends, hruns⟩ := crew_completes_pass (r := smallRequest) (c := c) smallUnits_stable
    (.inl rfl) (by decide) {} (calmTurns_returns smallHost (List.replicate 15 ())) hopen
    (by decide) (by simp [c]) (· = 1)
  have hreturns : ∀ n, (Shift.inTurn c smallHost n).Returns smallHost := fun _ _ => rfl
  obtain ⟨n, hover⟩ := hends _ hreturns (Shift.fair_inTurn c smallHost)
  have hturns : ∀ t ∈ Shift.upTo (Shift.inTurn c smallHost) n, t.Returns smallHost := by
    intro t ht
    obtain ⟨k, _, rfl⟩ := List.mem_map.1 ht
    exact hreturns k
  have hcompleted := (hruns _ hturns).1 hover
  refine ⟨n, ?_, hcompleted⟩
  rcases hcompleted.outcome with ⟨_, hle⟩ | ⟨id, hge, hlt, hcaller⟩
  · exact absurd hle (by decide)
  · have htwo : smallRequest.workers = 2 := by decide
    have hid : id = 2 := by
      rw [htwo, UInt32.le_iff_toNat_le] at hge
      have hlt' : id.toNat < 3 := UInt32.lt_iff_toNat_lt.1 hlt
      exact UInt32.toNat_inj.1 (Nat.le_antisymm (Nat.le_of_lt_succ hlt') hge)
    rw [hcaller, hid]

/-- A crew that cannot name its threads panics before it has done anything. -/
theorem not_every_crew_completes : ¬∀ (c : Crew) (hasThread : UInt32 → Bool)
    (turns : List (Shift.ShiftTurn Answer)), 0 < c.workers → (∀ t ∈ turns, t.Returns smallHost) →
      (crewed c hasThread smallPlan smallShared turns).caller.isOver = true →
        Completed smallHost smallUnits 3 smallRequest smallPlan c
          (crewed c hasThread smallPlan smallShared turns) := by
  intro h
  let c : Crew := ⟨"a\x00b", 1⟩
  let turns : List (Shift.ShiftTurn Answer) := calmTurns smallHost [none, none]
  have hunnamed : (crewed c (fun _ => true) smallPlan smallShared turns).Unnamed c
      (Pool.start smallShared Worker.start) :=
    Shift.unnamed_run (by decide) (by simp [c]) smallShared turns
  have hover : (crewed c (fun _ => true) smallPlan smallShared turns).caller.isOver = true := by
    cbv
  have hcompleted := h c (fun _ => true) turns (by decide) (calmTurns_returns smallHost _) hover
  have hpanicked := hunnamed.panicked hover
  rcases hcompleted.outcome with ⟨hcaller, _⟩ | ⟨id, _, _, hcaller⟩ <;>
    rw [hpanicked] at hcaller <;> cases hcaller

end Pass

end PauseCleanup
