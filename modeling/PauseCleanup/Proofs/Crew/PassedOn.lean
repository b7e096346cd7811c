import PauseCleanup.Proofs.Crew.Attendance
import PauseCleanup.Proofs.Crew.Ends
/-!
# What a crew makes of the panics of its workers

A crew comes to its end if each of its workers does that is let move again and again: it waits for
nobody else. Then it passes on the foremost panic, whatever the order in which the panics came.
-/
namespace PauseCleanup

namespace Crew

variable {Q : Type} {A : Q → Type} {Mem State : Type}

/-- The threads of the crew can be named. -/
def Nameable (c : Crew) : Prop := 0 < c.workers → c.name.contains '\x00' = false

theorem not_nameable {c : Crew} (h : ¬c.Nameable) :
    0 < c.workers ∧ c.name.contains '\x00' = true := by
  obtain ⟨hpos, hzero⟩ := Classical.not_imp.1 h
  exact ⟨hpos, by simpa using hzero⟩

namespace Shift

variable {c : Crew} {task : String} {hasThread : UInt32 → Bool}
  {move : UInt32 → Mem → State → Move A Mem State Unit} {first : UInt32 → State} {mem : Mem}
  {s s' : Shift A Mem State} {t : ShiftTurn A} {id : UInt32}

theorem atStage_of_running (c : Crew) (task : String) (hasThread : UInt32 → Bool)
    (move : UInt32 → Mem → State → Move A Mem State Unit) (mem : Mem) (first : UInt32 → State)
    (turns : List (ShiftTurn A))
    (hover : ¬((start mem first).run c task hasThread move turns).caller.isOver = true) :
    ((start mem first).run c task hasThread move turns).AtStage c hasThread first := by
  by_cases hname : c.Nameable
  · exact (run_work hname (atStage_start c hasThread mem first) turns).1
  · obtain ⟨hpos, hzero⟩ := not_nameable hname
    have hunnamed : ((start mem first).run c task hasThread move turns).Unnamed c
        (Pool.start mem first) := unnamed_run hpos hzero mem turns
    obtain ⟨hcaller, hthreads, hwork⟩ := hunnamed
    unfold AtStage
    rw [hthreads, hwork]
    rcases hcaller with he | he | he
    · rw [he]
      exact .start fun _ => rfl
    · rw [he]
      exact .spawn UInt32.zero_le fun _ _ => rfl
    · rw [he] at hover
      exact absurd rfl hover

theorem Step.over_stays (hs : Step c hasThread move s t s')
    (hover : (s.work.calls id).isOver = true) : s'.work.calls id = s.work.calls id := by
  rcases hs.work with he | ⟨i, -, he⟩
  · rw [he]
  · rw [he]
    by_cases hi : id = i
    · subst hi
      rw [Pool.turn_of_over move s.work hover]
    · exact Pool.calls_turn_of_ne move s.work hi

/-- In a turn the calling thread stays where it is, or it comes nearer to its end. -/
theorem Step.waits_or_lower (hstage : ¬s.caller.isOver = true → s.AtStage c hasThread first)
    (hs : Step c hasThread move s t s') :
    ((s'.caller = s.caller ∧ s'.threads = s.threads) ∧
        ((∃ id, s.Serves id t.caller) ∨ s.Rests t.caller)) ∨
      Run.rank c.workers.toNat s'.caller < Run.rank c.workers.toNat s.caller := by
  cases hs with
  | serves hid => exact .inl ⟨⟨rfl, rfl⟩, .inl ⟨_, hid⟩⟩
  | rests hrests => exact .inl ⟨⟨rfl, rfl⟩, .inr hrests⟩
  | onward _ hcaller ho =>
    have hat := hstage (by rw [hcaller]; exact Bool.false_ne_true)
    unfold AtStage at hat
    rw [hcaller] at hat ⊢
    exact .inr (ho.rank_lt hat)

section Schedule

variable {schedule : ℕ → ShiftTurn A} {state : ℕ → Shift A Mem State}

/-- Whoever is let move again and again comes to its end. -/
def Finishes (schedule : ℕ → ShiftTurn A) (state : ℕ → Shift A Mem State) (id : UInt32) : Prop :=
  (∀ n, ∃ m, n ≤ m ∧ (state m).Serves id (schedule m).caller) →
    ∃ n, ((state n).work.calls id).isOver = true

theorem over_later (hstep : ∀ n, Step c hasThread move (state n) (schedule n) (state (n + 1)))
    {n m : ℕ} (hnm : n ≤ m) (hover : ((state n).work.calls id).isOver = true) :
    ((state m).work.calls id).isOver = true := by
  induction hnm with
  | refl => exact hover
  | step _ ih => rw [(hstep _).over_stays ih]; exact ih

theorem exists_all_over
    (hstep : ∀ n, Step c hasThread move (state n) (schedule n) (state (n + 1))) {ids : List UInt32}
    (h : ∀ id ∈ ids, ∃ n, ((state n).work.calls id).isOver = true) :
    ∃ n, ∀ id ∈ ids, ((state n).work.calls id).isOver = true := by
  induction ids with
  | nil => exact ⟨0, fun id hid => absurd hid List.not_mem_nil⟩
  | cons id ids ih =>
    obtain ⟨n, hn⟩ := h id List.mem_cons_self
    obtain ⟨m, hm⟩ := ih fun j hj => h j (List.mem_cons_of_mem _ hj)
    refine ⟨max n m, fun j hj => ?_⟩
    rcases List.mem_cons.1 hj with rfl | hj
    · exact over_later hstep (Nat.le_max_left n m) hn
    · exact over_later hstep (Nat.le_max_right n m) (hm j hj)

/-- From the time `n` on, the calling thread stays where it is; its turns serve a worker or do
nothing. -/
structure Stuck (schedule : ℕ → ShiftTurn A) (state : ℕ → Shift A Mem State) (n : ℕ) : Prop where
  caller : ∀ m, n ≤ m → (state m).caller = (state n).caller
  threads : ∀ m, n ≤ m → (state m).threads = (state n).threads
  turn : ∀ m, n ≤ m → (schedule m).caller = none →
    (∃ id, (state m).Serves id none) ∨ (state m).Rests none

theorem Stuck.of_no_lower
    (hstep : ∀ n, Step c hasThread move (state n) (schedule n) (state (n + 1)))
    (hstage : ∀ n, ¬(state n).caller.isOver = true → (state n).AtStage c hasThread first) {n : ℕ}
    (hno : ∀ m, ¬Run.rank c.workers.toNat (state m).caller <
      Run.rank c.workers.toNat (state n).caller) : Stuck schedule state n := by
  have hstill : ∀ m, n ≤ m →
      (state m).caller = (state n).caller ∧ (state m).threads = (state n).threads := by
    intro m hm
    induction hm with
    | refl => exact ⟨rfl, rfl⟩
    | @step m _ ih =>
      rcases (hstep m).waits_or_lower (hstage m) with ⟨⟨hcaller, hthreads⟩, -⟩ | hlt
      · exact ⟨hcaller.trans ih.1, hthreads.trans ih.2⟩
      · rw [ih.1] at hlt
        exact absurd hlt (hno _)
  refine ⟨fun m hm => (hstill m hm).1, fun m hm => (hstill m hm).2, fun m hm hnone => ?_⟩
  rcases (hstep m).waits_or_lower (hstage m) with ⟨-, h⟩ | hlt
  · rwa [hnone] at h
  · rw [(hstill m hm).1] at hlt
    exact absurd hlt (hno _)

/-- The calling thread is not stuck for good with a worker of its own: it serves the same worker
again and again, which has an end. -/
theorem Stuck.not_onCaller
    (hstep : ∀ n, Step c hasThread move (state n) (schedule n) (state (n + 1)))
    (hmore : ∀ n, ∃ m, n ≤ m ∧ (schedule m).caller = none)
    (hfinishes : ∀ id, Finishes schedule state id) {n : ℕ} (h : Stuck schedule state n)
    {rest : List UInt32} : (state n).caller ≠ .running (.onCaller (id :: rest)) := by
  intro hcaller
  have hserves : ∀ m, n ≤ m → (schedule m).caller = none → (state m).Serves id none := by
    intro m hm hnone
    have hat := (h.caller m hm).trans hcaller
    rcases h.turn m hm hnone with ⟨j, rest', at_, hj, hrunning⟩ | hover | ⟨raised, hjoin, -⟩
    · rw [hat] at hj
      cases hj
      exact ⟨rest, at_, hat, hrunning⟩
    · rw [hat] at hover
      cases hover
    · rw [hat] at hjoin
      cases hjoin
  obtain ⟨k, hk⟩ := hfinishes id fun k => by
    obtain ⟨m, hm, hnone⟩ := hmore (max n k)
    exact ⟨m, by omega, hnone ▸ hserves m (by omega) hnone⟩
  obtain ⟨m, hm, hnone⟩ := hmore (max n k)
  obtain ⟨rest', at_, -, hrunning⟩ := hserves m (by omega) hnone
  have hend := over_later hstep (show k ≤ m by omega) hk
  rw [hrunning] at hend
  cases hend

/-- Nor does it wait for good: the threads that it waits for have turns, and ends, of their own. -/
theorem Stuck.not_join (hstep : ∀ n, Step c hasThread move (state n) (schedule n) (state (n + 1)))
    (hfair : Fair c schedule) (hfinishes : ∀ id, Finishes schedule state id) {n : ℕ}
    (h : Stuck schedule state n) (hthreads : ∀ id ∈ (state n).threads, id < c.workers)
    {raised : Option Panic} : (state n).caller ≠ .running (.join raised) := by
  intro hcaller
  have hends : ∀ id ∈ (state n).threads, ∃ k, ((state k).work.calls id).isOver = true := by
    intro id hid
    refine hfinishes id fun k => ?_
    obtain ⟨m, hm, hwho⟩ := hfair (some id) (fun j hj => Option.some.inj hj ▸ hthreads id hid)
      (max n k)
    refine ⟨m, by omega, ?_⟩
    rw [hwho]
    exact ⟨rfl, h.threads m (by omega) ▸ hid⟩
  obtain ⟨k, hk⟩ := exists_all_over hstep hends
  obtain ⟨m, hm, hnone⟩ := hfair none (by simp) (max n k)
  have hat := (h.caller m (by omega)).trans hcaller
  rcases h.turn m (by omega) hnone with ⟨j, rest, at_, hj, -⟩ | hover | ⟨_, -, id, hid, hrunning⟩
  · rw [hat] at hj
    cases hj
  · rw [hat] at hover
    cases hover
  · rw [h.threads m (by omega)] at hid
    rw [over_later hstep (show k ≤ m by omega) (hk id hid)] at hrunning
    cases hrunning

theorem exists_lower (hstep : ∀ n, Step c hasThread move (state n) (schedule n) (state (n + 1)))
    (hstage : ∀ n, ¬(state n).caller.isOver = true → (state n).AtStage c hasThread first)
    (hfair : Fair c schedule) (hfinishes : ∀ id, Finishes schedule state id) {n : ℕ}
    (hover : ¬(state n).caller.isOver = true) :
    ∃ m, Run.rank c.workers.toNat (state m).caller < Run.rank c.workers.toNat (state n).caller := by
  by_contra hno
  have hstuck : Stuck schedule state n := .of_no_lower hstep hstage (not_exists.1 hno)
  obtain ⟨m, hm, hnone⟩ := hfair none (by simp) n
  have hat := hstuck.caller m hm
  -- In each of its waits, the calling thread waits for workers that come to their ends.
  rcases hstuck.turn m hm hnone with ⟨id, rest, -, hcaller, -⟩ | hover' | ⟨raised, hcaller, -⟩
  · exact hstuck.not_onCaller hstep (hfair none (by simp)) hfinishes (hat.symm.trans hcaller)
  · rw [hat] at hover'
    exact hover hover'
  · have hthreads : ∀ id ∈ (state n).threads, id < c.workers := fun id hid =>
      (hstage n hover).threads_lt hid
    exact hstuck.not_join hstep hfair hfinishes hthreads (hat.symm.trans hcaller)

theorem ends_of_finishes
    (hstep : ∀ n, Step c hasThread move (state n) (schedule n) (state (n + 1)))
    (hstage : ∀ n, ¬(state n).caller.isOver = true → (state n).AtStage c hasThread first)
    (hfair : Fair c schedule) (hfinishes : ∀ id, Finishes schedule state id) :
    ∃ n, (state n).caller.isOver = true :=
  exists_ended_of_lower state (fun s => Run.rank c.workers.toNat s.caller)
    (fun s => s.caller.isOver = true) fun _ => exists_lower hstep hstage hfair hfinishes

end Schedule

end Shift

theorem Stage.joined_of_over {State : Type} {c : Crew} {hasThread : UInt32 → Bool}
    {first : UInt32 → State} {calls : UInt32 → Progress State Unit} {threads : List UInt32}
    {caller : Progress Run Unit} (h : Stage c hasThread first caller threads calls)
    (hover : caller.isOver = true) :
    threads = threaded hasThread c.workers ∧ ∀ id ∈ threads, (calls id).isOver = true := by
  cases h with
  | joined _ _ hjoined _ => exact ⟨rfl, hjoined⟩
  | _ => cases hover

def atWork (c : Crew) (task : String) (hasThread : UInt32 → Bool)
    (move : UInt32 → Mem → State → Move A Mem State Unit) (mem : Mem) (first : UInt32 → State)
    (turns : List (Shift.ShiftTurn A)) : Shift A Mem State :=
  (Shift.start mem first).run c task hasThread move turns

/-- How a crew that is through has passed on the panics of its workers. -/
structure PassedOn (c : Crew) (hasThread : UInt32 → Bool) (mem : Mem) (first : UInt32 → State)
    (s : Shift A Mem State) : Prop where
  joined : ∀ id ∈ s.threads, (s.work.calls id).isOver = true
  threads : c.Nameable → ∀ id, id ∈ s.threads ↔ id < c.workers ∧ hasThread id = true
  calm : c.Nameable →
    (s.caller = .returned () ↔ ∀ id cause, s.work.calls id ≠ .panicked cause)
  foremost : c.Nameable → ∀ cause,
    s.caller = .panicked cause ↔ ∃ id, Foremost hasThread s.work.calls id cause
  unnamed : ¬c.Nameable → s.caller = .panicked (.fault (.zeroInThreadName (c.threadName 0))) ∧
    s.threads = [] ∧ s.work = Pool.start mem first

variable {c : Crew} {hasThread : UInt32 → Bool} {mem : Mem} {first : UInt32 → State}

theorem PassedOn.of_stage {s : Shift A Mem State} (hname : c.Nameable)
    (h : s.AtStage c hasThread first) (hover : s.caller.isOver = true) :
    PassedOn c hasThread mem first s := by
  obtain ⟨hthreads, hjoined⟩ := Stage.joined_of_over h hover
  constructor
  case joined => exact hjoined
  case threads =>
    intro _ id
    rw [hthreads, mem_threaded]
  case calm =>
    intro _
    rcases Stage.foremost h hover with ⟨hcaller, hcalm⟩ | ⟨id, cause, -, hforemost, hcaller⟩
    · exact iff_of_true hcaller hcalm
    · refine iff_of_false (by simp [hcaller]) fun hcalm => ?_
      exact hcalm id cause hforemost.1
  case foremost =>
    intro _ cause
    rcases Stage.foremost h hover with ⟨hcaller, hcalm⟩ | ⟨id, cause', -, hforemost, hcaller⟩
    · refine iff_of_false (by simp [hcaller]) ?_
      rintro ⟨id, hforemost⟩
      exact hcalm id cause hforemost.1
    · rw [hcaller]
      constructor
      · intro he
        rw [← Progress.panicked.inj he]
        exact ⟨id, hforemost⟩
      · rintro ⟨j, hj⟩
        rw [(hforemost.unique hj).2]
  case unnamed => exact fun hno => absurd hname hno

theorem PassedOn.of_unnamed {s : Shift A Mem State} (hname : ¬c.Nameable)
    (h : s.Unnamed c (Pool.start mem first)) (hover : s.caller.isOver = true) :
    PassedOn c hasThread mem first s where
  joined id hid := absurd hid (by rw [h.threads]; exact List.not_mem_nil)
  threads hno := absurd hno hname
  calm hno := absurd hno hname
  foremost hno := absurd hno hname
  unnamed _ := ⟨h.panicked hover, h.threads, h.work⟩

theorem PassedOn.caller_eq {s s' : Shift A Mem State} (h : PassedOn c hasThread mem first s)
    (h' : PassedOn c hasThread mem first s') (hover : s.caller.isOver = true)
    (hsame : ∀ id cause, s.work.calls id = .panicked cause ↔ s'.work.calls id = .panicked cause) :
    s'.caller = s.caller := by
  by_cases hname : c.Nameable
  · cases hc : s.caller with
    | running r =>
      rw [hc] at hover
      cases hover
    | returned u =>
      have hcalm := (h.calm hname).1 hc
      exact (h'.calm hname).2 fun id cause => mt (hsame id cause).2 (hcalm id cause)
    | panicked cause =>
      obtain ⟨id, hid, hbefore⟩ := (h.foremost hname cause).1 hc
      refine (h'.foremost hname cause).2 ⟨id, (hsame id cause).1 hid, fun j cause' hj => ?_⟩
      exact hbefore j cause' ((hsame j cause').2 hj)
  · rw [(h.unnamed hname).1, (h'.unnamed hname).1]

/-- Whatever the task, a crew whose workers come to their ends does so too; and then it passes on
the foremost of their panics, in whatever order they came. Only its name can keep it from that. -/
theorem foremost_panic_is_passed_on (c : Crew) (task : String) (hasThread : UInt32 → Bool)
    (move : UInt32 → Mem → State → Move A Mem State Unit) (mem : Mem) (first : UInt32 → State) :
    let shift := c.atWork task hasThread move mem first
    (∀ schedule, Shift.Fair c schedule →
      (∀ id, Shift.Finishes schedule (fun n => shift (Shift.upTo schedule n)) id) →
        ∃ n, (shift (Shift.upTo schedule n)).caller.isOver = true) ∧
    ∀ turns, (shift turns).caller.isOver = true →
      PassedOn c hasThread mem first (shift turns) ∧
      ∀ turns', (shift turns').caller.isOver = true →
        (∀ id cause, (shift turns).work.calls id = .panicked cause ↔
          (shift turns').work.calls id = .panicked cause) →
            (shift turns').caller = (shift turns).caller := by
  intro shift
  have hpassed : ∀ turns, (shift turns).caller.isOver = true →
      PassedOn c hasThread mem first (shift turns) := by
    intro turns hover
    by_cases hname : c.Nameable
    · exact .of_stage hname (Shift.run_work hname (Shift.atStage_start c hasThread mem first)
        turns).1 hover
    · obtain ⟨hpos, hzero⟩ := not_nameable hname
      exact .of_unnamed hname (Shift.unnamed_run hpos hzero mem turns) hover
  refine ⟨fun schedule hfair hfinishes => ?_, fun turns hover => ⟨hpassed turns hover, ?_⟩⟩
  · have hstep : ∀ n, Shift.Step c hasThread move (shift (Shift.upTo schedule n)) (schedule n)
        (shift (Shift.upTo schedule (n + 1))) := by
      intro n
      show Shift.Step _ _ _ _ _ (Shift.run _ _ _ _ _ _)
      rw [Shift.run_upTo_succ]
      exact Shift.step_turn c task hasThread move _ _
    exact Shift.ends_of_finishes hstep
      (fun n => Shift.atStage_of_running c task hasThread move mem first (Shift.upTo schedule n))
      hfair hfinishes
  · intro turns' hover' hsame
    exact (hpassed turns hover).caller_eq (hpassed turns' hover') hover hsame

/-- Two workers, of which only the second has a thread. -/
def pairOnErrands (turns : List (Shift.ShiftTurn Errand.Answer)) :
    Shift Errand.Answer Unit Errand :=
  errands ⟨"gang", 2⟩ "Recorder" (· = 1) turns

def panicTurn (n : ℕ) : Shift.ShiftTurn Errand.Answer where
  caller := (Shift.inTurn (A := Errand.Answer) ⟨"gang", 2⟩ (fun _ => ()) n).caller
  answer id := .error (.raised (.number id.toNat))

theorem panicTurn_fair : Shift.Fair ⟨"gang", 2⟩ panicTurn :=
  Shift.fair_inTurn (A := Errand.Answer) ⟨"gang", 2⟩ fun _ => ()

/-- The worker on its thread panics before the one that waits for the calling thread, and still
gives way to it. -/
theorem foremost_panic_is_passed_on_two :
    (∃ n, (pairOnErrands (Shift.upTo panicTurn n)).caller.isOver = true) ∧
      (pairOnErrands (Shift.upTo panicTurn 30)).caller = .panicked (.raised (.number 0)) ∧
      ∃ id, Foremost (· = 1) (pairOnErrands (Shift.upTo panicTurn 30)).work.calls id
        (.raised (.number 0)) := by
  obtain ⟨hends, hpassed⟩ :=
    foremost_panic_is_passed_on ⟨"gang", 2⟩ "Recorder" (· = 1) Errand.move () fun _ => .start
  have hcaller : (pairOnErrands (Shift.upTo panicTurn 30)).caller =
      .panicked (.raised (.number 0)) := by
    cbv
  have hover : (pairOnErrands (Shift.upTo panicTurn 30)).caller.isOver = true := by
    rw [hcaller]
    rfl
  have hname : Nameable ⟨"gang", 2⟩ := fun _ => by simp
  refine ⟨hends panicTurn panicTurn_fair fun id hserves => ?_, hcaller,
    ((hpassed _ hover).1.foremost hname _).1 hcaller⟩
  obtain ⟨m, -, hserves⟩ := hserves 0
  have hlt : id < 2 :=
    (Shift.run_work hname (Shift.atStage_start _ _ () _) (Shift.upTo panicTurn m)).1.serves_lt
      hserves
  have hid : id = 0 ∨ id = 1 := by
    have hnat : id.toNat < 2 := UInt32.lt_iff_toNat_lt.1 hlt
    rw [← UInt32.toNat_inj, ← UInt32.toNat_inj, UInt32.toNat_zero, UInt32.toNat_one]
    omega
  rcases hid with rfl | rfl
  · exact ⟨30, by cbv⟩
  · exact ⟨30, by cbv⟩

/-- Not every panic of a crew is one of its workers'. -/
theorem not_every_panic_is_a_workers : ¬∀ (c : Crew) (task : String) (hasThread : UInt32 → Bool)
    (turns : List (Shift.ShiftTurn Errand.Answer)),
    (c.errands task hasThread turns).caller.isOver = true →
      ((c.errands task hasThread turns).caller = .returned () ↔
        ∀ id cause, (c.errands task hasThread turns).work.calls id ≠ .panicked cause) := by
  intro h
  let turns : List (Shift.ShiftTurn Errand.Answer) :=
    [⟨none, fun _ => .ok ()⟩, ⟨none, fun _ => .ok ()⟩]
  have hunnamed : (errands ⟨"a\x00b", 1⟩ "Recorder" (fun _ => true) turns).Unnamed ⟨"a\x00b", 1⟩
      (Pool.start () fun _ => .start) :=
    Shift.unnamed_run (by decide) (by simp) () turns
  have hover : (errands ⟨"a\x00b", 1⟩ "Recorder" (fun _ => true) turns).caller.isOver = true := by
    cbv
  have hreturned := (h ⟨"a\x00b", 1⟩ "Recorder" (fun _ => true) turns hover).2 fun id cause => by
    rw [hunnamed.work]
    simp [Pool.start]
  rw [hunnamed.panicked hover] at hreturned
  cases hreturned

end Crew

end PauseCleanup
