import PauseCleanup.Proofs.MetadataRelease.Operation
import PauseCleanup.Proofs.Pool.Course
import PauseCleanup.Proofs.Pool.History
import PauseCleanup.Proofs.Pool.OwnTurns
import PauseCleanup.Proofs.SmallHost
import Mathlib.Algebra.Order.BigOperators.Group.Finset
import Mathlib.Data.Fin.VecNotation
/-!
# The metadata is released once, and not in vain

Workers and tries for the flag run on one metadata release in any order. There is one thing to win:
it lies with the flag until one call takes it, which keeps it or uses it for a release.
-/
namespace PauseCleanup.MetadataRelease

open Host (Query Answer)
open Pool (Made turnsOf)
open Operation (Story Qualified Unqualified Ran holds)

variable {ι : Type} {present : Bool}

def flags (ι : Type) (present : Bool) :
    Outline (fun _ => True) (fun _ : ι => Operation.move present) where
  mem _ := True
  call _ _ _ := True
  later t t' := t.own.Later t'.own
  stable _ _ := trivial
  step _ _ := (Operation.move_keeps present _ _).mono fun _ _ _ h =>
    ⟨⟨trivial, trivial⟩, h.1, fun _ _ => trivial⟩

/-- What each call was told. -/
def stories (present : Bool) (calls : ι → Call) : Diary (flags ι present) where
  call i t := Story present t.own (calls i)
  stable hl hc := hc.later hl
  step _ _ hs := Operation.move_tells hs

/-- Where that lies which there is to win. -/
def prize : Weights Answer (Tallied OneShot) Operation Outcome ℕ where
  mem t := t.own.left 1
  call := holds
  reply r := [r].countP fun r => r.1.isRelease

theorem operation_ne_abort (i : ι) (t : Tallied OneShot) (s : Operation) (reason : Abort) :
    (fun _ : ι => Operation.move present) i t s ≠ .abort reason :=
  (s.plain present t).ne_abort reason

variable [DecidableEq ι] {calls : ι → Call} {tally : Tally}

/-- Each move that takes the flag is one of a try for it, or of a qualified worker. -/
def TakenBy (calls : ι → Call) (q : Pool ι Answer (Tallied OneShot) Operation Outcome)
    (past : List (Made ι (Tallied OneShot) Operation)) : Prop :=
  ∀ e ∈ past, e.after.own ≠ e.before.own →
    calls e.caller = .claim ∨ Qualified (calls e.caller) (q.heard e.caller)

theorem TakenBy.after {q : Pool ι Answer (Tallied OneShot) Operation Outcome}
    {past : List (Made ι (Tallied OneShot) Operation)} (h : TakenBy calls q past) {i : ι}
    {s : Operation} {t : Tallied OneShot} (c : Progress Operation Outcome) (l : List (Reply Answer))
    (hmove : t.own ≠ q.mem.own → calls i = .claim ∨ Qualified (calls i) (q.heard i)) :
    TakenBy calls (q.after i t c l) (past ++ [⟨i, s, q.mem, t⟩]) := by
  have hmore : ∀ j, calls j = .claim ∨ Qualified (calls j) (q.heard j) →
      calls j = .claim ∨ Qualified (calls j) ((q.after i t c l).heard j) := by
    intro j hj
    refine hj.imp_right fun hq => ⟨hq.1, ?_⟩
    rw [Pool.heard_after]
    exact List.mem_append_left _ hq.2
  intro e he hne
  rcases List.mem_append.1 he with he | he
  · exact hmore _ (h e he hne)
  · obtain rfl := List.mem_singleton.1 he
    exact hmore _ (hmove hne)

def operate (present : Bool) (tally : Tally) (calls : ι → Call) (turns : List (Turn ι Answer)) :
    Pool ι Answer (Tallied OneShot) Operation Outcome :=
  (Pool.start ⟨{}, tally⟩ fun i => (calls i).start).run (fun _ => Operation.move present) turns

def operations (present : Bool) (tally : Tally) (calls : ι → Call) (turns : List (Turn ι Answer)) :
    List (Made ι (Tallied OneShot) Operation) :=
  (Pool.start ⟨{}, tally⟩ fun i => (calls i).start).history (fun _ => Operation.move present) turns

section

variable (present tally calls) (turns : List (Turn ι Answer))

theorem operate_tells : (stories present calls).Holds (operate present tally calls turns) ∧
    TakenBy calls (operate present tally calls turns) (operations present tally calls turns) := by
  let p : Pool ι Answer (Tallied OneShot) Operation Outcome :=
    Pool.start ⟨{}, tally⟩ fun i => (calls i).start
  have hp : (flags ι present).Holds p := ⟨trivial, fun _ => trivial, fun _ _ => trivial⟩
  have hstart : (stories present calls).Holds p := fun i => Story.start present {} (calls i)
  refine ⟨hstart.run hp (Turn.within_true turns), ?_⟩
  refine hstart.history_induction hp operation_ne_abort
    (fun _ hs => (Operation.move_takes hs).mono fun _ _ _ h => h)
    (fun e he => absurd he List.not_mem_nil) ?_ (Turn.within_true turns)
  intro q past i s t c l _ hq _ hmove
  exact hq.after c l hmove

variable [Fintype ι]

theorem prize_once : (operate present tally calls turns).mem.own.left 1 +
    ∑ i, (holds ((operate present tally calls turns).calls i) +
      releases ((operate present tally calls turns).heard i)) = 1 := by
  have htotal : prize.total (operate present tally calls turns) = prize.total
      (Pool.start (⟨{}, tally⟩ : Tallied OneShot) fun i => (calls i).start) := by
    apply prize.total_run_eq
    intro i t s
    refine (Operation.move_keeps present t s).mono fun t' c l h => ?_
    have hsum : (l.map prize.reply).sum = releases l := sum_map_countP _ l
    rw [Weights.Related, hsum]
    exact h.2
  have hnone : ∀ i, holds (.running (calls i).start) = 0 := by
    intro i
    cases calls i <;> rfl
  rw [Weights.total_start, Weights.total] at htotal
  simp only [prize, hnone, sum_map_countP, Finset.sum_const_zero, OneShot.left_fresh] at htotal
  rw [Finset.sum_add_distrib, ← add_assoc]
  simp only [releases, Pool.sum_countP_heard]
  exact htotal

end

theorem exists_release {l : List (Reply Answer)} (h : 0 < releases l) :
    ∃ r ∈ l, r.1.isRelease = true :=
  List.countP_pos_iff.1 h

/-- What is known of a run: what each call was told, who took the flag, and where the prize is. -/
structure Known [Fintype ι] (present : Bool) (calls : ι → Call)
    (q : Pool ι Answer (Tallied OneShot) Operation Outcome)
    (past : List (Made ι (Tallied OneShot) Operation)) : Prop where
  story : ∀ i, Story present q.mem.own (calls i) (q.calls i) (q.heard i)
  takes : TakenBy calls q past
  prize : q.mem.own.left 1 + ∑ i, (holds (q.calls i) + releases (q.heard i)) = 1

def Rests (calls : ι → Call) (q : Pool ι Answer (Tallied OneShot) Operation Outcome) (i : ι) :
    Prop :=
  (q.calls i).isOver = true ∨ q.calls i = .running (calls i).start

namespace Known

variable [Fintype ι] {q : Pool ι Answer (Tallied OneShot) Operation Outcome}
  {past : List (Made ι (Tallied OneShot) Operation)} {i j : ι}

theorem share_eq_zero (h : Known present calls q past)
    (hi : 0 < holds (q.calls i) + releases (q.heard i)) (hj : j ≠ i) :
    holds (q.calls j) = 0 ∧ releases (q.heard j) = 0 := by
  have hsplit := Finset.add_sum_erase Finset.univ
    (fun i => holds (q.calls i) + releases (q.heard i)) (Finset.mem_univ i)
  have hle : holds (q.calls j) + releases (q.heard j) ≤
      ∑ k ∈ Finset.univ.erase i, (holds (q.calls k) + releases (q.heard k)) :=
    Finset.single_le_sum (f := fun k => holds (q.calls k) + releases (q.heard k))
      (fun _ _ => Nat.zero_le _) (by simp [hj])
  have hprize := h.prize
  omega

theorem exists_share (h : Known present calls q past) (ht : q.mem.own.taken = true) :
    ∃ i, 0 < holds (q.calls i) + releases (q.heard i) := by
  have hprize := h.prize
  rw [OneShot.left_of_taken 1 ht, Nat.zero_add] at hprize
  obtain ⟨i, -, hi⟩ := Finset.exists_ne_zero_of_sum_ne_zero (hprize ▸ Nat.one_ne_zero)
  exact ⟨i, Nat.pos_of_ne_zero hi⟩

theorem releases_log_le (h : Known present calls q past) : releases q.log ≤ 1 := by
  have hprize := h.prize
  have hsum : ∑ i, releases (q.heard i) = releases q.log := q.sum_countP_heard _
  rw [Finset.sum_add_distrib] at hprize
  omega

theorem heard_of_start (h : Known present calls q past)
    (hi : q.calls i = .running (calls i).start) : q.heard i = [] := by
  have hstory := h.story i
  rw [hi] at hstory
  exact hstory.eq_nil_of_start

theorem share_of_start (h : Known present calls q past)
    (hi : q.calls i = .running (calls i).start) :
    holds (q.calls i) + releases (q.heard i) = 0 := by
  rw [h.heard_of_start hi, hi]
  cases calls i <;> rfl

theorem ran_of_rests (h : Known present calls q past) (hi : Rests calls q i)
    (hr : 0 < releases (q.heard i)) : Ran (q.calls i) (q.heard i) := by
  obtain ⟨r, hr, hrelease⟩ := exists_release hr
  rcases hi with hover | hstart
  · exact ((h.story i).of_release hr hrelease).2.2 hover
  · rw [h.heard_of_start hstart] at hr
    cases hr

theorem holds_of_rests (h : Known present calls q past) (hi : Rests calls q i)
    (hwon : q.calls i ≠ .returned (.claimed true)) : holds (q.calls i) = 0 := by
  rcases hi with hover | hstart
  · exact Operation.holds_of_over hover hwon
  · have hshare := h.share_of_start hstart
    omega

theorem taken_of_rests (h : Known present calls q past) (hq : Qualified (calls i) (q.heard i))
    (hi : Rests calls q i) : q.mem.own.taken = true := by
  rcases hi with hover | hstart
  · exact (h.story i).taken hq hover
  · have hsaw := hq.2
    rw [h.heard_of_start hstart] at hsaw
    cases hsaw

theorem exists_unique_ran (h : Known present calls q past) (hrest : ∀ i, Rests calls q i) :
    (∃! i, Ran (q.calls i) (q.heard i)) ↔
      (∃ i, Qualified (calls i) (q.heard i)) ∧ ∀ i, q.calls i ≠ .returned (.claimed true) := by
  constructor
  · rintro ⟨i, hran, -⟩
    have hpos := hran.releases_pos (h.story i)
    obtain ⟨r, hr, hrelease⟩ := exists_release hpos
    have hq := ((h.story i).of_release hr hrelease).2.1
    refine ⟨⟨i, hq⟩, fun j hwon => ?_⟩
    by_cases hj : j = i
    · exact (h.story i).ne_claimed hq true (hj ▸ hwon)
    · have hnone := (h.share_eq_zero (Nat.add_pos_right _ hpos) hj).1
      rw [hwon] at hnone
      cases hnone
  · rintro ⟨⟨i, hq⟩, hwon⟩
    obtain ⟨j, hj⟩ := h.exists_share (h.taken_of_rests hq (hrest i))
    have hheld := h.holds_of_rests (hrest j) (hwon j)
    have hpos : 0 < releases (q.heard j) := by omega
    refine ⟨j, h.ran_of_rests (hrest j) hpos, fun k hran => ?_⟩
    by_contra hk
    have hnone := (h.share_eq_zero hj hk).2
    have hsome := hran.releases_pos (h.story k)
    omega

theorem still_of_unqualified (h : Known present calls q past)
    (hu : Unqualified present (calls i) (q.heard i)) :
    ∀ e ∈ past, e.caller = i → e.after.own = e.before.own := by
  rintro e he rfl
  by_contra hne
  rcases h.takes e he hne with hclaim | hq
  · obtain ⟨unloading, hworker, -⟩ := hu
    rw [hclaim] at hworker
    cases hworker
  · exact ((h.story e.caller).of_unqualified hu).2.1 hq

theorem ran_of_qualified (h : Known present calls q past) (hq : Qualified (calls i) (q.heard i))
    (hover : (q.calls i).isOver = true) (hothers : ∀ j, j ≠ i →
      Unqualified present (calls j) (q.heard j) ∨ q.calls j = .running (calls j).start) :
    Ran (q.calls i) (q.heard i) := by
  obtain ⟨j, hj⟩ := h.exists_share (h.taken_of_rests hq (.inl hover))
  obtain rfl : j = i := by
    by_contra hne
    rcases hothers j hne with hu | hstart
    · obtain ⟨hr, hh⟩ := ((h.story j).of_unqualified hu).1
      omega
    · have hshare := h.share_of_start hstart
      omega
  have hheld := h.holds_of_rests (.inl hover) ((h.story j).ne_claimed hq true)
  exact h.ran_of_rests (.inl hover) (by omega)

end Known

/-- What has come of calls on a metadata release. -/
structure ReleasedOnce (present : Bool) (calls : ι → Call)
    (q : Pool ι Answer (Tallied OneShot) Operation Outcome)
    (past : List (Made ι (Tallied OneShot) Operation)) : Prop where
  once : releases q.log ≤ 1
  unloaded : ∀ r ∈ q.log, r.1.isRelease = true → r.1 = .releaseMetadata true
  last : ∀ before r after, q.log = before ++ r :: after → r.1.isRelease = true → releases after = 0
  /-- When no call is on its way, one worker has released the metadata, or panicked while it did,
  if and only if some worker was qualified and no try has won the flag. -/
  served : (∀ i, Rests calls q i) → ((∃! i, Ran (q.calls i) (q.heard i)) ↔
    (∃ i, Qualified (calls i) (q.heard i)) ∧ ∀ i, q.calls i ≠ .returned (.claimed true))
  unqualified : ∀ i, Unqualified present (calls i) (q.heard i) → releases (q.heard i) = 0 ∧
    (∀ e ∈ past, e.caller = i → e.after.own = e.before.own) ∧
      ((q.calls i).isOver = true → q.calls i = .returned (.worked false))
  unspoiled : ∀ i, Qualified (calls i) (q.heard i) → (q.calls i).isOver = true →
    (∀ j, j ≠ i → Unqualified present (calls j) (q.heard j) ∨
      q.calls j = .running (calls j).start) → Ran (q.calls i) (q.heard i)

theorem Known.releasedOnce [Fintype ι] {q : Pool ι Answer (Tallied OneShot) Operation Outcome}
    {past : List (Made ι (Tallied OneShot) Operation)} (h : Known present calls q past) :
    ReleasedOnce present calls q past where
  once := h.releases_log_le
  unloaded := by
    intro r hr hrelease
    obtain ⟨i, hi⟩ := Pool.exists_mem_heard hr
    exact ((h.story i).of_release hi hrelease).1
  last := by
    intro before r after hlog hrelease
    have honce := h.releases_log_le
    simp only [hlog, releases, List.countP_append, List.countP_cons, hrelease, if_true] at honce ⊢
    omega
  served := h.exists_unique_ran
  unqualified := by
    intro i hu
    obtain ⟨⟨hr, -⟩, -, hover⟩ := (h.story i).of_unqualified hu
    exact ⟨hr, h.still_of_unqualified hu, hover⟩
  unspoiled := fun i hq hover hothers => h.ran_of_qualified hq hover hothers

/-- Workers and tries for the flag may be mixed in any number and order, whatever each worker knows
of unloaded classes and whatever the host answers to it: the metadata is released once at most, and
not left out for any other reason than that somebody keeps the flag. Each call comes to its end. -/
theorem metadata_is_released_once [Fintype ι] (present : Bool) (tally : Tally) (calls : ι → Call)
    (turns : List (Turn ι Answer)) :
    ReleasedOnce present calls (operate present tally calls turns)
        (operations present tally calls turns) ∧
      ∀ i, 6 < turnsOf i turns → ((operate present tally calls turns).calls i).isOver = true := by
  obtain ⟨hstory, htakes⟩ := operate_tells present calls tally turns
  have hknown : Known present calls (operate present tally calls turns)
      (operations present tally calls turns) :=
    ⟨hstory, htakes, prize_once present calls tally turns⟩
  refine ⟨hknown.releasedOnce, fun i hi => ?_⟩
  have hrank : ((calls i).start).toGo < turnsOf i turns :=
    Nat.lt_of_le_of_lt (Operation.toGo_start_le _) hi
  exact Pool.over_of_rank operation_ne_abort Operation.toGo
    (fun _ t s => s.move_below present t) _ hrank

def smallCalls : Fin 3 → Call := ![.worker false, .worker true, .claim]

def smallTurns : List (Turn (Fin 3) Answer) :=
  brokenTurns smallHost (fun q => q = .releaseMetadata true)
    ([0, 0, 1, 1, 1, 1, 1, 2, 2] ++ List.replicate 5 0 ++ List.replicate 2 1 ++ List.replicate 5 2)

theorem smallCalls_end :
    let q := operate true {} smallCalls smallTurns
    q.calls 0 = .returned (.worked false) ∧ q.calls 1 = .panicked (.raised (.number 7)) ∧
      q.calls 2 = .returned (.claimed false) ∧
      q.heard 1 = [saw true, freed (.error (.raised (.number 7)))] :=
  ⟨rfl, rfl, rfl, rfl⟩

theorem metadata_is_released_once_small :
    let q := operate true {} smallCalls smallTurns
    (∀ i, 6 < turnsOf i smallTurns) ∧ (∀ i, (q.calls i).isOver = true) ∧
      releases q.log ≤ 1 ∧ ∃! i, Ran (q.calls i) (q.heard i) := by
  intro q
  have hturns : ∀ i, 6 < turnsOf i smallTurns := by decide
  obtain ⟨hreleased, hover⟩ := metadata_is_released_once true {} smallCalls smallTurns
  have hends : ∀ i, (q.calls i).isOver = true := fun i => hover i (hturns i)
  obtain ⟨hnone, hpanicked, hlate, hheard⟩ := smallCalls_end
  have hqualified : Qualified (smallCalls 1) (q.heard 1) := ⟨rfl, by simp [q, hheard]⟩
  have htries : ∀ i, q.calls i ≠ .returned (.claimed true) := by
    rw [Fin.forall_fin_succ, Fin.forall_fin_two]
    exact ⟨by simp [q, hnone], by simp [q, hpanicked], by simp [q, hlate]⟩
  have hserved := hreleased.served fun i => .inl (hends i)
  exact ⟨hturns, hends, hreleased.once, hserved.2 ⟨⟨1, hqualified⟩, htries⟩⟩

end PauseCleanup.MetadataRelease
