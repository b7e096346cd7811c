import PauseCleanup.Proofs.TallyAfterPanic
import PauseCleanup.Proofs.Pass.Metrics
import PauseCleanup.Proofs.Pass.Recorded
/-!
# What the numbers of a pass lack after a panic

When no worker is at work, the numbers of a pass tell of all callbacks that returned, but for the
classes of calls that ended with a panic: these kept the count to themselves.
-/
namespace PauseCleanup

open Host (Query Answer)
open scoped UInt64.CommRing

def isSkipped : Reply Answer → Bool
  | ⟨.kindOf _, .ok k⟩ => !ClassLayout.isInstance k
  | _ => false

def isUnlinked : Reply Answer → Bool
  | ⟨.unlink .., .ok _⟩ => true
  | _ => false

def isRebuilt : Reply Answer → Bool
  | ⟨.cleanTree, .ok _⟩ => true
  | _ => false

def isReleased : Reply Answer → Bool
  | ⟨.releaseMetadata _, .ok _⟩ => true
  | _ => false

/-- A tally tells of all callbacks that returned. -/
structure Tally.Counts (t : Tally) (l : List (Reply Answer)) : Prop where
  units : t.units = .ofNat (unloadings l)
  cleaned : t.cleaned = .ofNat (cleanings l)
  skipped : t.skipped = .ofNat (l.countP isSkipped)
  partitions : t.partitions = .ofNat (l.countP isUnlinked)
  tree : t.treeRebuilt = l.any isRebuilt
  metadata : t.metadataReleased = l.any isReleased

theorem worth_eq (r : Reply Answer) : worth r =
    { units := .ofNat (unloadings [r])
      cleaned := .ofNat (cleanings [r])
      skipped := .ofNat ([r].countP isSkipped)
      treeRebuilt := isRebuilt r
      metadataReleased := isReleased r
      partitions := .ofNat ([r].countP isUnlinked) } := by
  obtain ⟨q, a⟩ := r
  cases a with
  | error cause => cases q <;> rfl
  | ok a =>
    cases q with
    | kindOf c => cases hi : ClassLayout.isInstance a <;>
        simp [worth, hi, isSkipped, isUnloaded, isCleaned, isUnlinked, isRebuilt, isReleased,
          unloadings, cleanings, Tally.zero_def]
    | _ => rfl

theorem sum_worth_counts (l : List (Reply Answer)) : ((l.map worth).sum).Counts l := by
  induction l with
  | nil => exact ⟨rfl, rfl, rfl, rfl, rfl, rfl⟩
  | cons r l ih =>
    obtain ⟨hunits, hcleaned, hskipped, hpartitions, htree, hmetadata⟩ := ih
    have hcount : ∀ f : Reply Answer → Bool, UInt64.ofNat ((r :: l).countP f) =
        .ofNat ([r].countP f) + .ofNat (l.countP f) := by
      intro f
      rw [← UInt64.ofNat_add, List.countP_cons (l := l), List.countP_singleton, Nat.add_comm]
    rw [List.map_cons, List.sum_cons, worth_eq, Tally.add_def]
    constructor <;> dsimp only
    · rw [hunits, unloadings, unloadings, unloadings, hcount]
    · rw [hcleaned, cleanings, cleanings, cleanings, hcount]
    · rw [hskipped, hcount]
    · rw [hpartitions, hcount]
    · rw [htree, List.any_cons]
    · rw [hmetadata, List.any_cons]

namespace Pass

namespace Worker

variable (may : Reply Answer → Prop)

/-- How many classes a worker has cleaned without having entered them. -/
def keptCleaned : Worker → ℕ
  | .classes _ s => s.keptCleaned
  | _ => 0

def keptSkipped : Worker → ℕ
  | .classes _ s => s.keptSkipped
  | _ => 0

theorem move_deeds (p : Plan) (m : Shared) (s : Worker) : (s.move p m).Ensures may
    (fun m' c l => Books (m.tally.deeds + (pending (.running s)).deeds)
      (m'.tally.deeds + (pending c).deeds) c l) m := by
  refine (books_of_code (p := p) (m := m) _ Books.deeds (fun _ => 0) ?_).mono fun _ _ _ h => ?_
  · rintro id w rfl
    simp only [add_zero, Tally.deeds_sums]
    exact w.move_deeds may p.code m.codePart
  · simpa only [add_zero, Tally.deeds_sums] using h

theorem move_torn (p : Plan) (m : Shared) (s : Worker) : (s.move p m).Ensures may
    (fun _ c _ => ∀ cause, c = .panicked cause → (pending (.running s)).deeds =
      { cleaned := .ofNat s.keptCleaned, skipped := .ofNat s.keptSkipped }) m := by
  cases s with
  | start id =>
    simp only [move]
    split <;> exact fun _ _ => rfl
  | enter id => exact fun _ _ => rfl
  | metadata id s =>
    refine (s.move_torn may p.compiler p.unloading m.metadataPart).lift rfl ?_ ?_ ?_
    · exact fun _ _ _ _ _ hc => by cases hc
    · exact fun _ _ _ hc => by cases hc
    · exact fun cause _ h _ _ => h cause rfl
  | code id s =>
    refine (s.move_torn may p.code m.codePart).lift rfl ?_ ?_ ?_
    · exact fun _ _ _ _ _ hc => by cases hc
    · exact fun _ _ _ hc => by cases hc
    · exact fun cause _ h _ _ => h cause rfl
  | table id s =>
    refine (s.move_torn may p.sweep m.tally).lift rfl ?_ ?_ ?_
    · exact fun _ _ _ _ _ hc => by cases hc
    · intro r _
      split <;> exact fun _ hc => by cases hc
    · exact fun cause _ h _ _ => h cause rfl
  | classes id s =>
    refine (s.move_torn may m.classPart).lift rfl ?_ ?_ ?_
    · exact fun _ _ _ _ _ hc => by cases hc
    · exact fun _ _ _ hc => by cases hc
    · exact fun cause _ h _ _ => h cause rfl
  | done => exact fun _ _ => rfl

/-- What a call that ends with a panic takes with it. -/
def takes (s : Worker) : Progress Worker Unit → Tally
  | .panicked _ => { cleaned := .ofNat s.keptCleaned, skipped := .ofNat s.keptSkipped }
  | _ => 0

theorem move_accounts (p : Plan) (m : Shared) (s : Worker) : (s.move p m).Ensures may
    (fun m' c l => m'.tally.deeds + (pending c).deeds + s.takes c =
      m.tally.deeds + (pending (.running s)).deeds + (l.map worth).sum) m := by
  have hmove := (((s.move_deeds may p m).and (s.move_torn may p m)).and
    (Move.Ensures.of_panic _)).and (Move.Ensures.worth_of_panic _)
  refine hmove.mono fun m' c l h => ?_
  obtain ⟨⟨⟨hbooks, htorn⟩, hmem⟩, hworth⟩ := h
  cases c with
  | panicked cause =>
    rw [hmem cause rfl, hworth cause rfl, htorn cause rfl]
    exact add_right_comm (Tally.deeds m.tally) 0 _
  | running s' => exact (add_zero _).trans (hbooks (by simp))
  | returned r => exact (add_zero _).trans (hbooks (by simp))

end Worker

namespace Opening

def Fresh : Progress Opening (Plan × Shared) → Prop
  | .running (.built _ shared) => shared.tally = {}
  | .running (.done _ shared) => shared.tally = {}
  | .returned (_, shared) => shared.tally = {}
  | _ => True

theorem move_fresh (r : Request) (l : Ledger) {s : Opening} (hs : Fresh (.running s)) :
    (s.move r l).Ensures (fun _ => True) (fun _ c _ => Fresh c) l := by
  cases s with
  | classes pass opened plan shared =>
    intro source _
    cases source with
    | error cause => exact trivial
    | ok source => exact rfl
  | sweep pass s =>
    exact (Move.Ensures.any _ ()).lift rfl (fun _ _ _ _ => trivial) (fun _ _ => trivial)
      (fun _ _ _ => trivial)
  | code pass opened s =>
    exact (Move.Ensures.any _ ()).lift rfl (fun _ _ _ _ => trivial) (fun _ _ => trivial)
      (fun _ _ _ => trivial)
  | abandon opened s cause =>
    exact (Move.Ensures.any _ ()).lift rfl (fun _ _ _ _ => trivial) (fun _ _ => trivial)
      (fun _ _ _ => trivial)
  | _ => exact hs

theorem returned_fresh {r : Request} {ledger : Ledger} {turns : List (Turn Unit Answer)}
    {plan : Plan} {shared : Shared}
    (h : (opening r ledger turns).calls () = .returned (plan, shared)) : shared.tally = {} := by
  have htold : (opening r ledger turns).Told (fun l s => s.move r l) fun _ _ c => Fresh c := by
    refine Pool.told_alone (fun _ l s hs => ?_) ?_ (Turn.within_true turns)
    · exact (move_fresh r l hs).mono fun _ _ _ h => h
    · exact trivial
  have hstory := htold.story
  rw [h] at hstory
  exact hstory

end Opening

variable {ι : Type}

/-- What calls that ended with a panic have kept to themselves, all together. -/
def lost (kept : Worker → ℕ) (course : List (Leg ι Worker Unit)) : ℕ :=
  (course.map fun e => match e.target with
    | .panicked _ => kept e.source
    | _ => 0).sum

theorem sum_takes (course : List (Leg ι Worker Unit)) :
    (course.map fun e => e.source.takes e.target).sum =
      { cleaned := .ofNat (lost Worker.keptCleaned course)
        skipped := .ofNat (lost Worker.keptSkipped course) } := by
  induction course with
  | nil => rfl
  | cons e course ih =>
    rw [List.map_cons, List.sum_cons, ih, lost, lost, lost, lost, List.map_cons, List.map_cons,
      List.sum_cons, List.sum_cons, UInt64.ofNat_add, UInt64.ofNat_add]
    cases htarget : e.target with
    | panicked cause => simp [Worker.takes, Tally.add_def]
    | running s => simp [Worker.takes, Tally.add_def, Tally.zero_def]
    | returned r => simp [Worker.takes, Tally.add_def, Tally.zero_def]

/-- No worker is at work: each call is over or has not begun. -/
def AtRest (p : Pool ι Answer Shared Worker Unit) : Prop :=
  ∀ i, (p.calls i).isOver = true ∨ ∃ id, p.calls i = .running (.start id)

variable [DecidableEq ι] [Fintype ι]

def deedWeights : Weights Answer Shared Worker Unit Tally where
  mem m := m.tally.deeds
  call c := (Worker.pending c).deeds
  reply _ := 0

omit [DecidableEq ι] [Fintype ι] in
theorem AtRest.call_eq {p : Pool ι Answer Shared Worker Unit} (h : AtRest p) (i : ι) :
    deedWeights.call (p.calls i) = 0 := by
  rcases h i with hover | ⟨id, hc⟩
  · cases hc : p.calls i with
    | running s =>
      rw [hc] at hover
      cases hover
    | returned r => rfl
    | panicked cause => rfl
  · rw [hc]
    rfl

theorem deeds_eq (plan : Plan) {shared : Shared} (hfresh : shared.tally = {}) (ids : ι → UInt32)
    (turns : List (Turn ι Answer)) (hrest : AtRest (work plan shared ids turns)) :
    (work plan shared ids turns).mem.tally.deeds +
      { cleaned := .ofNat (lost Worker.keptCleaned (workCourse plan shared ids turns))
        skipped := .ofNat (lost Worker.keptSkipped (workCourse plan shared ids turns)) } =
      ((work plan shared ids turns).log.map worth).sum := by
  have hnone : ∀ l : List (Reply Answer), (l.map deedWeights.reply).sum = 0 :=
    fun l => List.sum_map_zero
  have hstep : ∀ {m : Shared} {s : Worker}, (s.move plan m).Ensures (fun _ => True)
      (fun m' c l => deedWeights.mem m' + deedWeights.call c + (l.map deedWeights.reply).sum +
        s.takes c = deedWeights.mem m + deedWeights.call (.running s) + (l.map worth).sum) m := by
    intro m s
    refine (s.move_accounts _ plan m).mono fun m' c l h => ?_
    rw [hnone, add_zero]
    exact h
  have htotal := deedWeights.total_course (.blank (fun _ => True) fun _ : ι => Worker.move plan)
    worth Worker.takes (fun _ _ => hstep)
    (Outline.holds_blank (Pool.start shared fun i => Worker.start (ids i)))
    (Turn.within_true turns)
  have hstart : deedWeights.mem shared = 0 := by
    show shared.tally.deeds = 0
    rw [hfresh]
    rfl
  have hcalls : ∑ i, deedWeights.call ((work plan shared ids turns).calls i) = 0 :=
    Finset.sum_eq_zero fun i _ => hrest.call_eq i
  have hbegin : ∑ i, deedWeights.call (.running (.start (ids i))) = 0 :=
    Finset.sum_eq_zero fun i _ => rfl
  rw [Weights.total_start, Weights.total, hnone, Pool.log_start, List.map_nil, List.sum_nil,
    hstart, hbegin, add_zero, add_zero, add_zero, zero_add] at htotal
  -- What the course gives off is what the calls that panicked took with them.
  rw [← sum_takes]
  refine Eq.trans ?_ htotal
  show _ = _ + ∑ i, deedWeights.call ((work plan shared ids turns).calls i) + _
  rw [hcalls, add_zero]
  rfl

/-- What the numbers of a pass say, and what they lack. -/
structure Truthful (plan : Plan) (p : Pool ι Answer Shared Worker Unit)
    (course : List (Leg ι Worker Unit)) : Prop where
  /-- Only what was done to the classes in calls that panicked may be missing. -/
  counts : Tally.Counts
    { p.mem.tally with
      cleaned := p.mem.tally.cleaned + .ofNat (lost Worker.keptCleaned course)
      skipped := p.mem.tally.skipped + .ofNat (lost Worker.keptSkipped course) } p.log
  recorded : ∀ thread occasion ledger turns,
    (closing plan thread occasion ⟨p.mem, ledger⟩ turns).Ended →
      Recorded thread { pass := plan.pass, unloading := plan.unloading, counts := p.mem.tally }
        (closing plan thread occasion ⟨p.mem, ledger⟩ turns).mem.ledger

/-- Whatever the host answers and wherever it panics: whenever no worker is at work, the numbers of
the pass are true but for the classes of calls that panicked. -/
theorem numbers_lack_what_was_lost (r : Request) (ledger : Ledger)
    (first : List (Turn Unit Answer)) {plan : Plan} {shared : Shared}
    (hopen : (opening r ledger first).calls () = .returned (plan, shared)) (ids : ι → UInt32)
    (turns : List (Turn ι Answer)) (hrest : AtRest (work plan shared ids turns)) :
    Truthful plan (work plan shared ids turns) (workCourse plan shared ids turns) := by
  have hdeeds := deeds_eq plan (Opening.returned_fresh hopen) ids turns hrest
  obtain ⟨hunits, hcleaned, hskipped, hpartitions, htree, hmetadata⟩ :=
    sum_worth_counts (work plan shared ids turns).log
  rw [← hdeeds, Tally.add_def] at hunits hcleaned hskipped hpartitions htree hmetadata
  refine ⟨⟨?_, hcleaned, hskipped, ?_, ?_, ?_⟩, fun thread occasion ledger turns hended => ?_⟩
  · exact (add_zero _).symm.trans hunits
  · exact (add_zero _).symm.trans hpartitions
  · exact (Bool.or_false _).symm.trans htree
  · exact (Bool.or_false _).symm.trans hmetadata
  · exact closing_recorded hended

def silentTurns : List (Turn Unit Answer) :=
  brokenTurns smallHost (fun q => q = .kindOf ⟨2⟩) (List.replicate 90 ())

theorem silentTurns_rest : AtRest (work smallPlan smallShared (fun _ => 0) silentTurns) := by
  have hover : (work smallPlan smallShared (fun _ => 0) silentTurns).AllOver := by
    unfold Pool.AllOver
    decide +kernel
  exact fun i => .inl (hover i)

theorem numbers_lack_what_was_lost_small :
    let p := work smallPlan smallShared (fun _ => 0) silentTurns
    let course := workCourse smallPlan smallShared (fun _ => 0) silentTurns
    lost Worker.keptCleaned course = 1 ∧ lost Worker.keptSkipped course = 1 ∧
      Truthful smallPlan p course := by
  intro p course
  refine ⟨by decide +kernel, by decide +kernel, ?_⟩
  exact numbers_lack_what_was_lost smallRequest {} (calmTurns smallHost (List.replicate 15 ())) rfl
    (fun _ => 0) silentTurns silentTurns_rest

/-- The numbers of a pass do not always tell of all callbacks that returned. -/
theorem not_every_count_is_kept : ¬∀ (r : Request) (ledger : Ledger)
    (first : List (Turn Unit Answer)) (plan : Plan) (shared : Shared),
    (opening r ledger first).calls () = .returned (plan, shared) →
      ∀ (ids : Unit → UInt32) (turns : List (Turn Unit Answer)),
        AtRest (work plan shared ids turns) →
          (work plan shared ids turns).mem.tally.Counts (work plan shared ids turns).log := by
  intro h
  have hcounts := h smallRequest {} (calmTurns smallHost (List.replicate 15 ())) smallPlan
    smallShared rfl (fun _ => 0) silentTurns silentTurns_rest
  have hcleaned := hcounts.cleaned
  revert hcleaned
  decide +kernel

end Pass

end PauseCleanup
