import PauseCleanup.Proofs.Crew.Turn
import PauseCleanup.Proofs.Pool.Fair
import Mathlib.Data.FinEnum
/-!
# A crew comes to its end

If the work of a crew comes down with every move, so does the crew: there is always somebody whose
next turn brings it nearer to its end.
-/
namespace PauseCleanup

namespace Crew

variable {Q V : Type} {A : Q → Type} {Mem State : Type}

/-- How far the calling thread is from its end. -/
def Run.rank (n : ℕ) : Progress Run Unit → ℕ
  | .running .start => 3 * n + 6
  | .running (.spawn next spare) => 3 * (n - next.toNat) + spare.length + 5
  | .running (.noThread id spare) => 3 * (n - id.toNat) + spare.length + 4
  | .running (.onCaller rest) => rest.length + 4
  | .running (.join _) => 3
  | .running (.ended _) => 2
  | .running .done => 1
  | _ => 0

section

variable {c : Crew} {hasThread : UInt32 → Bool} {first : UInt32 → State}
  {calls : UInt32 → Progress State Unit} {threads threads' : List UInt32} {r : Run}
  {caller : Progress Run Unit}

theorem Onward.rank_lt (hs : Stage c hasThread first (.running r) threads calls)
    (ho : Onward c hasThread calls threads r caller threads') :
    Run.rank c.workers.toNat caller < Run.rank c.workers.toNat (.running r) := by
  cases ho with
  | enter =>
    simp only [Run.rank, UInt32.toNat_zero, List.length_nil]
    omega
  | unnamed _ _ => exact Nat.succ_pos _
  | thread hlt _ _ =>
    have hlt' := UInt32.lt_iff_toNat_lt.1 hlt
    simp only [Run.rank, toNat_succ hlt]
    omega
  | refused hlt _ _ => exact Nat.lt_succ_self _
  | allAsked _ =>
    simp only [Run.rank]
    omega
  | @noThread id spare =>
    have hlt : id < c.workers := by
      cases hs with
      | noThread hlt _ _ => exact hlt
      | joined _ _ _ hleaves => rcases hleaves.eq_of_running with he | he <;> cases he
    have hlt' := UInt32.lt_iff_toNat_lt.1 hlt
    simp only [Run.rank, toNat_succ hlt, List.length_append, List.length_singleton]
    omega
  | noneSpare => exact Nat.lt_succ_self _
  | returned _ => exact Nat.lt_succ_self _
  | panicked _ =>
    simp only [Run.rank, List.length_cons]
    omega
  | joined _ => exact Nat.lt_succ_self _
  | left => exact Nat.lt_succ_self _
  | failed => exact Nat.succ_pos _
  | done => exact Nat.one_pos

end

namespace Shift

def upTo (schedule : ℕ → ShiftTurn A) (n : ℕ) : List (ShiftTurn A) := (List.range n).map schedule

/-- The calling thread and each worker of the crew get a turn again and again. -/
def Fair (c : Crew) (schedule : ℕ → ShiftTurn A) : Prop :=
  ∀ who : Option UInt32, (∀ id, who = some id → id < c.workers) →
    ∀ n, ∃ m, n ≤ m ∧ (schedule m).caller = who

def inTurn (c : Crew) (host : (q : Q) → A q) (n : ℕ) : ShiftTurn A where
  caller :=
    if n % (c.workers.toNat + 1) = 0 then none else some (.ofNat (n % (c.workers.toNat + 1) - 1))
  answer q := .ok (host q)

theorem fair_inTurn (c : Crew) (host : (q : Q) → A q) : Fair c (inTurn c host) := by
  intro who hwho n
  have hle : n ≤ (c.workers.toNat + 1) * n := Nat.le_mul_of_pos_left n (Nat.succ_pos _)
  cases who with
  | none => exact ⟨(c.workers.toNat + 1) * n, hle, if_pos (Nat.mul_mod_right _ _)⟩
  | some id =>
    have hlt := UInt32.lt_iff_toNat_lt.1 (hwho id rfl)
    have hmod :
        ((c.workers.toNat + 1) * n + (id.toNat + 1)) % (c.workers.toNat + 1) = id.toNat + 1 := by
      rw [Nat.mul_add_mod, Nat.mod_eq_of_lt (by omega)]
    refine ⟨(c.workers.toNat + 1) * n + (id.toNat + 1), by omega, ?_⟩
    simp [inTurn, hmod]

variable {c : Crew} {hasThread : UInt32 → Bool}
  {move : UInt32 → Mem → State → Move A Mem State Unit} {first : UInt32 → State}
  {may : Reply A → Prop} {s s' : Shift A Mem State} {t : ShiftTurn A}

theorem run_upTo_succ (task : String) (schedule : ℕ → ShiftTurn A) (n : ℕ) :
    s.run c task hasThread move (upTo schedule (n + 1)) =
      (s.run c task hasThread move (upTo schedule n)).turn c task hasThread move (schedule n) := by
  rw [upTo, List.range_succ, List.map_append, run, List.foldl_append]
  rfl

/-- What is known of a shift on its way. -/
structure OnWay (c : Crew) (hasThread : UInt32 → Bool) (first : UInt32 → State)
    (o : Outline may move) (s : Shift A Mem State) : Prop where
  stage : s.AtStage c hasThread first
  holds : o.Holds s.work
  aborted : s.work.aborted = none

def height (c : Crew) (d : Descent V Mem State Unit) (s : Shift A Mem State) : ℕ ×ₗ ℕ :=
  d.height s.work (Run.rank c.workers.toNat s.caller)

variable {o : Outline may move} {d : Descent V Mem State Unit}

theorem OnWay.serves (hd : d.Suits o) (h : s.OnWay c hasThread first o) {id : UInt32}
    {who : Option UInt32} (hid : s.Serves id who) {answer : (q : Q) → Except Panic (A q)}
    (hanswer : ∀ q, may ⟨q, answer q⟩) {at_ : State}
    (hrunning : s.work.calls id = .running at_) :
    OnWay c hasThread first o { s with work := s.work.turn move ⟨id, answer⟩ } ∧
      height c d { s with work := s.work.turn move ⟨id, answer⟩ } < s.height c d := by
  have hturn : Turn.Within may (⟨id, answer⟩ : Turn UInt32 A) := hanswer
  obtain ⟨haborted, hlt⟩ := hd.turn_lt h.holds hturn h.aborted hrunning
    (Run.rank c.workers.toNat s.caller)
  exact ⟨⟨h.stage.serves hid answer, h.holds.turn hturn, haborted⟩, hlt⟩

theorem OnWay.onward (hname : 0 < c.workers → c.name.contains '\x00' = false)
    (h : s.OnWay c hasThread first o) {r : Run} {caller : Progress Run Unit} {threads : List UInt32}
    (hcaller : s.caller = .running r)
    (ho : Onward c hasThread s.work.calls s.threads r caller threads) :
    OnWay c hasThread first o { s with caller, threads } ∧
      height c d { s with caller, threads } < s.height c d := by
  have hstage := h.stage
  unfold AtStage at hstage
  rw [hcaller] at hstage
  refine ⟨⟨hstage.onward hname ho, h.holds, h.aborted⟩, ?_⟩
  have hlt := ho.rank_lt hstage
  rw [← hcaller] at hlt
  exact Prod.Lex.lt_iff.2 (.inr ⟨rfl, Nat.add_lt_add_left hlt _⟩)

theorem OnWay.step (hd : d.Suits o) (hname : 0 < c.workers → c.name.contains '\x00' = false)
    (h : s.OnWay c hasThread first o) (ht : t.Within may) (hs : Step c hasThread move s t s') :
    s'.OnWay c hasThread first o ∧ (s' = s ∨ s'.height c d < s.height c d) := by
  cases hs with
  | rests _ => exact ⟨h, .inl rfl⟩
  | onward _ hcaller ho =>
    obtain ⟨hway, hlt⟩ := h.onward (d := d) hname hcaller ho
    exact ⟨hway, .inr hlt⟩
  | @serves id hid =>
    cases hc : s.work.calls id with
    | running at_ =>
      obtain ⟨hway, hlt⟩ := h.serves hd hid ht hc
      exact ⟨hway, .inr hlt⟩
    | _ =>
      have hsame : s.work.turn move ⟨id, t.answer⟩ = s.work :=
        Pool.turn_of_over move s.work (by rw [hc]; rfl)
      rw [hsame]
      exact ⟨h, .inl rfl⟩

/-- While the crew is at work, there is somebody whose next turn brings it nearer to its end. -/
theorem OnWay.exists_mover (hd : d.Suits o)
    (hname : 0 < c.workers → c.name.contains '\x00' = false)
    (h : s.OnWay c hasThread first o) (hover : ¬s.caller.isOver = true) :
    ∃ who : Option UInt32, (∀ id, who = some id → id < c.workers) ∧
      ∀ (t : ShiftTurn A) (s' : Shift A Mem State), t.caller = who → t.Within may →
        Step c hasThread move s t s' → s'.height c d < s.height c d := by
  -- While the calling thread waits, a thread that has not ended can move; else it can move itself.
  by_cases hwaits : ∃ raised, s.caller = .running (.join raised) ∧
      ∃ id ∈ s.threads, (s.work.calls id).isOver = false
  · obtain ⟨raised, _, id, hid, hrunning⟩ := hwaits
    refine ⟨some id, fun j hj => Option.some.inj hj ▸ h.stage.threads_lt hid,
      fun t s' hwho ht hs => ?_⟩
    cases hs with
    | rests hrests =>
      rw [hwho] at hrests
      exact absurd hid hrests
    | onward hnone _ _ =>
      rw [hwho] at hnone
      cases hnone
    | serves hserves =>
      rw [hwho] at hserves
      cases hc : s.work.calls id with
      | running at_ =>
        obtain rfl := hserves.1
        exact (h.serves hd hserves ht hc).2
      | _ =>
        rw [hc] at hrunning
        cases hrunning
  · refine ⟨none, by simp, fun t s' hwho ht hs => ?_⟩
    cases hs with
    | rests hrests =>
      rw [hwho] at hrests
      exact absurd hrests (not_or.2 ⟨hover, hwaits⟩)
    | onward _ hcaller ho => exact (h.onward hname hcaller ho).2
    | serves hserves =>
      rw [hwho] at hserves
      obtain ⟨_, at_, _, hc⟩ := id hserves
      exact (h.serves hd hserves ht hc).2

/-- Whatever the schedule, if it is fair the crew comes to its end. -/
theorem ends_of_fair (hd : d.Suits o) (hname : 0 < c.workers → c.name.contains '\x00' = false)
    {mem : Mem} (hstart : o.Holds (Pool.start mem first)) (task : String)
    {schedule : ℕ → ShiftTurn A} (hturns : ∀ n, (schedule n).Within may) (hfair : Fair c schedule) :
    ∃ n, ((start mem first).run c task hasThread move (upTo schedule n)).caller.isOver = true := by
  let state : ℕ → Shift A Mem State := fun n =>
    (start mem first).run c task hasThread move (upTo schedule n)
  have hnext : ∀ n, Step c hasThread move (state n) (schedule n) (state (n + 1)) := by
    intro n
    show Step c hasThread move _ _ (run c task hasThread move _ _)
    rw [run_upTo_succ]
    exact step_turn c task hasThread move _ _
  have hway : ∀ n, (state n).OnWay c hasThread first o := by
    intro n
    induction n with
    | zero => exact ⟨atStage_start c hasThread mem first, hstart, rfl⟩
    | succ n ih => exact (ih.step hd hname (hturns n) (hnext n)).1
  refine exists_ended_of_fair state (fun n => (schedule n).caller) (height c d)
    (fun s => s.caller.isOver = true) (fun n => ?_) fun n hover => ?_
  · exact ((hway n).step hd hname (hturns n) (hnext n)).2
  · obtain ⟨who, hwho, hlower⟩ := (hway n).exists_mover hd hname hover
    refine ⟨who, fun m hsame hmover => ?_, hfair who hwho n⟩
    exact hlower (schedule m) _ hmover (hturns m) (hsame ▸ hnext m)

end Shift

end Crew

end PauseCleanup
