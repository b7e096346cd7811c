import PauseCleanup.Proofs.Crew.Stage
import PauseCleanup.Proofs.Pool.Ensures
/-!
# What a turn of a shift can do

A turn lets one worker move, takes the calling thread one step onward, or does nothing. So a shift
keeps its stage, and the work it does is an interleaving of the workers that the stage lets move.
-/
namespace PauseCleanup

namespace Crew

variable {Q : Type} {A : Q → Type} {Mem State : Type}

/-- A step of the calling thread, with the workers that got a thread before and after it. -/
inductive Onward (c : Crew) (hasThread : UInt32 → Bool) (calls : UInt32 → Progress State Unit)
    (threads : List UInt32) : Run → Progress Run Unit → List UInt32 → Prop
  | enter : Onward c hasThread calls threads .start (.running (.spawn 0 [])) threads
  | unnamed {next : UInt32} {spare : List UInt32} : next < c.workers →
    c.name.contains '\x00' = true → Onward c hasThread calls threads (.spawn next spare)
      (.panicked (.fault (.zeroInThreadName (c.threadName next)))) threads
  | thread {next : UInt32} {spare : List UInt32} : next < c.workers →
    c.name.contains '\x00' = false → hasThread next = true →
      Onward c hasThread calls threads (.spawn next spare) (.running (.spawn (next + 1) spare))
        (threads ++ [next])
  | refused {next : UInt32} {spare : List UInt32} : next < c.workers →
    c.name.contains '\x00' = false → hasThread next = false →
      Onward c hasThread calls threads (.spawn next spare) (.running (.noThread next spare)) threads
  | allAsked {next : UInt32} {spare : List UInt32} : ¬next < c.workers →
    Onward c hasThread calls threads (.spawn next spare) (.running (.onCaller spare)) threads
  | noThread {id : UInt32} {spare : List UInt32} :
    Onward c hasThread calls threads (.noThread id spare)
      (.running (.spawn (id + 1) (spare ++ [id]))) threads
  | noneSpare : Onward c hasThread calls threads (.onCaller []) (.running (.join none)) threads
  | returned {id : UInt32} {rest : List UInt32} : calls id = .returned () →
    Onward c hasThread calls threads (.onCaller (id :: rest)) (.running (.onCaller rest)) threads
  | panicked {id : UInt32} {rest : List UInt32} {cause : Panic} : calls id = .panicked cause →
    Onward c hasThread calls threads (.onCaller (id :: rest)) (.running (.join (some cause)))
      threads
  | joined {raised : Option Panic} : (∀ id ∈ threads, (calls id).isOver = true) →
    Onward c hasThread calls threads (.join raised)
      (.running (.ended (raised.or (panicsOf calls threads).head?))) threads
  | left : Onward c hasThread calls threads (.ended none) (.running .done) threads
  | failed {cause : Panic} :
    Onward c hasThread calls threads (.ended (some cause)) (.panicked cause) threads
  | done : Onward c hasThread calls threads .done (.returned ()) threads

namespace Shift

/-- Whom a turn lets move: a worker on its thread, or the first of those that wait for the calling
thread. -/
def Serves (s : Shift A Mem State) (id : UInt32) : Option UInt32 → Prop
  | some j => j = id ∧ id ∈ s.threads
  | none =>
    ∃ rest at_, s.caller = .running (.onCaller (id :: rest)) ∧ s.work.calls id = .running at_

/-- When a turn does nothing. -/
def Rests (s : Shift A Mem State) : Option UInt32 → Prop
  | some j => j ∉ s.threads
  | none => s.caller.isOver = true ∨ ∃ raised, s.caller = .running (.join raised) ∧
    ∃ id ∈ s.threads, (s.work.calls id).isOver = false

inductive Step (c : Crew) (hasThread : UInt32 → Bool)
    (move : UInt32 → Mem → State → Move A Mem State Unit) (s : Shift A Mem State)
    (t : ShiftTurn A) :
    Shift A Mem State → Prop
  | serves {id : UInt32} : s.Serves id t.caller →
    Step c hasThread move s t { s with work := s.work.turn move ⟨id, t.answer⟩ }
  | onward {r : Run} {caller : Progress Run Unit} {threads : List UInt32} : t.caller = none →
    s.caller = .running r → Onward c hasThread s.work.calls s.threads r caller threads →
      Step c hasThread move s t { s with caller, threads }
  | rests : s.Rests t.caller → Step c hasThread move s t s

variable {c : Crew} {hasThread : UInt32 → Bool}
  {move : UInt32 → Mem → State → Move A Mem State Unit} {s : Shift A Mem State} {t : ShiftTurn A}

theorem step_caller (task : String) (answer : (q : Q) → Except Panic (A q)) :
    Step c hasThread move s ⟨none, answer⟩ (s.callerTurn c task hasThread move answer) := by
  obtain ⟨caller, work, threads⟩ := s
  cases caller with
  | returned u => exact .rests (.inl rfl)
  | panicked cause => exact .rests (.inl rfl)
  | running r =>
    cases r with
    | start => exact .onward rfl rfl .enter
    | spawn next spare =>
      by_cases hlt : next < c.workers
      · by_cases hzero : c.name.contains '\x00' = true
        · simp only [callerTurn, Run.move, if_pos hlt, if_pos hzero]
          exact .onward rfl rfl (.unnamed hlt hzero)
        · cases hthread : hasThread next with
          | true =>
            simp only [callerTurn, Run.move, if_pos hlt, if_neg hzero, hthread, if_true]
            exact .onward rfl rfl (.thread hlt (Bool.eq_false_iff.2 hzero) hthread)
          | false =>
            simp only [callerTurn, Run.move, if_pos hlt, if_neg hzero, hthread, Bool.false_eq_true,
              if_false]
            exact .onward rfl rfl (.refused hlt (Bool.eq_false_iff.2 hzero) hthread)
      · simp only [callerTurn, Run.move, if_neg hlt]
        exact .onward rfl rfl (.allAsked hlt)
    | noThread id spare => exact .onward rfl rfl .noThread
    | onCaller rest =>
      cases rest with
      | nil => exact .onward rfl rfl .noneSpare
      | cons id rest =>
        simp only [callerTurn, Run.move]
        cases hid : work.calls id with
        | running at_ => exact .serves ⟨rest, at_, rfl, hid⟩
        | returned u => exact .onward rfl rfl (.returned hid)
        | panicked cause => exact .onward rfl rfl (.panicked hid)
    | join raised =>
      simp only [callerTurn, Run.move]
      by_cases hjoined : (Shift.mk (.running (.join raised)) work threads).allJoined = true
      · rw [if_pos hjoined]
        exact .onward rfl rfl (.joined (List.all_eq_true.1 hjoined))
      · rw [if_neg hjoined]
        have hsome := List.all_eq_false.1 (Bool.eq_false_iff.2 hjoined)
        exact .rests (.inr ⟨raised, rfl, by simpa using hsome⟩)
    | ended raised =>
      cases raised with
      | none => exact .onward rfl rfl .left
      | some cause => exact .onward rfl rfl .failed
    | done => exact .onward rfl rfl .done

theorem step_turn (c : Crew) (task : String) (hasThread : UInt32 → Bool)
    (move : UInt32 → Mem → State → Move A Mem State Unit) (s : Shift A Mem State)
    (t : ShiftTurn A) :
    Step c hasThread move s t (s.turn c task hasThread move t) := by
  obtain ⟨caller, answer⟩ := t
  cases caller with
  | none => exact step_caller task answer
  | some id =>
    by_cases hid : id ∈ s.threads
    · simp only [turn, if_pos hid]
      exact .serves (t := ⟨some id, answer⟩) ⟨rfl, hid⟩
    · simp only [turn, if_neg hid]
      exact .rests hid

theorem run_induction {P : Shift A Mem State → Prop} {task : String} (turns : List (ShiftTurn A))
    (h0 : P s) (step : ∀ s t s', P s → Step c hasThread move s t s' → P s') :
    P (s.run c task hasThread move turns) := by
  induction turns generalizing s with
  | nil => exact h0
  | cons t turns ih => exact ih (step s t _ h0 (step_turn c task hasThread move s t))

end Shift

section

variable {c : Crew} {hasThread : UInt32 → Bool} {first : UInt32 → State}
  {calls : UInt32 → Progress State Unit} {threads threads' : List UInt32} {r : Run}
  {caller : Progress Run Unit}

theorem Leaves.onward {e : Option Panic} (h : Leaves e (.running r))
    (ho : Onward c hasThread calls threads r caller threads') :
    Leaves e caller ∧ threads' = threads := by
  cases h with
  | ended =>
    cases ho with
    | left => exact ⟨.done, rfl⟩
    | failed => exact ⟨.panicked, rfl⟩
  | done =>
    cases ho
    exact ⟨.returned, rfl⟩

theorem Stage.onward (hname : 0 < c.workers → c.name.contains '\x00' = false)
    (h : Stage c hasThread first (.running r) threads calls)
    (ho : Onward c hasThread calls threads r caller threads') :
    Stage c hasThread first caller threads' calls := by
  cases h with
  | start hfresh =>
    cases ho
    exact .spawn UInt32.zero_le fun id _ => hfresh id
  | @spawn next _ hle hfresh =>
    cases ho with
    | unnamed hlt hzero =>
      have hpos : 0 < c.workers := UInt32.lt_of_le_of_lt UInt32.zero_le hlt
      rw [hname hpos] at hzero
      cases hzero
    | thread hlt _ hthread =>
      have hthreads : threaded hasThread (next + 1) = threaded hasThread next ++ [next] := by
        rw [threaded_succ hlt, if_pos hthread]
      have hspared : spared hasThread (next + 1) = spared hasThread next := by
        rw [spared_succ hlt, if_pos hthread]
      rw [← hthreads, ← hspared]
      refine .spawn (succ_le hlt) fun id hid => hfresh id fun hmem => hid ?_
      rw [hthreads]
      exact List.mem_append_left _ hmem
    | refused hlt _ hnone => exact .noThread hlt hnone hfresh
    | allAsked hge =>
      -- All threads were asked for: the workers without one are those that were passed over.
      have hnext : next = c.workers := UInt32.le_antisymm hle (UInt32.not_lt.1 hge)
      subst hnext
      refine .onCaller (List.nil_append _).symm (fun _ hid => absurd hid List.not_mem_nil)
        (fun id hid => hfresh id fun hmem => ?_) fun id hid => hfresh id fun hmem => ?_
      · have hnone := (mem_spared.1 (List.mem_of_mem_tail hid)).2
        rw [(mem_threaded.1 hmem).2] at hnone
        cases hnone
      · exact hid (mem_threaded.1 hmem).1
  | @noThread id _ hlt hnone hfresh =>
    cases ho
    have hthreads : threaded hasThread (id + 1) = threaded hasThread id := by
      rw [threaded_succ hlt, hnone, if_neg Bool.false_ne_true]
    have hspared : spared hasThread (id + 1) = spared hasThread id ++ [id] := by
      rw [spared_succ hlt, hnone, if_neg Bool.false_ne_true]
    rw [← hthreads, ← hspared]
    exact .spawn (succ_le hlt) fun j hj => hfresh j (hthreads ▸ hj)
  | @onCaller past _ _ hsplit hpast hrest hfresh =>
    cases ho with
    | noneSpare =>
      rw [List.append_nil] at hsplit
      exact .join (.returned fun id hid => hpast id (hsplit ▸ hid)) hfresh
    | @returned id rest hid =>
      -- The worker that has just returned joins those before it.
      have hsplit' : spared hasThread c.workers = (past ++ [id]) ++ rest := by simpa using hsplit
      refine .onCaller hsplit' (fun j hj => ?_)
        (fun j hj => hrest j (List.mem_of_mem_tail hj)) hfresh
      rcases List.mem_append.1 hj with hj | hj
      · exact hpast j hj
      · rwa [List.mem_singleton.1 hj]
    | panicked hid => exact .join (.raised hsplit hpast hid hrest) hfresh
  | join hspares hfresh =>
    cases ho with
    | joined hover => exact .joined hspares hfresh hover .ended
  | joined hspares hfresh hover hleaves =>
    obtain ⟨hleaves', rfl⟩ := hleaves.onward ho
    exact .joined hspares hfresh hover hleaves'

end

namespace Shift

variable {c : Crew} {task : String} {hasThread : UInt32 → Bool}
  {move : UInt32 → Mem → State → Move A Mem State Unit} {first : UInt32 → State}
  {s : Shift A Mem State} {t : ShiftTurn A} {id : UInt32}

def AtStage (c : Crew) (hasThread : UInt32 → Bool) (first : UInt32 → State)
    (s : Shift A Mem State) : Prop :=
  Stage c hasThread first s.caller s.threads s.work.calls

def start (mem : Mem) (first : UInt32 → State) : Shift A Mem State where
  work := Pool.start mem first

theorem atStage_start (c : Crew) (hasThread : UInt32 → Bool) (mem : Mem) (first : UInt32 → State) :
    (start mem first : Shift A Mem State).AtStage c hasThread first :=
  .start fun _ => rfl

theorem AtStage.threads_lt (h : s.AtStage c hasThread first) (hid : id ∈ s.threads) :
    id < c.workers := by
  obtain ⟨caller, work, threads⟩ := s
  cases h with
  | start _ => exact absurd hid List.not_mem_nil
  | spawn hle _ => exact UInt32.lt_of_lt_of_le (mem_threaded.1 hid).1 hle
  | noThread hlt _ _ => exact UInt32.lt_trans (mem_threaded.1 hid).1 hlt
  | onCaller _ _ _ _ => exact (mem_threaded.1 hid).1
  | join _ _ => exact (mem_threaded.1 hid).1
  | joined _ _ _ _ => exact (mem_threaded.1 hid).1

theorem AtStage.spare_lt (h : s.AtStage c hasThread first) {rest : List UInt32}
    (hcaller : s.caller = .running (.onCaller (id :: rest))) : id < c.workers := by
  obtain ⟨caller, work, threads⟩ := s
  subst hcaller
  cases h with
  | onCaller hsplit _ _ _ =>
    have hmem : id ∈ spared hasThread c.workers := by simp [hsplit]
    exact (mem_spared.1 hmem).1
  | joined _ _ _ hleaves => rcases hleaves.eq_of_running with he | he <;> cases he

theorem AtStage.serves_lt (h : s.AtStage c hasThread first) {who : Option UInt32}
    (hs : s.Serves id who) : id < c.workers := by
  cases who with
  | some j => exact h.threads_lt hs.2
  | none =>
    obtain ⟨rest, at_, hcaller, _⟩ := hs
    exact h.spare_lt hcaller

theorem AtStage.serves (h : s.AtStage c hasThread first) {who : Option UInt32}
    (hs : s.Serves id who) (answer : (q : Q) → Except Panic (A q)) :
    AtStage c hasThread first { s with work := s.work.turn move ⟨id, answer⟩ } := by
  have hne : ∀ j, j ≠ id → (s.work.turn move ⟨id, answer⟩).calls j = s.work.calls j :=
    fun j hj => Pool.calls_turn_of_ne move s.work hj
  cases who with
  | some j =>
    refine Stage.thread_moved h hs.2 hne fun hover => ?_
    rw [Pool.turn_of_over move s.work hover]
  | none =>
    obtain ⟨rest, at_, hcaller, hrunning⟩ := hs
    unfold AtStage at h ⊢
    rw [hcaller] at h ⊢
    exact h.spare_moved hrunning hne

theorem AtStage.step (hname : 0 < c.workers → c.name.contains '\x00' = false)
    (h : s.AtStage c hasThread first) {s' : Shift A Mem State} (hs : Step c hasThread move s t s') :
    s'.AtStage c hasThread first := by
  cases hs with
  | serves hid => exact h.serves hid t.answer
  | onward _ hcaller ho =>
    unfold AtStage at h
    rw [hcaller] at h
    exact h.onward hname ho
  | rests _ => exact h

theorem Step.work {s' : Shift A Mem State} (hs : Step c hasThread move s t s') : s'.work = s.work ∨
    ∃ id, s.Serves id t.caller ∧ s'.work = s.work.turn move ⟨id, t.answer⟩ := by
  cases hs with
  | serves hid => exact .inr ⟨_, hid, rfl⟩
  | onward _ _ _ => exact .inl rfl
  | rests _ => exact .inl rfl

/-- The work of a shift is an interleaving of the workers of the crew. -/
theorem run_work (hname : 0 < c.workers → c.name.contains '\x00' = false)
    (h : s.AtStage c hasThread first) (turns : List (ShiftTurn A)) :
    (s.run c task hasThread move turns).AtStage c hasThread first ∧
      ∃ ts, (s.run c task hasThread move turns).work = s.work.run move ts ∧
        ∀ t ∈ ts, t.caller < c.workers ∧ ∃ u ∈ turns, t.answer = u.answer := by
  induction turns generalizing s with
  | nil => exact ⟨h, [], rfl, fun t ht => absurd ht List.not_mem_nil⟩
  | cons u turns ih =>
    have hstep := step_turn c task hasThread move s u
    obtain ⟨hstage, ts, hwork, hts⟩ := ih (h.step hname hstep)
    have hlater : ∀ t ∈ ts, t.caller < c.workers ∧ ∃ v ∈ u :: turns, t.answer = v.answer := by
      intro t ht
      obtain ⟨hlt, v, hv, he⟩ := hts t ht
      exact ⟨hlt, v, List.mem_cons_of_mem _ hv, he⟩
    refine ⟨hstage, ?_⟩
    rcases hstep.work with hsame | ⟨id, hid, hmoved⟩
    · exact ⟨ts, by rw [← hsame]; exact hwork, hlater⟩
    · refine ⟨⟨id, u.answer⟩ :: ts, ?_, fun t ht => ?_⟩
      · rw [Pool.run_cons, ← hmoved]
        exact hwork
      · rcases List.mem_cons.1 ht with rfl | ht
        · exact ⟨h.serves_lt hid, u, List.mem_cons_self, rfl⟩
        · exact hlater t ht

/-- A crew that cannot name its threads lets no worker work. -/
structure Unnamed (c : Crew) (work : Pool UInt32 A Mem State Unit)
    (s : Shift A Mem State) : Prop where
  caller : s.caller = .running .start ∨ s.caller = .running (.spawn 0 []) ∨
    s.caller = .panicked (.fault (.zeroInThreadName (c.threadName 0)))
  threads : s.threads = []
  work : s.work = work

theorem Unnamed.step (hpos : 0 < c.workers) (hzero : c.name.contains '\x00' = true)
    {work : Pool UInt32 A Mem State Unit} (h : s.Unnamed c work) {s' : Shift A Mem State}
    (hs : Step c hasThread move s t s') : s'.Unnamed c work := by
  have hserves : ∀ id, ¬s.Serves id t.caller := by
    intro id hid
    cases hc : t.caller with
    | some j =>
      rw [hc] at hid
      exact List.not_mem_nil (h.threads ▸ hid.2)
    | none =>
      rw [hc] at hid
      obtain ⟨rest, at_, hcaller, _⟩ := hid
      rcases h.caller with he | he | he <;> rw [he] at hcaller <;> cases hcaller
  cases hs with
  | serves hid => exact absurd hid (hserves _)
  | rests _ => exact h
  | onward _ hcaller ho =>
    rcases h.caller with he | he | he <;> rw [he] at hcaller <;> cases hcaller
    · cases ho
      exact ⟨.inr (.inl rfl), h.threads, h.work⟩
    · cases ho with
      | unnamed _ _ => exact ⟨.inr (.inr rfl), h.threads, h.work⟩
      | thread _ hname _ => exact absurd (hzero.symm.trans hname) Bool.noConfusion
      | refused _ hname _ => exact absurd (hzero.symm.trans hname) Bool.noConfusion
      | allAsked hge => exact absurd hpos hge

theorem unnamed_run (hpos : 0 < c.workers) (hzero : c.name.contains '\x00' = true) (mem : Mem)
    (turns : List (ShiftTurn A)) :
    ((start mem first).run c task hasThread move turns).Unnamed c (Pool.start mem first) :=
  run_induction turns ⟨.inl rfl, rfl, rfl⟩ fun _ _ _ hs hstep => hs.step hpos hzero hstep

theorem Unnamed.panicked {work : Pool UInt32 A Mem State Unit} (h : s.Unnamed c work)
    (hover : s.caller.isOver = true) :
    s.caller = .panicked (.fault (.zeroInThreadName (c.threadName 0))) := by
  rcases h.caller with he | he | he
  · rw [he] at hover
    cases hover
  · rw [he] at hover
    cases hover
  · exact he

end Shift

end Crew

end PauseCleanup
