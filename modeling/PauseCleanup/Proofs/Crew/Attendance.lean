import PauseCleanup.Proofs.Crew.Foremost
/-!
# Which workers a crew lets work

The work of an errand is one callback, so the questions tell who was let work. Those without a
thread take their turns on the calling one, lowest first, until one of them panics.
-/
namespace PauseCleanup

namespace Crew

section

variable {State : Type} {c : Crew} {hasThread : UInt32 → Bool} {first : UInt32 → State}
  {calls : UInt32 → Progress State Unit} {threads : List UInt32} {caller : Progress Run Unit}
  {id : UInt32}

/-- Whether the crew comes to let a worker work: it has a thread, or all that wait before it
return. -/
def Reaches (c : Crew) (hasThread : UInt32 → Bool) (calls : UInt32 → Progress State Unit)
    (id : UInt32) : Prop :=
  id < c.workers ∧ (hasThread id = true ∨ ∀ j < id, hasThread j = false → calls j = .returned ())

theorem mem_past {past rest : List UInt32}
    (hsplit : spared hasThread c.workers = past ++ id :: rest) {j : UInt32} (hj : j < id)
    (hnone : hasThread j = false) : j ∈ past := by
  have hid : id ∈ spared hasThread c.workers := by simp [hsplit]
  have hmem : j ∈ spared hasThread c.workers :=
    mem_spared.2 ⟨UInt32.lt_trans hj (mem_spared.1 hid).1, hnone⟩
  rw [hsplit, List.mem_append, List.mem_cons] at hmem
  rcases hmem with hmem | rfl | hmem
  · exact hmem
  · exact absurd hj (UInt32.lt_irrefl j)
  · exact absurd hj (UInt32.lt_asymm ((spared_split hsplit).2 j hmem))

theorem Spares.reached {raised : Option Panic} (h : Spares c hasThread first calls raised)
    (hid : id ∈ spared hasThread c.workers) :
    (Reaches c hasThread calls id ∧ (calls id).isOver = true) ∨
      (¬Reaches c hasThread calls id ∧ calls id = .running (first id)) := by
  obtain ⟨hlt, hnone⟩ := mem_spared.1 hid
  cases h with
  | returned hall =>
    refine .inl ⟨⟨hlt, .inr fun j hj hjnone => ?_⟩, by rw [hall id hid]; rfl⟩
    exact hall j (mem_spared.2 ⟨UInt32.lt_trans hj hlt, hjnone⟩)
  | @raised past rest last cause hsplit hpast hlast hrest =>
    have hmem := hid
    rw [hsplit, List.mem_append, List.mem_cons] at hmem
    rcases hmem with hmem | rfl | hmem
    · refine .inl ⟨⟨hlt, .inr fun j hj hjnone => hpast j ?_⟩, by rw [hpast id hmem]; rfl⟩
      exact mem_past hsplit (UInt32.lt_trans hj ((spared_split hsplit).1 id hmem)) hjnone
    · exact .inl ⟨⟨hlt, .inr fun j hj hjnone => hpast j (mem_past hsplit hj hjnone)⟩,
        by rw [hlast]; rfl⟩
    · refine .inr ⟨fun hreach => ?_, hrest id hmem⟩
      rcases hreach.2 with hthread | hbefore
      · rw [hnone] at hthread
        cases hthread
      · have hmem' : last ∈ spared hasThread c.workers := by simp [hsplit]
        have hlastnone := (mem_spared.1 hmem').2
        have hreturned := hbefore last ((spared_split hsplit).2 id hmem) hlastnone
        rw [hlast] at hreturned
        cases hreturned

/-- When the crew is through, the workers that it came to are at their ends, and the others where
they began. -/
theorem Stage.reached (h : Stage c hasThread first caller threads calls)
    (hover : caller.isOver = true) (id : UInt32) :
    (Reaches c hasThread calls id ∧ (calls id).isOver = true) ∨
      (¬Reaches c hasThread calls id ∧ calls id = .running (first id)) := by
  cases h with
  | joined hspares hfresh hthreads hleaves =>
    by_cases hid : id < c.workers
    · cases hthread : hasThread id with
      | true => exact .inl ⟨⟨hid, .inl hthread⟩, hthreads id (mem_threaded.2 ⟨hid, hthread⟩)⟩
      | false => exact hspares.reached (mem_spared.2 ⟨hid, hthread⟩)
    · exact .inr ⟨fun hr => hid hr.1, hfresh id hid⟩
  | _ => cases hover

theorem Stage.returned_below (h : Stage c hasThread first caller threads calls)
    (hover : caller.isOver = true) {n : UInt32}
    (hcalm : ∀ id < n, ∀ cause, calls id ≠ .panicked cause) (hid : id < n) (hlt : id < c.workers) :
    calls id = .returned () := by
  induction hk : id.toNat using Nat.strongRecOn generalizing id with
  | ind k ih =>
    subst hk
    have hreach : Reaches c hasThread calls id := by
      refine ⟨hlt, .inr fun j hj _ => ?_⟩
      exact ih j.toNat (UInt32.lt_iff_toNat_lt.1 hj) (UInt32.lt_trans hj hid)
        (UInt32.lt_trans hj hlt) rfl
    rcases h.reached hover id with ⟨_, hend⟩ | ⟨hno, _⟩
    · exact Progress.eq_returned hend (hcalm id hid)
    · exact absurd hreach hno

/-- A crew that is through has returned, and so have all its workers; or it panics with what one of
them has. -/
theorem Stage.outcome (h : Stage c hasThread first caller threads calls)
    (hover : caller.isOver = true) :
    (caller = .returned () ∧ ∀ id < c.workers, calls id = .returned ()) ∨
      ∃ id cause, id < c.workers ∧ calls id = .panicked cause ∧ caller = .panicked cause := by
  rcases h.foremost hover with ⟨hcaller, hcalm⟩ | ⟨id, cause, hid, hforemost, hcaller⟩
  · exact .inl ⟨hcaller, fun id hid => h.returned_below hover (fun j _ => hcalm j) hid hid⟩
  · exact .inr ⟨id, cause, hid, hforemost.1, hcaller⟩

end

/-- The work of a worker as one callback, which is told the worker's id. -/
inductive Errand
  | start
  | done

namespace Errand

abbrev Answer (_ : UInt32) : Type := Unit

def move (id : UInt32) (m : Unit) : Errand → Move Answer Unit Errand Unit
  | .start => .ask id fun _ => .done
  | .done => .finish m

def called : Progress Errand Unit → Nat
  | .running .start => 0
  | _ => 1

/-- The pool has put its questions as the places of the workers tell. -/
def Tells (p : Pool UInt32 Answer Unit Errand Unit) : Prop := ∀ id, p.times id = called (p.calls id)

theorem tells_start : Tells (Pool.start () fun _ => .start) := fun _ => rfl

theorem Tells.turn {p : Pool UInt32 Answer Unit Errand Unit} (h : Tells p)
    (t : Turn UInt32 Answer) :
    Tells (p.turn move t) := by
  unfold Pool.turn
  split
  · next s _ hs =>
    have hcaller := h t.caller
    rw [hs] at hcaller
    intro id
    by_cases he : id = t.caller
    · subst he
      cases s with
      | start =>
        have hafter : called (Pool.resumed (fun _ : Answer t.caller => done) none
            (t.answer t.caller)) = 1 := by
          cases t.answer t.caller <;> rfl
        have hasked : p.times t.caller + 1 = 1 := by rw [hcaller]; rfl
        simpa [move, Pool.apply, Pool.put, Pool.times, hafter] using hasked
      | done => simpa [move, Pool.apply, Pool.put, Pool.times, called] using hcaller
    · have hid := h id
      cases s with
      | start =>
        simpa [move, Pool.apply, Pool.put, Pool.times, Ne.symm he, Function.update_of_ne he]
          using hid
      | done => simpa [move, Pool.apply, Pool.put, Pool.times, Function.update_of_ne he] using hid
  · exact h

end Errand

def errands (c : Crew) (task : String) (hasThread : UInt32 → Bool)
    (turns : List (Shift.ShiftTurn Errand.Answer)) : Shift Errand.Answer Unit Errand :=
  (Shift.start () fun _ => .start).run c task hasThread Errand.move turns

theorem tells_errands (c : Crew) (task : String) (hasThread : UInt32 → Bool)
    (turns : List (Shift.ShiftTurn Errand.Answer)) :
    Errand.Tells (c.errands task hasThread turns).work := by
  refine Shift.run_induction (P := fun s => Errand.Tells s.work) turns Errand.tells_start ?_
  intro s t s' hs hstep
  rcases hstep.work with he | ⟨id, _, he⟩
  · rwa [he]
  · rw [he]
    exact hs.turn _

theorem times_of_over {p : Pool UInt32 Errand.Answer Unit Errand Unit} (h : Errand.Tells p)
    {id : UInt32} (hover : (p.calls id).isOver = true) : p.times id = 1 := by
  rw [h id]
  cases hc : p.calls id with
  | running s =>
    rw [hc] at hover
    cases hover
  | _ => rfl

theorem times_of_start {p : Pool UInt32 Errand.Answer Unit Errand Unit} (h : Errand.Tells p)
    {id : UInt32} (hstart : p.calls id = .running .start) : p.times id = 0 := by
  rw [h id, hstart]
  rfl

/-- When a crew is through, it has let those workers work that have a thread, or that no panic of
another on the calling thread has kept from it, and no others; and it has let each of them work
once. -/
theorem calls_until_panic (c : Crew) (task : String) (hasThread : UInt32 → Bool)
    (turns : List (Shift.ShiftTurn Errand.Answer))
    (hover : (c.errands task hasThread turns).caller.isOver = true) (id : UInt32) :
    let work := (c.errands task hasThread turns).work
    work.times id ≤ 1 ∧
      (work.times id = 1 ↔ c.name.contains '\x00' = false ∧ Reaches c hasThread work.calls id) := by
  intro work
  have htells := tells_errands c task hasThread turns
  by_cases hname : 0 < c.workers → c.name.contains '\x00' = false
  · have hstage : (c.errands task hasThread turns).AtStage c hasThread fun _ => .start :=
      (Shift.run_work hname (Shift.atStage_start c hasThread () _) turns).1
    rcases Stage.reached hstage hover id with ⟨hreach, hend⟩ | ⟨hreach, hfresh⟩
    · have hpos : 0 < c.workers := UInt32.lt_of_le_of_lt UInt32.zero_le hreach.1
      have hone : work.times id = 1 := times_of_over htells hend
      exact ⟨Nat.le_of_eq hone, iff_of_true hone ⟨hname hpos, hreach⟩⟩
    · have hnone : work.times id = 0 := times_of_start htells hfresh
      exact ⟨by omega, iff_of_false (by omega) fun hr => hreach hr.2⟩
  · obtain ⟨hpos, hzero⟩ := Classical.not_imp.1 hname
    have hunnamed : (c.errands task hasThread turns).Unnamed c (Pool.start () fun _ => .start) :=
      Shift.unnamed_run hpos (by simpa using hzero) () turns
    have hnone : work.times id = 0 :=
      times_of_start htells (congrArg (fun p => p.calls id) hunnamed.work)
    exact ⟨by omega, iff_of_false (by omega) fun hr => hzero hr.1⟩

/-- Of all workers, the first panics. -/
def firstPanics (id : UInt32) : Except Panic Unit :=
  if id = 0 then .error (.raised (.text "boom")) else .ok ()

def callerTurns : List (Shift.ShiftTurn Errand.Answer) := List.replicate 11 ⟨none, firstPanics⟩

theorem calls_until_panic_two :
    let s := errands ⟨"gang", 2⟩ "Recorder" (fun _ => false) callerTurns
    s.caller.isOver = true ∧ s.work.times 0 = 1 ∧ s.work.times 1 = 0 := by
  have hover :
      (errands ⟨"gang", 2⟩ "Recorder" (fun _ => false) callerTurns).caller.isOver = true := by
    cbv
  have hfirst : Reaches ⟨"gang", 2⟩ (fun _ => false)
      (errands ⟨"gang", 2⟩ "Recorder" (fun _ => false) callerTurns).work.calls 0 :=
    ⟨by decide, .inr fun j hj => absurd hj (UInt32.not_lt_zero)⟩
  have hsecond : ¬Reaches ⟨"gang", 2⟩ (fun _ => false)
      (errands ⟨"gang", 2⟩ "Recorder" (fun _ => false) callerTurns).work.calls 1 := by
    intro hreach
    have hpanicked : (errands ⟨"gang", 2⟩ "Recorder" (fun _ => false) callerTurns).work.calls 0 =
        .panicked (.raised (.text "boom")) := by
      cbv
    rcases hreach.2 with hthread | hbefore
    · cases hthread
    · have hreturned := hbefore 0 (by decide) rfl
      rw [hpanicked] at hreturned
      cases hreturned
  obtain ⟨_, hone⟩ := calls_until_panic ⟨"gang", 2⟩ "Recorder" (fun _ => false) callerTurns hover 0
  obtain ⟨hle, hnone⟩ :=
    calls_until_panic ⟨"gang", 2⟩ "Recorder" (fun _ => false) callerTurns hover 1
  refine ⟨hover, hone.2 ⟨by simp, hfirst⟩, ?_⟩
  have hne := mt hnone.1 fun hr => hsecond hr.2
  omega

/-- Not every crew lets each of its workers work, whatever the work of the others comes to. -/
theorem not_each_called_once : ¬∀ (c : Crew) (task : String) (hasThread : UInt32 → Bool)
    (outcome : UInt32 → Except Panic Unit) (turns : List (Shift.ShiftTurn Errand.Answer)),
    c.name.contains '\x00' = false → (∀ t ∈ turns, t.answer = outcome) →
      (c.errands task hasThread turns).caller.isOver = true → ∀ id,
        (c.errands task hasThread turns).work.times id = if id < c.workers then 1 else 0 := by
  intro h
  have hanswers : ∀ t ∈ callerTurns, t.answer = firstPanics := by
    intro t ht
    rw [List.eq_of_mem_replicate ht]
  have hcalled := h ⟨"gang", 2⟩ "Recorder" (fun _ => false) firstPanics callerTurns (by simp)
    hanswers (by cbv) 1
  have hnone : (errands ⟨"gang", 2⟩ "Recorder" (fun _ => false) callerTurns).work.times 1 = 0 := by
    cbv
  rw [hnone] at hcalled
  revert hcalled
  decide

end Crew

end PauseCleanup
