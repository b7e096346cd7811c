import PauseCleanup.Proofs.Bracket
/-!
# A table sweep that stands alone

The sweep is opened, its workers unlink their shares, and it is closed: with `finish`, at the end of
its scope, or by the unwinding of a panic. Each of the three is followed through the bracket.
-/
namespace PauseCleanup

open Host (Query Answer)

namespace Bracket

/-- Where an open sweep stands, by whether its table is in use. -/
def held (enabled : Bool) : Bracket := if enabled then .opened else .off

/-- Where a closed one stands. -/
def shut (enabled : Bool) : Bracket := if enabled then .closed else .off

theorem held_ne_closed (enabled : Bool) : held enabled ≠ .closed := by
  cases enabled <;> simp [held]

theorem shut_ne_opened (enabled : Bool) : shut enabled ≠ .opened := by
  cases enabled <;> simp [shut]

theorem step_held {r : Reply Answer} (h : r.1.isTable = false) (enabled : Bool) :
    Step (held enabled) r (held enabled) :=
  .quiet h fun hc => absurd hc (held_ne_closed enabled)

end Bracket

namespace TableSweep

open PauseCleanup.Bracket

namespace Opening

def At : Progress Opening TableSweep → Bracket → Prop
  | .running .start, b => b = .fresh
  | .running .prepare, b => b = .due
  | .running (.done enabled), b => b = held enabled
  | .returned s, b => b = held s.enabled
  | .panicked _, b => b = .off

theorem move_follows (resize keeps : Bool) (b : Bracket) (m : Unit) (s : Opening)
    (h : At (.running s) b) : (s.move resize keeps).Ensures (fun _ => True) (Follows At b) m := by
  cases s with
  | start =>
    obtain rfl : b = .fresh := h
    intro enabled _
    cases enabled with
    | error cause => exact ⟨.off, .single (.notInUse (by simp)), rfl⟩
    | ok enabled =>
      cases enabled with
      | true => exact ⟨.due, .single .inUse, rfl⟩
      | false => exact ⟨.off, .single (.notInUse (by simp)), rfl⟩
  | prepare =>
    obtain rfl : b = .due := h
    intro a _
    cases a with
    | error cause => exact ⟨.off, .single .failed, rfl⟩
    | ok a => exact ⟨.opened, .single .begun, rfl⟩
  | done enabled => exact ⟨b, .nil, h⟩

end Opening

theorem Worker.stays (s : TableSweep) (t : Tally) (w : Worker) :
    (w.move s t).Ensures (fun _ => True)
      (fun _ _ l => ∀ r ∈ l, Step (held s.enabled) r (held s.enabled)) t := by
  cases w with
  | start id =>
    simp only [move]
    split
    · next he =>
      intro a _ r hr
      rw [List.mem_singleton.1 hr, he]
      exact .share
    · exact fun r hr => absurd hr List.not_mem_nil
  | unlinked => exact fun r hr => absurd hr List.not_mem_nil
  | done => exact fun r hr => absurd hr List.not_mem_nil

namespace Closing

def At (enabled : Bool) : Progress Closing Unit → Bracket → Prop
  | .running .start, b => b = held enabled
  | .running .torn, b => b = .closed
  | .running .done, b => b = shut enabled
  | .returned _, b => b = shut enabled
  | .panicked _, b => b = shut enabled

theorem move_follows (s : TableSweep) (cleanup : Bool) (b : Bracket) (m : Unit) (c : Closing)
    (h : At s.enabled (.running c) b) :
    (c.move s cleanup).Ensures (fun _ => True) (Follows (At s.enabled) b) m := by
  cases c with
  | start =>
    obtain rfl : b = held s.enabled := h
    simp only [move]
    split
    · next he =>
      have hend : ∀ a, Path (held s.enabled) [⟨.endSweep, a⟩] .closed := by
        intro a
        rw [he]
        exact .single .ended
      have hshut : Bracket.closed = shut s.enabled := by rw [he]; rfl
      intro a _
      cases a with
      | error cause =>
        cases cleanup with
        | true => exact ⟨.closed, hend _, rfl⟩
        | false => exact ⟨.closed, hend _, hshut⟩
      | ok a => exact ⟨.closed, hend _, hshut⟩
    · next he =>
      have hoff : held s.enabled = shut s.enabled := by simp [held, shut, he]
      exact ⟨_, .nil, hoff⟩
  | torn => trivial
  | done => exact ⟨b, .nil, h⟩

theorem move_eq_abort {s : TableSweep} {cleanup : Bool} {c : Closing} {reason : Abort}
    (h : c.move s cleanup = .abort reason) : c = .torn ∧ reason = .panicWhileUnwinding := by
  cases c with
  | start =>
    simp only [move] at h
    split at h <;> cases h
  | torn =>
    cases h
    exact ⟨rfl, rfl⟩
  | done => cases h

def rank : Closing → Nat
  | .start => 1
  | _ => 0

theorem rank_step (s : TableSweep) (cleanup : Bool) (m : Unit) (c : Closing) :
    (c.move s cleanup).Ensures (fun _ => True) (Pool.Below rank c.rank) m := by
  cases c with
  | start =>
    simp only [move]
    split
    · intro a _ s' hs'
      cases a with
      | error cause =>
        cases cleanup <;> cases hs'
        simp [rank]
      | ok a =>
        cases hs'
        simp [rank]
    · rintro _ ⟨⟩
      simp [rank]
  | torn => trivial
  | done => rintro _ ⟨⟩

end Closing

def opening (resize keeps : Bool) (turns : List (Turn Unit Answer)) :
    Pool Unit Answer Unit Opening TableSweep :=
  Pool.alone (fun _ => Opening.move resize keeps) () .start turns

def work {ι : Type} [DecidableEq ι] (s : TableSweep) (t : Tally) (ids : ι → UInt32)
    (turns : List (Turn ι Answer)) : Pool ι Answer Tally Worker Unit :=
  (Pool.start t fun i => Worker.start (ids i)).run (fun _ => Worker.move s) turns

def closing (s : TableSweep) (cleanup : Bool) (turns : List (Turn Unit Answer)) :
    Pool Unit Answer Unit Closing Unit :=
  Pool.alone (fun _ => Closing.move s cleanup) () .start turns

/-- A whole life: all replies that were heard, and how the process was aborted if it was. -/
inductive Life (resize keeps : Bool) : List (Reply Answer) → Option Abort → Prop
  | unopened {turns : List (Turn Unit Answer)} (hended : (opening resize keeps turns).Ended)
      (hpanic : ∀ s, (opening resize keeps turns).calls () ≠ .returned s) :
      Life resize keeps (opening resize keeps turns).log (opening resize keeps turns).aborted
  | closed {turns : List (Turn Unit Answer)} {s : TableSweep}
      (hopen : (opening resize keeps turns).calls () = .returned s)
      {ι : Type} [DecidableEq ι] (tally : Tally) (ids : ι → UInt32) (working : List (Turn ι Answer))
      (cleanup : Bool) {ending : List (Turn Unit Answer)}
      (hended : (closing s cleanup ending).Ended) :
      Life resize keeps
        ((opening resize keeps turns).log ++ (work s tally ids working).log ++
          (closing s cleanup ending).log)
        (closing s cleanup ending).aborted

theorem work_path {ι : Type} [DecidableEq ι] (s : TableSweep) (t : Tally) (ids : ι → UInt32)
    (turns : List (Turn ι Answer)) :
    Path (held s.enabled) (work s t ids turns).log (held s.enabled) :=
  .stays (Pool.log_run _ (Turn.within_true turns) (fun _ => Worker.stays s) (by simp))

theorem opening_told (resize keeps : Bool) (turns : List (Turn Unit Answer)) :
    (opening resize keeps turns).Told (fun _ => Opening.move resize keeps)
      fun log _ c => ∃ b, Path .fresh log b ∧ Opening.At c b := by
  refine told_alone (Opening.move_follows resize keeps) ?_ turns
  exact rfl

theorem closing_told (s : TableSweep) (cleanup : Bool) (turns : List (Turn Unit Answer)) :
    (closing s cleanup turns).Told (fun _ => Closing.move s cleanup)
    fun log _ c => ∃ b, Path (held s.enabled) log b ∧ Closing.At s.enabled c b := by
  refine told_alone (Closing.move_follows s cleanup) ?_ turns
  exact rfl

/-- A closing comes to its end. -/
theorem closing_ends (s : TableSweep) (cleanup : Bool) {turns : List (Turn Unit Answer)}
    (h : 1 < turns.length) : (closing s cleanup turns).Ended :=
  Pool.alone_ended Closing.rank (fun _ => Closing.rank_step s cleanup ()) () h

theorem closing_ended {s : TableSweep} {cleanup : Bool} {turns : List (Turn Unit Answer)}
    (hended : (closing s cleanup turns).Ended) :
    (∃ b, Path (held s.enabled) (closing s cleanup turns).log b ∧ b ≠ .opened) ∧
      ∀ v, (closing s cleanup turns).aborted ≠ some (.violation v) := by
  cases (closing_told s cleanup turns).ending hended with
  | aborted ha hc hmove hat =>
    obtain ⟨b, hpath, hat⟩ := hat
    obtain ⟨rfl, rfl⟩ := Closing.move_eq_abort hmove
    obtain rfl : b = .closed := hat
    refine ⟨⟨_, hpath, Bracket.noConfusion⟩, fun v hv => ?_⟩
    rw [ha] at hv
    cases hv
  | returned ha hc hat =>
    obtain ⟨b, hpath, rfl⟩ := hat
    exact ⟨⟨_, hpath, shut_ne_opened _⟩, fun v hv => by simp [ha] at hv⟩
  | panicked ha hc hat =>
    obtain ⟨b, hpath, rfl⟩ := hat
    exact ⟨⟨_, hpath, shut_ne_opened _⟩, fun v hv => by simp [ha] at hv⟩

/-- Whatever happens in it, a life tells of one bracket. -/
theorem Life.bracketed {resize keeps : Bool} {log : List (Reply Answer)} {aborted : Option Abort}
    (h : Life resize keeps log aborted) : Bracketed log aborted := by
  cases h with
  | @unopened turns hended hpanic =>
    cases (opening_told resize keeps turns).ending hended with
    | @aborted s reason ha hc hmove hat => cases s <;> cases hmove
    | @returned s ha hc hat => exact absurd hc (hpanic s)
    | panicked ha hc hat =>
      obtain ⟨b, hpath, rfl⟩ := hat
      exact .of_path hpath (fun _ => Bracket.noConfusion) fun _ _ => Bracket.noConfusion
  | @closed turns s hopen ι inst tally ids working cleanup ending hended =>
    obtain ⟨b, hpath, hat⟩ := (opening_told resize keeps turns).story
    rw [hopen] at hat
    obtain rfl : b = held s.enabled := hat
    obtain ⟨⟨b', hclosing, hne⟩, hviolation⟩ := closing_ended hended
    have hall := (hpath.append (work_path s tally ids working)).append hclosing
    exact .of_path hall (fun _ => hne) fun v hv => absurd hv (hviolation v)

end TableSweep

end PauseCleanup
