import PauseCleanup.Proofs.Pool.Alone
import PauseCleanup.Unloading.Closing
/-!
# How an unloading is closed

An unloading that a worker has entered is checked when it is closed, unless its thread unwinds. The
host is asked only if the count is right.
-/
namespace PauseCleanup.Unloading

open Host (Query Answer)

/-- What a closing has found in the memory `m`, after the replies `log`. -/
inductive Verdict (p : Plan) (m : Shared) : List (Reply Answer) → Option Violation → Prop
  | count {v : Violation} : checkCount p.expected m.unloaded = some v → Verdict p m [] (some v)
  | unchecked : checkCount p.expected m.unloaded = none → p.hostChecks = false → Verdict p m [] none
  | host {found : Option Violation} :
    checkCount p.expected m.unloaded = none → p.hostChecks = true →
    Verdict p m [⟨.checkCode, .ok found⟩] found

namespace Closing

/-- The story of a closing that has something to check. -/
def Story (p : Plan) (m : Shared) (log : List (Reply Answer)) (m' : Shared)
    (c : Progress Closing Unit) : Prop :=
  m' = m ∧ match c with
    | .running .start => log = []
    | .running (.check .start) => log = []
    | .running (.check .host) =>
      log = [] ∧ checkCount p.expected m.unloaded = none ∧ p.hostChecks = true
    | .running (.check (.done found)) => Verdict p m log found
    | .running (.fatal v) => Verdict p m log (some v)
    | .running .done => Verdict p m log none
    | .returned _ => Verdict p m log none
    | .panicked cause =>
      checkCount p.expected m.unloaded = none ∧ p.hostChecks = true ∧
        log = [⟨.checkCode, .error cause⟩]

variable {p : Plan} {m : Shared} {may : Reply Answer → Prop}

theorem story_step (hm : (m.entered == 0) = false) (log : List (Reply Answer)) (m' : Shared)
    (s : Closing) (hs : Story p m log m' (.running s)) :
    (s.move p false m').Ensures may (fun m'' c l => Story p m (log ++ l.reverse) m'' c) m' := by
  obtain ⟨rfl, hs⟩ := hs
  cases s with
  | start =>
    obtain rfl : log = [] := hs
    simp only [move, hm, Bool.or_self, Bool.false_eq_true, if_false]
    exact ⟨rfl, rfl⟩
  | check c =>
    cases c with
    | start =>
      obtain rfl : log = [] := hs
      cases hc : checkCount p.expected m'.unloaded with
      | some v =>
        simp only [move, Check.move, hc, Move.lift_access]
        exact ⟨rfl, .count hc⟩
      | none =>
        simp only [move, Check.move, hc, Move.lift_access]
        by_cases hh : p.hostChecks = true
        · simp only [hh, if_true]
          exact ⟨rfl, rfl, hc, hh⟩
        · have hh' : p.hostChecks = false := by simpa using hh
          simp only [hh', Bool.false_eq_true, if_false]
          exact ⟨rfl, .unchecked hc hh'⟩
    | host =>
      obtain ⟨rfl, hc, hh⟩ := hs
      intro found _
      cases found with
      | error cause => exact ⟨rfl, hc, hh, rfl⟩
      | ok found => exact ⟨rfl, .host hc hh⟩
    | done found =>
      have hv : Verdict p m' (log ++ []) found := by rwa [List.append_nil]
      cases found with
      | none => exact ⟨rfl, hv⟩
      | some v => exact ⟨rfl, hv⟩
  | fatal v => trivial
  | done =>
    refine ⟨rfl, ?_⟩
    rw [List.reverse_nil, List.append_nil]
    exact hs

def rank : Closing → Nat
  | .start => 4
  | .check .start => 3
  | .check .host => 2
  | .check (.done _) => 1
  | .fatal _ => 0
  | .done => 0

theorem rank_step (p : Plan) (unwinding : Bool) (m : Shared) (s : Closing) :
    (s.move p unwinding m).Ensures may (Pool.Below rank s.rank) m := by
  cases s with
  | start =>
    simp only [move]
    split <;> (rintro _ ⟨⟩; decide)
  | check c =>
    cases c with
    | start =>
      simp only [move, Check.move]
      split
      · rintro _ ⟨⟩
        simp [rank]
      · split <;> (rintro _ ⟨⟩; simp [rank])
    | host =>
      rintro (cause | found) _ _ ⟨⟩
      simp [rank]
    | done found => cases found <;> (rintro _ ⟨⟩; simp [rank])
  | fatal v => trivial
  | done => rintro _ ⟨⟩

theorem move_eq_abort {unwinding : Bool} {s : Closing} {reason : Abort}
    (h : s.move p unwinding m = .abort reason) : ∃ v, s = .fatal v ∧ reason = .violation v := by
  cases s with
  | start => simp [move] at h
  | check c =>
    cases c with
    | start =>
      simp only [move, Check.move] at h
      split at h <;> simp at h
    | host => simp [move, Check.move] at h
    | done found => cases found <;> simp [move, Check.move] at h
  | fatal v =>
    simp only [move, Move.abort.injEq] at h
    exact ⟨v, rfl, h.symm⟩
  | done => simp [move] at h

/-- How a closing ends whose count was right: as the host's own check has it, if there is one. -/
inductive Decided : Bool → List (Reply Answer) → Progress Closing Unit → Option Abort → Prop
  | unchecked : Decided false [] (.returned ()) none
  | sound : Decided true [⟨.checkCode, .ok none⟩] (.returned ()) none
  | unsound {v : Violation} {c : Progress Closing Unit} :
    Decided true [⟨.checkCode, .ok (some v)⟩] c (some (.violation v))
  | panicked {cause : Panic} : Decided true [⟨.checkCode, .error cause⟩] (.panicked cause) none

/-- An unloading that was entered is checked when it is closed: first by its count, then by its
host. -/
theorem alone_spec (hm : (m.entered == 0) = false) {turns : List (Turn Unit Answer)}
    (hlen : 4 < turns.length) :
    let q := Pool.alone (fun m s => s.move p false m) m .start turns
    match checkCount p.expected m.unloaded with
    | some v => q.log = [] ∧ q.aborted = some (.violation v)
    | none => Decided p.hostChecks q.log (q.calls ()) q.aborted := by
  intro q
  have hended : q.Ended := Pool.alone_ended rank (fun m s => rank_step p false m s) m hlen
  have htold : q.Told (fun m s => s.move p false m) (Story p m) :=
    Pool.told_alone (fun log m' s hs => story_step hm log m' s hs) ⟨rfl, rfl⟩
      (Turn.within_true turns)
  cases htold.ending hended with
  | aborted ha hc hmove hstory =>
    obtain ⟨v, rfl, rfl⟩ := move_eq_abort hmove
    obtain ⟨-, hverdict⟩ := hstory
    rw [ha]
    generalize q.log = log at hverdict ⊢
    cases hverdict with
    | count hcount =>
      rw [hcount]
      exact ⟨rfl, rfl⟩
    | host hcount hhost =>
      rw [hcount, hhost]
      exact .unsound
  | returned ha hc hstory =>
    obtain ⟨-, hverdict⟩ := hstory
    rw [ha, hc]
    generalize q.log = log at hverdict ⊢
    cases hverdict with
    | unchecked hcount hhost =>
      rw [hcount, hhost]
      exact .unchecked
    | host hcount hhost =>
      rw [hcount, hhost]
      exact .sound
  | panicked ha hc hstory =>
    obtain ⟨-, hcount, hhost, hlog⟩ := hstory
    rw [ha, hc, hlog, hcount, hhost]
    exact .panicked

end Closing

end PauseCleanup.Unloading
