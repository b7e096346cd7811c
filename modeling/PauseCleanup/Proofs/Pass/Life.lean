import PauseCleanup.Pass.Closing
import PauseCleanup.Pass.Opening
import PauseCleanup.Proofs.Ledger.Record
import PauseCleanup.Proofs.Pass.Worker
import PauseCleanup.Proofs.SmallHost
import PauseCleanup.Proofs.TableSweep.Life
import PauseCleanup.Proofs.Unloading.Closing
/-!
# The sweep in the life of a pass

A pass opens its sweep before it asks anything else of the host, and closes it after everything
else. Only a check that fails ends the process before that.
-/
namespace PauseCleanup

open Host (Query Answer)
open PauseCleanup.Bracket (held shut step_held shut_ne_opened Step Follows)

theorem Host.Query.isTable_of_phase {q : Query} {ph : Phase} (h : q.phase = some ph)
    (hne : ph ≠ .table) : q.isTable = false := by
  cases q with
  | unlink id keeps => exact absurd (Option.some.inj h).symm hne
  | tableEnabled => cases h
  | beginSweep resize => cases h
  | endSweep => cases h
  | _ => rfl

theorem Unloading.Opening.asks (r : Request) (s : Opening) : (s.move r).Ensures (fun _ => True)
    (fun _ _ l => ∀ r ∈ l, r.1.isTable = false) () := by
  cases s with
  | start =>
    simp only [move]
    split
    · simp [Move.Ensures]
    · simp [Move.Ensures, Query.isTable, Query.isSweep]
  | count first here counted =>
    cases here <;> simp [move, Move.Ensures, Query.isTable, Query.isSweep]
  | build first expected =>
    simp only [move]
    split <;> simp [Move.Ensures]
  | found first => simp [move, Move.Ensures]
  | done plan shared => simp [move, Move.Ensures]

theorem Unloading.Closing.asks (p : Plan) (unwinding : Bool) (m : Shared) (s : Closing) :
    (s.move p unwinding m).Ensures (fun _ => True)
      (fun _ _ l => ∀ r ∈ l, r.1.isTable = false) m := by
  cases s with
  | start => simp [move, Move.Ensures]
  | check c =>
    cases c with
    | start =>
      simp only [move, Check.move]
      split <;> simp [Move.Ensures]
    | host => simp [move, Check.move, Move.lift, Move.Ensures, Query.isTable, Query.isSweep]
    | done found => cases found <;> simp [move, Check.move, Move.Ensures]
  | fatal v => trivial
  | done => simp [move, Move.Ensures]

theorem Move.lift_eq_abort {Sub SubState SubResult Mem State Result : Type}
    {inner : HostMove Sub SubState SubResult} {mem : Mem} {put : Sub → Mem}
    {wrap : SubState → State} {finished : SubResult → HostMove Mem State Result}
    {rescue : Option (Panic → State)} {reason : Abort}
    (h : inner.lift mem put wrap finished rescue = .abort reason)
    (hfinished : ∀ r, finished r ≠ .abort reason) : inner = .abort reason := by
  cases inner with
  | access sub next notices => cases h
  | ask q resume own => cases h
  | finish r => exact absurd h (hfinished r)
  | fail cause => cases rescue <;> cases h
  | abort reason' => exact congrArg Move.abort (Move.abort.inj h)

namespace Pass

theorem Worker.stays (p : Plan) (m : Shared) (s : Worker) : (s.move p m).Ensures (fun _ => True)
    (fun _ _ l => ∀ r ∈ l, Step (held p.sweep.enabled) r (held p.sweep.enabled)) m := by
  by_cases htable : s.phase = some .table
  · cases s with
    | table id s =>
      refine (s.stays p.sweep m.tally).lift rfl (fun _ _ _ h => h) ?_ (fun _ _ h => h)
      intro r _
      split <;> exact fun r hr => absurd hr List.not_mem_nil
    | _ => cases htable
  · cases hphase : s.phase with
    | none =>
      cases s with
      | start id =>
        simp only [move]
        split <;> exact fun r hr => absurd hr List.not_mem_nil
      | enter id => exact fun r hr => absurd hr List.not_mem_nil
      | done => exact fun r hr => absurd hr List.not_mem_nil
      | _ => cases hphase
    | some ph =>
      refine (s.within p m).mono fun m' c l h r hr => ?_
      have hr' := (h r hr).trans hphase
      refine step_held (Query.isTable_of_phase hr' ?_) _
      rintro rfl
      exact htable hphase

namespace Opening

/-- Where the sweep stands while a pass is opened. -/
def At : Progress Opening (Plan × Shared) → Bracket → Prop
  | .running .start, b => b = .fresh
  | .running (.sweep _ s), b => TableSweep.Opening.At (.running s) b
  | .running (.code _ opened _), b => b = held opened.enabled
  | .running (.classes _ opened _ _), b => b = held opened.enabled
  | .running (.built plan _), b => b = held plan.sweep.enabled
  | .running (.abandon opened s _), b => TableSweep.Closing.At opened.enabled (.running s) b
  | .running (.done plan _), b => b = held plan.sweep.enabled
  | .returned (plan, _), b => b = held plan.sweep.enabled
  | .panicked _, b => b ≠ .opened

theorem move_follows (r : Request) (b : Bracket) (l : Ledger) (s : Opening)
    (h : At (.running s) b) : (s.move r l).Ensures (fun _ => True) (Follows At b) l := by
  cases s with
  | start => exact ⟨b, .nil, h⟩
  | sweep pass s =>
    have hmove := TableSweep.Opening.move_follows r.tuning.resize false b () s h
    refine hmove.lift rfl (fun _ _ _ hl => hl) ?_ ?_
    · intro opened hinner
      obtain ⟨b', hpath, hat⟩ := hinner
      exact ⟨b', hpath, hat⟩
    · intro cause l hinner
      obtain ⟨b', hpath, rfl⟩ := hinner
      exact ⟨.off, hpath, Bracket.noConfusion⟩
  | code pass opened s =>
    obtain rfl : b = held opened.enabled := h
    refine (s.asks (r.unloadingRequest pass)).lift rfl ?_ ?_ ?_
    · intro _ s' l hl
      exact ⟨_, .stays fun r hr => step_held (hl r (List.mem_reverse.1 hr)) _, rfl⟩
    · rintro ⟨plan, shared⟩ -
      exact ⟨_, .nil, rfl⟩
    · intro cause l hl
      exact ⟨_, .stays fun r hr => step_held (hl r (List.mem_reverse.1 hr)) _, rfl⟩
  | classes pass opened plan shared =>
    obtain rfl : b = held opened.enabled := h
    rintro (cause | source) - <;> exact ⟨_, .single (step_held rfl _), rfl⟩
  | built plan shared => exact ⟨b, .nil, h⟩
  | abandon opened s cause =>
    have hmove := TableSweep.Closing.move_follows opened true b () s h
    refine hmove.lift rfl (fun _ _ _ hl => hl) ?_ ?_
    · intro r hinner
      obtain ⟨b', hpath, rfl⟩ := hinner
      exact ⟨_, hpath, shut_ne_opened _⟩
    · intro cause' l hinner
      obtain ⟨b', hpath, rfl⟩ := hinner
      exact ⟨_, hpath, shut_ne_opened _⟩
  | done plan shared => exact ⟨b, .nil, h⟩

theorem move_eq_abort {r : Request} {l : Ledger} {s : Opening} {reason : Abort}
    (h : s.move r l = .abort reason) :
    (∃ opened cause, s = .abandon opened .torn cause) ∧ reason = .panicWhileUnwinding := by
  cases s with
  | sweep pass s =>
    have hs := Move.lift_eq_abort h (by simp)
    cases s <;> cases hs
  | code pass opened s =>
    have hs := Move.lift_eq_abort h (by simp)
    cases s with
    | start =>
      simp only [Unloading.Opening.move] at hs
      split at hs <;> cases hs
    | count first here counted => cases here <;> cases hs
    | build first expected =>
      simp only [Unloading.Opening.move] at hs
      split at hs <;> cases hs
    | _ => cases hs
  | abandon opened s cause =>
    obtain ⟨rfl, hreason⟩ := TableSweep.Closing.move_eq_abort (Move.lift_eq_abort h (by simp))
    exact ⟨⟨opened, cause, rfl⟩, hreason⟩
  | _ => cases h

end Opening

namespace Closing

/-- Where the sweep stands while a pass is closed. -/
def At (p : Plan) : Progress Closing Unit → Bracket → Prop
  | .running .start, b => b = held p.sweep.enabled
  | .running (.record ..), b => b = held p.sweep.enabled
  | .running (.check _), b => b = held p.sweep.enabled
  | .running (.sweep s _), b => TableSweep.Closing.At p.sweep.enabled (.running s) b
  | .running (.leave _), b => b = shut p.sweep.enabled
  | .running (.done _), b => b = shut p.sweep.enabled
  | .returned _, b => b = shut p.sweep.enabled
  | .panicked _, b => b = shut p.sweep.enabled

theorem move_follows (p : Plan) (t : Thread) (o : Occasion) (b : Bracket) (e : Estate) (s : Closing)
    (h : At p (.running s) b) : (s.move p t o e).Ensures (fun _ => True) (Follows (At p) b) e := by
  cases s with
  | start => exact ⟨b, .nil, h⟩
  | record numbers s =>
    obtain rfl : b = held p.sweep.enabled := h
    refine (s.quiet _ t numbers e.ledger).lift rfl ?_ ?_ ?_
    · intro _ _ l hinner
      obtain ⟨rfl, -⟩ := hinner
      exact ⟨_, .nil, rfl⟩
    · rintro _ -
      exact ⟨_, .nil, rfl⟩
    · intro cause l hinner
      obtain ⟨-, hc⟩ := hinner
      exact absurd rfl (hc cause)
  | check s =>
    obtain rfl : b = held p.sweep.enabled := h
    refine (s.asks p.code o.unwinds e.shared.code).lift rfl ?_ ?_ ?_
    · intro _ s' l hl
      exact ⟨_, .stays fun r hr => step_held (hl r (List.mem_reverse.1 hr)) _, rfl⟩
    · rintro _ -
      exact ⟨_, .nil, rfl⟩
    · intro cause l hl
      exact ⟨_, .stays fun r hr => step_held (hl r (List.mem_reverse.1 hr)) _, rfl⟩
  | sweep s raised =>
    let cleanup := o == .cleanup || raised.isSome
    have hmove := TableSweep.Closing.move_follows p.sweep cleanup b () s h
    refine hmove.lift rfl (fun _ _ _ hl => hl) ?_ ?_
    · intro _ hinner
      obtain ⟨b', hpath, hat⟩ := hinner
      exact ⟨b', hpath, hat⟩
    · intro cause l hinner
      obtain ⟨b', hpath, hat⟩ := hinner
      exact ⟨b', hpath, hat⟩
  | leave raised => exact ⟨b, .nil, h⟩
  | done raised => cases raised <;> exact ⟨b, .nil, h⟩

theorem move_eq_abort {p : Plan} {t : Thread} {o : Occasion} {e : Estate} {s : Closing}
    {reason : Abort} (h : s.move p t o e = .abort reason) :
    (∃ v, s = .check (.fatal v) ∧ reason = .violation v) ∨
      ∃ raised, s = .sweep .torn raised ∧ reason = .panicWhileUnwinding := by
  cases s with
  | record numbers s =>
    have hs := Move.lift_eq_abort h (by simp)
    cases s <;> cases hs
  | check s =>
    obtain ⟨v, rfl, hreason⟩ := Unloading.Closing.move_eq_abort (Move.lift_eq_abort h (by simp))
    exact .inl ⟨v, rfl, hreason⟩
  | sweep s raised =>
    obtain ⟨rfl, hreason⟩ := TableSweep.Closing.move_eq_abort (Move.lift_eq_abort h (by simp))
    exact .inr ⟨raised, rfl, hreason⟩
  | done raised => cases raised <;> cases h
  | _ => cases h

/-- How many moves a closing has at most to make. -/
def rank : Closing → Nat
  | .start => 19
  | .record _ s => 11 + s.rank
  | .check s => 6 + s.rank
  | .sweep s _ => 2 + s.rank
  | .leave _ => 1
  | .done _ => 0

theorem rank_step (p : Plan) (t : Thread) (o : Occasion) (e : Estate) (s : Closing) :
    (s.move p t o e).Ensures (fun _ => True) (Pool.Below rank s.rank) e := by
  cases s with
  | start =>
    rintro _ ⟨⟩
    exact Nat.lt_succ_self _
  | record numbers s =>
    refine Pool.Below.lift (s.rank_step (fun _ => True) t numbers e.ledger) rfl
      (fun _ h => Nat.add_lt_add_left h 11) ?_ (by simp)
    rintro _ _ ⟨⟩
    simp only [rank, Unloading.Closing.rank]
    omega
  | check s =>
    refine Pool.Below.lift (s.rank_step p.code o.unwinds e.shared.code) ?_ ?_ ?_ ?_
    · rfl
    · exact fun _ h => Nat.add_lt_add_left h 6
    · rintro _ _ ⟨⟩
      simp only [rank, TableSweep.Closing.rank]
      omega
    · rintro _ ⟨⟩ cause
      simp only [rank, TableSweep.Closing.rank]
      omega
  | sweep s raised =>
    refine Pool.Below.lift (s.rank_step p.sweep _ ()) rfl (fun _ h => Nat.add_lt_add_left h 2) ?_ ?_
    · rintro _ _ ⟨⟩
      simp only [rank]
      omega
    · rintro _ ⟨⟩ cause
      simp only [rank]
      omega
  | leave raised =>
    rintro _ ⟨⟩
    simp [rank]
  | done raised => cases raised <;> rintro _ ⟨⟩

end Closing

def opening (r : Request) (ledger : Ledger) (turns : List (Turn Unit Answer)) :
    Pool Unit Answer Ledger Opening (Plan × Shared) :=
  Pool.alone (fun l s => s.move r l) ledger .start turns

def closing (p : Plan) (t : Thread) (o : Occasion) (e : Estate) (turns : List (Turn Unit Answer)) :
    Pool Unit Answer Estate Closing Unit :=
  Pool.alone (fun e s => s.move p t o e) e .start turns

/-- A whole life: all replies that were heard, and how the process was aborted if it was. -/
inductive Life (r : Request) : List (Reply Answer) → Option Abort → Prop
  | unopened {ledger : Ledger} {turns : List (Turn Unit Answer)}
      (hended : (opening r ledger turns).Ended)
      (hpanic : ∀ plan shared, (opening r ledger turns).calls () ≠ .returned (plan, shared)) :
      Life r (opening r ledger turns).log (opening r ledger turns).aborted
  | closed {ledger : Ledger} {turns : List (Turn Unit Answer)} {plan : Plan} {shared : Shared}
      (hopen : (opening r ledger turns).calls () = .returned (plan, shared))
      {ι : Type} [DecidableEq ι] (ids : ι → UInt32) (working : List (Turn ι Answer))
      (thread : Thread) (occasion : Occasion) (ledger' : Ledger)
      {ending : List (Turn Unit Answer)}
      (hended : (closing plan thread occasion ⟨(work plan shared ids working).mem, ledger'⟩
        ending).Ended) :
      Life r ((opening r ledger turns).log ++ (work plan shared ids working).log ++
          (closing plan thread occasion ⟨(work plan shared ids working).mem, ledger'⟩ ending).log)
        (closing plan thread occasion ⟨(work plan shared ids working).mem, ledger'⟩ ending).aborted

theorem opening_told (r : Request) (ledger : Ledger) (turns : List (Turn Unit Answer)) :
    (opening r ledger turns).Told (fun l s => s.move r l)
      fun log _ c => ∃ b, Bracket.Path .fresh log b ∧ Opening.At c b := by
  refine Bracket.told_alone (Opening.move_follows r) ?_ turns
  exact rfl

/-- An opening that gives no pass leaves no sweep open, and no violation ends it. -/
theorem opening_ended {r : Request} {ledger : Ledger} {turns : List (Turn Unit Answer)}
    (hended : (opening r ledger turns).Ended)
    (hpanic : ∀ plan shared, (opening r ledger turns).calls () ≠ .returned (plan, shared)) :
    (∃ b, Bracket.Path .fresh (opening r ledger turns).log b ∧ b ≠ .opened) ∧
      ∀ v, (opening r ledger turns).aborted ≠ some (.violation v) := by
  cases (opening_told r ledger turns).ending hended with
  | aborted ha hc hmove hat =>
    obtain ⟨b, hpath, hat⟩ := hat
    obtain ⟨⟨opened, cause, rfl⟩, rfl⟩ := Opening.move_eq_abort hmove
    obtain rfl : b = .closed := hat
    refine ⟨⟨_, hpath, Bracket.noConfusion⟩, fun v hv => ?_⟩
    rw [ha] at hv
    cases hv
  | @returned result ha hc hat => exact absurd hc (hpanic result.1 result.2)
  | panicked ha hc hat =>
    obtain ⟨b, hpath, hne⟩ := hat
    exact ⟨⟨b, hpath, hne⟩, fun v hv => by simp [ha] at hv⟩

theorem work_path {ι : Type} [DecidableEq ι] (p : Plan) (m : Shared) (ids : ι → UInt32)
    (turns : List (Turn ι Answer)) :
    Bracket.Path (held p.sweep.enabled) (work p m ids turns).log (held p.sweep.enabled) :=
  .stays (Pool.log_run _ (Turn.within_true turns) (fun _ => Worker.stays p) (by simp))

theorem closing_told (p : Plan) (t : Thread) (o : Occasion) (e : Estate)
    (turns : List (Turn Unit Answer)) :
    (closing p t o e turns).Told (fun e s => s.move p t o e)
      fun log _ c => ∃ b, Bracket.Path (held p.sweep.enabled) log b ∧ Closing.At p c b := by
  refine Bracket.told_alone (Closing.move_follows p t o) ?_ turns
  exact rfl

theorem closing_ends (p : Plan) (t : Thread) (o : Occasion) (e : Estate)
    {turns : List (Turn Unit Answer)} (h : 19 < turns.length) : (closing p t o e turns).Ended :=
  Pool.alone_ended Closing.rank (Closing.rank_step p t o) e h

/-- A closing leaves the sweep open if and only if a violation ends it. -/
theorem closing_ended {p : Plan} {t : Thread} {o : Occasion} {e : Estate}
    {turns : List (Turn Unit Answer)} (hended : (closing p t o e turns).Ended) :
    ∃ b, Bracket.Path (held p.sweep.enabled) (closing p t o e turns).log b ∧
      ((∀ v, (closing p t o e turns).aborted ≠ some (.violation v)) → b ≠ .opened) ∧
      ∀ v, (closing p t o e turns).aborted = some (.violation v) → b ≠ .closed := by
  cases (closing_told p t o e turns).ending hended with
  | aborted ha hc hmove hat =>
    obtain ⟨b, hpath, hat⟩ := hat
    rcases Closing.move_eq_abort hmove with ⟨v, rfl, rfl⟩ | ⟨raised, rfl, rfl⟩
    · obtain rfl : b = held p.sweep.enabled := hat
      exact ⟨_, hpath, fun hcalm => absurd ha (hcalm v), fun _ _ => Bracket.held_ne_closed _⟩
    · obtain rfl : b = .closed := hat
      refine ⟨_, hpath, fun _ => Bracket.noConfusion, fun v hv => ?_⟩
      rw [ha] at hv
      cases hv
  | returned ha hc hat =>
    obtain ⟨b, hpath, rfl⟩ := hat
    exact ⟨_, hpath, fun _ => shut_ne_opened _, fun v hv => by simp [ha] at hv⟩
  | panicked ha hc hat =>
    obtain ⟨b, hpath, rfl⟩ := hat
    exact ⟨_, hpath, fun _ => shut_ne_opened _, fun v hv => by simp [ha] at hv⟩

theorem Life.bracketed {r : Request} {log : List (Reply Answer)} {aborted : Option Abort}
    (h : Life r log aborted) : Bracketed log aborted := by
  cases h with
  | unopened hended hpanic =>
    obtain ⟨⟨b, hpath, hne⟩, hviolation⟩ := opening_ended hended hpanic
    exact .of_path hpath (fun _ => hne) fun v hv => absurd hv (hviolation v)
  | @closed ledger turns plan shared hopen ι _ ids working thread occasion ledger' ending hended =>
    obtain ⟨b, hpath, hat⟩ := (opening_told r ledger turns).story
    rw [hopen] at hat
    obtain rfl : b = held plan.sweep.enabled := hat
    obtain ⟨b', hclosing, hopened, hclosed⟩ := closing_ended hended
    have hall := (hpath.append (work_path plan shared ids working)).append hclosing
    exact .of_path hall hopened hclosed

/-- In every life of a pass and of a sweep that stands alone, a sweep that was begun is ended once;
and a life can always be brought to its end. -/
theorem sweeps_are_bracketed :
    (∀ r log aborted, Life r log aborted → Bracketed log aborted) ∧
      (∀ resize keeps log aborted, TableSweep.Life resize keeps log aborted →
        Bracketed log aborted) ∧
      (∀ p t o e turns, 19 < turns.length → (closing p t o e turns).Ended) ∧
      ∀ s cleanup turns, 1 < turns.length → (TableSweep.closing s cleanup turns).Ended := by
  refine ⟨fun r log aborted => ?_, fun resize keeps log aborted => ?_, fun p t o e turns => ?_,
    fun s cleanup turns => ?_⟩
  · exact Life.bracketed
  · exact TableSweep.Life.bracketed
  · exact closing_ends p t o e
  · exact TableSweep.closing_ends s cleanup

def tornTurns : List (Turn Unit Answer) :=
  List.replicate 90 ⟨(), fun q =>
    if q.phase = some .table then .error (.raised (.number 7)) else .ok (smallHost q)⟩

theorem sweeps_are_bracketed_small :
    let first := opening smallRequest {} (calmTurns smallHost (List.replicate 15 ()))
    let second := work smallPlan smallShared (fun _ => 0) tornTurns
    let last := closing smallPlan ⟨1⟩ .cleanup ⟨second.mem, {}⟩
      (calmTurns smallHost (List.replicate 20 ()))
    ⟨.beginSweep false, .ok ()⟩ ∈ first.log ∧ second.times (.unlink 0 false) = 1 ∧
      last.times .endSweep = 1 ∧
      Bracketed (first.log ++ second.log ++ last.log) last.aborted := by
  intro first second last
  obtain ⟨hpass, -, hends, -⟩ := sweeps_are_bracketed
  refine ⟨.tail _ (.head _), by decide +kernel, by decide +kernel, hpass smallRequest _ _ ?_⟩
  exact .closed rfl _ _ _ _ _ (hends _ _ _ _ _ (by decide))

end Pass

end PauseCleanup
