import PauseCleanup.Pass.Worker
import PauseCleanup.Proofs.Pool.Heard
/-!
# No worker goes on after a panic

None of the machines that a worker is made of takes a rescue from a panic of the host, so a panic
ends the call wherever it is.
-/
namespace PauseCleanup

open Host (Query Answer)

theorem OneShot.Try.plain (f : OneShot) (t : Try) :
    (t.move f : HostMove OneShot Try Bool).Plain := by
  cases t <;> simp

theorem Dispenser.Take.plain (d : Dispenser) (t : Take) :
    (t.move d : HostMove Dispenser Take (Option UInt64)).Plain := by
  cases t with
  | load => simp
  | exchange seen =>
    simp only [move]
    split
    · simp
    · split
      · simp
      · split <;> simp
  | done number => simp

theorem Frontier.Claim.plain (max : BatchSize) (f : Frontier) (c : Claim) :
    (c.move max f).Plain := by
  cases c with
  | walk lost seen mark taken room => cases room <;> simp [move]
  | done b => simp [move]
  | _ =>
    simp only [move]
    split <;> simp

theorem Unloading.Worker.plain (p : Plan) (t : Tallied Shared) (s : Worker) :
    (s.move p t).Plain := by
  cases s with
  | start id =>
    simp only [move]
    split <;> simp
  | first u attempt => exact (attempt.plain t.own.first).lift fun won => by simp
  | buffer total =>
    simp only [move]
    split <;> simp
  | claim total c => exact (c.plain p.batch t.own.frontier).lift fun b => by simp
  | unload total us opened => cases us <;> simp [move]
  | _ => simp [move]

theorem ClassSource.Draw.plain (s : ClassSource) (d : Draw) : (d.move s).Plain := by
  cases d with
  | start =>
    cases s with
    | dense d => simp [move]
    | listed cs => cases cs <;> simp [move]
  | take t =>
    cases s with
    | dense d => exact (t.plain d).lift fun n => by simp
    | listed cs => simp [move]
  | done cls => simp [move]

theorem ClassCleaning.Pick.plain (t : Tallied Shared) (s : Pick) : (s.move t).Plain := by
  cases s with
  | draw skipped d => exact (d.plain t.own.source).lift fun cls => by cases cls <;> simp
  | _ => simp [move]

theorem ClassCleaning.Worker.plain (t : Tallied Shared) (s : Worker) : (s.move t).Plain := by
  cases s with
  | tree attempt => exact (attempt.plain t.own.tree).lift fun won => by simp
  | pick cleaned p => exact (p.plain t).lift fun cls => by cases cls <;> simp
  | _ => simp [move]

theorem MetadataRelease.Worker.plain (present unloading : Bool) (t : Tallied OneShot) (s : Worker) :
    (s.move present unloading t).Plain := by
  cases s with
  | start =>
    simp only [move]
    split <;> simp
  | claim attempt => exact (attempt.plain t.own).lift fun won => by simp
  | _ => simp [move]

theorem TableSweep.Worker.plain (s : TableSweep) (t : Tally) (w : Worker) : (w.move s t).Plain := by
  cases w with
  | start id =>
    simp only [move]
    split <;> simp
  | _ => simp [move]

theorem Pass.Worker.plain (p : Plan) (m : Shared) (s : Worker) : (s.move p m).Plain := by
  cases s with
  | start id =>
    simp only [move]
    split <;> simp
  | metadata id s => exact (s.plain p.compiler p.unloading m.metadataPart).lift fun ran => by simp
  | code id s => exact (s.plain p.code m.codePart).lift fun units => by simp
  | table id s =>
    refine (s.plain p.sweep m.tally).lift fun _ => ?_
    split <;> simp
  | classes id s => exact (s.plain m.classPart).lift fun cleaned => by simp
  | _ => simp [move]

end PauseCleanup
