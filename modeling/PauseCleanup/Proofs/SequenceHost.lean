import PauseCleanup.Proofs.ClassCleaning.Worker
import PauseCleanup.Proofs.Unloading.Worker
/-!
# A host of which only the sequence is stable

The host may change its mind about everything but the sequence of its units. In a single move this
makes no difference: some host would always answer as this one does now.
-/
namespace PauseCleanup

open Host (Query Answer)
open Unloading (Chain)
open Frontier (Claim)

/-- The replies of a host of which only the sequence is known, panics apart. -/
def following (next : UnitId → Option UnitId) : Reply Answer → Prop
  | ⟨.nextAlive u, .ok a⟩ => a = next u
  | _ => True

/-- Some host with the given sequence. -/
def chainHost (next : UnitId → Option UnitId) : (q : Query) → Answer q
  | .firstAlive => none
  | .nextAlive u => next u
  | .unload .. => ()
  | .checkCode => none
  | .classSource => .listed []
  | .kindOf _ => .ordinary
  | .cleanTree => ()
  | .cleanLinks _ => ()
  | .tableEnabled => false
  | .beginSweep _ => ()
  | .endSweep => ()
  | .unlink .. => ()
  | .metadataEnabled => false
  | .releaseMetadata _ => ()

section

variable {next : UnitId → Option UnitId} {may : Reply Answer → Prop}

theorem following_of_agrees {host : (q : Query) → Answer q} {r : Reply Answer}
    (h : agreeing host r) : following (fun u => host (.nextAlive u)) r := by
  obtain ⟨q, a⟩ := r
  cases q with
  | nextAlive u =>
    cases a with
    | error cause => trivial
    | ok a => exact steady_agreeing host _ _ h
  | _ => trivial

theorem Move.Ensures.of_hosts {Mem State Result : Type} {mem : Mem}
    {P : Mem → Progress State Result → List (Reply Answer) → Prop} {mv : HostMove Mem State Result}
    (hmay : ∀ r, may r → following next r)
    (h : ∀ host : (q : Query) → Answer q, (fun u => host (.nextAlive u)) = next →
      mv.Ensures (fun r => may r ∧ agreeing host r) P mem) : mv.Ensures may P mem := by
  cases mv with
  | ask q resume rescue =>
    intro a ha
    cases a with
    | error cause => exact h (chainHost next) rfl _ ⟨ha, .inr ⟨cause, rfl⟩⟩
    | ok a =>
      refine h (Function.update (chainHost next) q a) ?_ _ ⟨ha, .inl ?_⟩
      · funext u
        by_cases hu : .nextAlive u = q
        · subst hu
          rw [Function.update_self]
          exact hmay _ ha
        · rw [Function.update_of_ne hu]
          rfl
      · rw [Function.update_self]
  | access m s notices => exact h (chainHost next) rfl
  | finish r => exact h (chainHost next) rfl
  | fail cause => exact h (chainHost next) rfl
  | abort reason => trivial

theorem steady_and_agreeing (may : Reply Answer → Prop) (host : (q : Query) → Answer q) :
    Steady host fun r => may r ∧ agreeing host r :=
  fun q a h => steady_agreeing host q a h.2

end

variable {may may' : Reply Answer → Prop} {next : UnitId → Option UnitId} {here : Option UnitId}
  {units : List UnitId}

theorem MayPanic.mono (hmay : ∀ r, may r → may' r) (h : MayPanic may) : MayPanic may' := by
  obtain ⟨q, cause, hq⟩ := h
  exact ⟨q, cause, hmay _ hq⟩

namespace Unloading.Worker

variable {p : Plan} {id : UInt32} {m : Shared}

/-- What is known of a running call has nothing to do with panics. -/
theorem Knows.running {s : Worker} (h : Knows may units p id m (.running s)) :
    Knows may' units p id m (.running s) := by
  cases s with
  | claim total c => cases c <;> exact h
  | _ => exact h

theorem Knows.mono (hmay : ∀ r, may r → may' r) {c : Progress Worker ℕ}
    (h : Knows may units p id m c) : Knows may' units p id m c := by
  cases c with
  | running s => exact h.running
  | returned total => exact h
  | panicked cause => exact h.imp_left (Or.imp_left (MayPanic.mono hmay))

/-- A worker keeps to the sequence, whatever else the host answers. -/
theorem move_following (hmay : ∀ r, may r → following next r) (hchain : Chain next here units)
    {t : Tallied Shared} (hf : t.own.frontier.Valid units) {s : Worker}
    (hs : Knows may units p id t.own (.running s)) : (s.move p t).Ensures may (fun t' c _ =>
      t'.own.frontier.Valid units ∧ Knows may units p id t'.own c ∧ Later t.own t'.own) t := by
  refine .of_hosts hmay fun host hhost => ?_
  have hmove := move_ensures (steady_and_agreeing may host) (hhost ▸ hchain) hf hs.running
  exact hmove.mono fun t' c l h => ⟨h.valid, h.knows.mono fun _ hr => hr.1, h.later⟩

end Unloading.Worker

namespace ClassCleaning.Worker

variable {m : Shared}

theorem Knows.running {s : Worker} (h : Knows may m (.running s)) :
    Knows may' m (.running s) := by
  cases s with
  | pick cleaned s => cases s <;> exact h
  | _ => exact h

theorem Knows.mono (hmay : ∀ r, may r → may' r) {c : Progress Worker ℕ} (h : Knows may m c) :
    Knows may' m c := by
  cases c with
  | running s => exact h.running
  | returned cleaned => exact h
  | panicked cause => exact MayPanic.mono hmay h

theorem move_following (hmay : ∀ r, may r → following next r) {t : Tallied Shared}
    (hm : t.own.source.Valid) {s : Worker} (hs : Knows may t.own (.running s)) :
    (s.move t).Ensures may (fun t' c _ =>
      t'.own.source.Valid ∧ Knows may t'.own c ∧ Later t.own t'.own) t := by
  refine .of_hosts hmay fun host _ => ?_
  have hmove := move_ensures (steady_and_agreeing may host) hm hs.running
  exact hmove.mono fun t' c l h => ⟨h.valid, h.knows.mono fun _ hr => hr.1, h.later⟩

end ClassCleaning.Worker

end PauseCleanup
