import PauseCleanup.Proofs.Unloading.Count
import PauseCleanup.Proofs.Unloading.Worker
/-!
# All that may be called on an open unloading

Beside the workers, anybody may claim batches and keep them. Such a claim takes units out of the
frontier that nobody will unload.
-/
namespace PauseCleanup.Unloading

open Host (Query Answer)
open Frontier (Claim Batch)
open scoped UInt64.CommRing

/-- A call on an open unloading. -/
inductive Operation
  | work (s : Worker)
  | claim (c : Claim)

/-- How an operation is called: as a worker with an id, or as a claim with a buffer. -/
inductive Call
  | worker (id : UInt32)
  | claim (buffer : List UnitId)

def Call.start : Call → Operation
  | .worker id => .work (.start id)
  | .claim buffer => .claim (.start buffer)

def Call.enters (p : Plan) : Call → Bool
  | .worker id => id < p.workers
  | .claim _ => false

namespace Operation

def move (p : Plan) (m : Tallied Shared) :
    Operation → HostMove (Tallied Shared) Operation (ℕ ⊕ Batch)
  | .work s => (s.move p m).lift m (fun m => m) .work fun total => .finish (.inl total)
  | .claim c =>
    (c.move p.batch m.own.frontier).lift m (fun f => { m with own.frontier := f }) .claim
      fun b => .finish (.inr b)

def Knows (may : Reply Answer → Prop) (units : List UnitId) (p : Plan) (m : Shared) :
    Progress Operation (ℕ ⊕ Batch) → Prop
  | .running (.work s) => ∃ id, Worker.Knows may units p id m (.running s)
  | .running (.claim c) => Claim.Knows may units p.batch m.frontier (.running c)
  | _ => True

/-- The units in the hands of an operation, those of a bare claim also when it is over. -/
def owes (p : Plan) : Progress Operation (ℕ ⊕ Batch) → Multiset Query
  | .running (.work s) => Worker.owes p (.running s)
  | .running (.claim c) => p.asks (Claim.held (.running c))
  | .returned (.inr b) => p.asks b.units
  | _ => 0

variable {may : Reply Answer → Prop} {units : List UnitId} {p : Plan} {m m' : Shared}

theorem knows_stable {c : Progress Operation (ℕ ⊕ Batch)} (h : Later m m')
    (hc : Knows may units p m c) : Knows may units p m' c := by
  cases c with
  | running s =>
    cases s with
    | work s =>
      obtain ⟨id, hs⟩ := hc
      exact ⟨id, Worker.knows_stable h hs⟩
    | claim c => exact Claim.knows_stable h.frontier hc
  | returned r => trivial
  | panicked cause => trivial

/-- What one move of an operation does. -/
structure Moved (may : Reply Answer → Prop) (units : List UnitId) (p : Plan) (m : Shared)
    (s : Operation) (m' : Shared) (c : Progress Operation (ℕ ⊕ Batch))
    (l : List (Reply Answer)) : Prop where
  valid : m'.frontier.Valid units
  knows : Knows may units p m' c
  later : Later m m'
  settles : Settles c (m'.owes p units + owes p c + chores l) (m.owes p units + owes p (.running s))

theorem move_ensures {host : (q : Query) → Answer q} {here : Option UnitId} (hmay : Steady host may)
    (hchain : Chain (fun u => host (.nextAlive u)) here units) {t : Tallied Shared}
    (hf : t.own.frontier.Valid units) {s : Operation} (hs : Knows may units p t.own (.running s)) :
    (s.move p t).Ensures may (fun t' c l => Moved may units p t.own s t'.own c l) t := by
  cases s with
  | work s =>
    obtain ⟨id, hs⟩ := hs
    have hmove := Worker.move_ensures hmay hchain hf hs
    refine hmove.lift rfl ?_ ?_ ?_
    · intro t' s' l hinner
      obtain ⟨hv, hk, hlater, hset⟩ := hinner
      exact ⟨hv, ⟨id, hk⟩, hlater, .of_eq (hset.eq (by simp))⟩
    · intro total hinner
      obtain ⟨hv, hk, hlater, hset⟩ := hinner
      exact ⟨hv, trivial, hlater, .of_eq (hset.eq (by simp))⟩
    · intro cause l hinner
      obtain ⟨-, -, -, hset⟩ := hinner
      exact ⟨hf, trivial, .refl _, .of_panic hset.le⟩
  | claim c =>
    have hsound : c.Sound units p.batch := Claim.Knows.sound hs
    have hmove := (Claim.move_ensures hmay hchain hf hs).and (c.asks_next _ _)
    refine hmove.lift rfl ?_ ?_ ?_
    · intro f c' l hinner
      obtain ⟨hm, hl⟩ := hinner
      have hlater : Later t.own { t.own with frontier := f } := ⟨id, hm.later⟩
      have hset := claim_settles (p := p) hl hm.yields hsound
      exact ⟨hm.valid, hm.knows, hlater, .of_eq hset⟩
    · intro b hinner
      obtain ⟨hm, hl⟩ := hinner
      have hset := claim_settles (p := p) hl hm.yields hsound
      exact ⟨hm.valid, trivial, .refl _, .of_eq hset⟩
    · intro cause l hinner
      obtain ⟨hm, hl⟩ := hinner
      have hset := claim_settles (p := p) hl hm.yields hsound
      exact ⟨hf, trivial, .refl _, .of_eq hset⟩

/-- Units that were unloaded by an operation and not counted yet. -/
def uncounted : Progress Operation (ℕ ⊕ Batch) → UInt64
  | .running (.work s) => Worker.uncounted (.running s)
  | _ => 0

theorem move_counts (p : Plan) (t : Tallied Shared) (s : Operation) :
    (s.move p t).Ensures may (Counts (fun t => t.own.unloaded) uncounted t (.running s)) t := by
  cases s with
  | work s =>
    refine (s.move_counts p t).lift rfl ?_ ?_ ?_
    · exact fun t' s' l h => h
    · exact fun total h => h
    · exact fun cause l h => h
  | claim c =>
    refine (c.asks_next p.batch t.own.frontier).lift rfl ?_ ?_ ?_
    · exact fun f c' l hl => .quiet rfl rfl (unloadings_of_next hl)
    · exact fun b _ => .quiet rfl rfl rfl
    · exact fun cause l hl => .quiet rfl rfl (unloadings_of_next hl)

end Operation

def Worker.unentered (p : Plan) : Progress Worker ℕ → UInt64
  | .running (.start id) => if id < p.workers then 1 else 0
  | .running (.enter _) => 1
  | _ => 0

theorem Worker.move_enters {may : Reply Answer → Prop} (p : Plan) (t : Tallied Shared)
    (s : Worker) :
    (s.move p t).Ensures may
      (fun t' c _ =>
        t'.own.entered + unentered p c = t.own.entered + unentered p (.running s)) t := by
  cases s with
  | start id =>
    simp only [move]
    split
    · next h => simp [Move.Ensures, unentered, h]
    · next h => simp [Move.Ensures, unentered, h]
  | enter id =>
    have hnone : unentered p (.running (afterEnter p id)) = 0 := by
      unfold afterEnter
      split
      · split <;> rfl
      · rfl
    show t.own.entered + 1 + unentered p (.running (afterEnter p id)) = t.own.entered + 1
    rw [hnone, add_zero]
  | first u attempt =>
    refine (attempt.within t.own.first none).lift rfl ?_ ?_ ?_
    · exact fun _ _ _ _ => rfl
    · intro won _
      cases won <;> exact rfl
    · exact fun _ _ _ => rfl
  | buffer total =>
    simp only [move]
    split <;> exact rfl
  | claim total c =>
    refine (c.within p.batch t.own.frontier).lift rfl ?_ ?_ ?_
    · exact fun _ _ _ _ => rfl
    · intro b _
      by_cases hb : b.units = []
      · simp only [hb, if_true]
        exact rfl
      · simp only [hb, if_false]
        exact rfl
    · exact fun _ _ _ => rfl
  | unload total us opened =>
    cases us with
    | nil =>
      simp only [move]
      split <;> exact rfl
    | cons u us => rintro (cause | a) _ <;> exact rfl
  | _ => exact rfl

def Operation.unentered (p : Plan) : Progress Operation (ℕ ⊕ Batch) → UInt64
  | .running (.work s) => Worker.unentered p (.running s)
  | _ => 0

theorem Operation.move_enters {may : Reply Answer → Prop} (p : Plan) (t : Tallied Shared)
    (s : Operation) :
    (s.move p t).Ensures may
      (fun t' c _ =>
        t'.own.entered + unentered p c = t.own.entered + unentered p (.running s)) t := by
  cases s with
  | work s =>
    refine (s.move_enters p t).lift rfl ?_ ?_ ?_
    · exact fun _ _ _ h => h
    · exact fun _ h => h
    · exact fun _ _ h => h
  | claim c =>
    refine (c.within p.batch t.own.frontier).lift rfl ?_ ?_ ?_
    · exact fun _ _ _ _ => rfl
    · exact fun _ _ => rfl
    · exact fun _ _ _ => rfl

def operate {ι : Type} [DecidableEq ι] (p : Plan) (t : Tallied Shared) (calls : ι → Call)
    (turns : List (Turn ι Answer)) : Pool ι Answer (Tallied Shared) Operation (ℕ ⊕ Batch) :=
  (Pool.start t fun i => (calls i).start).run (fun _ => Operation.move p) turns

end PauseCleanup.Unloading
