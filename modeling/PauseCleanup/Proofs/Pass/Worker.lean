import PauseCleanup.Proofs.ClassCleaning.Worker
import PauseCleanup.Proofs.MetadataRelease
import PauseCleanup.Proofs.TableSweep.Share
import PauseCleanup.Proofs.Unloading.Count
import PauseCleanup.Proofs.Unloading.Worker
/-!
# What a worker of a pass ensures

What a phase leaves behind when it is over stays so while the later ones run. What the pass owes is
what its parts owe, and to each worker its own share of the table.
-/
namespace PauseCleanup.Pass

open Host (Query Answer)
open scoped UInt64.CommRing

variable (host : (q : Query) → Answer q) (units : List UnitId) (p : Plan)

/-- What the shared memory still owes. -/
def Shared.owes (m : Shared) : Multiset Query :=
  m.code.owes p.code units + m.metadata.left (MetadataRelease.due host p.compiler p.unloading) +
    if p.unloading then m.classes.owes host else 0

section

variable {m : Shared}

theorem owes_putCode (t : Tallied Unloading.Shared) : (m.putCode t).owes host units p =
    t.own.owes p.code units + (m.metadata.left (MetadataRelease.due host p.compiler p.unloading) +
      if p.unloading then m.classes.owes host else 0) :=
  add_assoc _ _ _

theorem owes_putMetadata (t : Tallied OneShot) : (m.putMetadata t).owes host units p =
    t.own.left (MetadataRelease.due host p.compiler p.unloading) + (m.code.owes p.code units +
      if p.unloading then m.classes.owes host else 0) := by
  rw [add_left_comm, ← add_assoc]
  rfl

theorem owes_putClasses (hp : p.unloading = true) (t : Tallied ClassCleaning.Shared) :
    (m.putClasses t).owes host units p = t.own.owes host + (m.code.owes p.code units +
      m.metadata.left (MetadataRelease.due host p.compiler p.unloading)) := by
  rw [add_comm, Shared.owes, if_pos hp]
  rfl

end

structure Later (m m' : Shared) : Prop where
  code : Unloading.Later m.code m'.code
  metadata : m.metadata.Later m'.metadata
  classes : ClassCleaning.Later m.classes m'.classes

theorem Later.refl (m : Shared) : Later m m := ⟨.refl _, fun h => h, .refl _⟩

structure Valid (m : Shared) : Prop where
  frontier : m.code.frontier.Valid units
  source : m.classes.source.Valid

namespace Worker

/-- Nobody can be first any more to release the metadata, if it is to be released. -/
def MetadataDone (m : Shared) : Prop :=
  MetadataRelease.isDue host p.compiler p.unloading = true → m.metadata.taken = true

def CodeDone (id : UInt32) (m : Shared) : Prop :=
  Unloading.Worker.Settled p.code id m.code ∧ m.code.frontier.word = 0

/-- The tree was taken over by somebody, and no class is left. -/
def ClassesDone (m : Shared) : Prop := m.classes.tree.taken = true ∧ m.classes.source.IsEmpty

/-- Why a worker may panic: an unloading may, or it was one too many. -/
def Excused (may : Reply Answer → Prop) (id : UInt32) : Prop :=
  Unloading.Worker.Excused may units p.code id ∨ ¬id < p.workers

def Knows (may : Reply Answer → Prop) (id : UInt32) (m : Shared) : Progress Worker Unit → Prop
  | .running (.start id') => id' = id
  | .running (.enter id') => id' = id
  | .running (.metadata id' s) =>
    id' = id ∧ MetadataRelease.Worker.Knows host may p.compiler p.unloading m.metadata (.running s)
  | .running (.code id' s) =>
    id' = id ∧ MetadataDone host p m ∧ Unloading.Worker.Knows may units p.code id m.code
      (.running s)
  | .running (.table id' s) =>
    id' = id ∧ MetadataDone host p m ∧ CodeDone p id m ∧ TableSweep.Worker.Knows may (.running s)
  | .running (.classes id' s) =>
    p.unloading = true ∧ id' = id ∧ MetadataDone host p m ∧ CodeDone p id m ∧
      ClassCleaning.Worker.Knows may m.classes (.running s)
  | .running .done => MetadataDone host p m ∧ CodeDone p id m ∧ (p.unloading = true → ClassesDone m)
  | .returned _ => MetadataDone host p m ∧ CodeDone p id m ∧ (p.unloading = true → ClassesDone m)
  | .panicked _ => Excused units p may id

/-- What is in the hands of a worker. -/
def owes : Progress Worker Unit → Multiset Query
  | .running (.start id) => p.sweep.share id
  | .running (.enter id) => p.sweep.share id
  | .running (.metadata id s) =>
    MetadataRelease.Worker.owes host p.compiler p.unloading (.running s) + p.sweep.share id
  | .running (.code id s) => Unloading.Worker.owes p.code (.running s) + p.sweep.share id
  | .running (.table _ s) => TableSweep.Worker.owes p.sweep (.running s)
  | .running (.classes _ s) => ClassCleaning.Worker.owes host (.running s)
  | _ => 0

variable {host units p} {may : Reply Answer → Prop} {id : UInt32} {m m' : Shared}

theorem MetadataDone.later (h : Later m m') (hm : MetadataDone host p m) : MetadataDone host p m' :=
  fun hd => h.metadata (hm hd)

theorem CodeDone.later (h : Later m m') (hm : CodeDone p id m) : CodeDone p id m' :=
  ⟨hm.1.later h.code, h.code.frontier hm.2⟩

theorem ClassesDone.later (h : Later m m') (hm : ClassesDone m) : ClassesDone m' :=
  ⟨h.classes.tree hm.1, h.classes.source.isEmpty hm.2⟩

theorem knows_stable {c : Progress Worker Unit} (h : Later m m')
    (hc : Knows host units p may id m c) : Knows host units p may id m' c := by
  cases c with
  | running s =>
    cases s with
    | start id' => exact hc
    | enter id' => exact hc
    | metadata id' s => exact ⟨hc.1, MetadataRelease.Worker.knows_stable h.metadata hc.2⟩
    | code id' s => exact ⟨hc.1, hc.2.1.later h, Unloading.Worker.knows_stable h.code hc.2.2⟩
    | table id' s => exact ⟨hc.1, hc.2.1.later h, hc.2.2.1.later h, hc.2.2.2⟩
    | classes id' s =>
      obtain ⟨hp, hid, hmetadata, hcode, hs⟩ := hc
      exact ⟨hp, hid, hmetadata.later h, hcode.later h,
        ClassCleaning.Worker.knows_stable h.classes hs⟩
    | done => exact ⟨hc.1.later h, hc.2.1.later h, fun hp => (hc.2.2 hp).later h⟩
  | returned r => exact ⟨hc.1.later h, hc.2.1.later h, fun hp => (hc.2.2 hp).later h⟩
  | panicked cause => exact hc

/-- What one move of a worker does. -/
structure Moved (host : (q : Query) → Answer q) (units : List UnitId) (p : Plan)
    (may : Reply Answer → Prop) (id : UInt32) (m : Shared) (s : Worker) (m' : Shared)
    (c : Progress Worker Unit) (l : List (Reply Answer)) : Prop where
  valid : Valid units m'
  knows : Knows host units p may id m' c
  later : Later m m'
  settles : Settles c (m'.owes host units p + owes host p c + chores l)
    (m.owes host units p + owes host p (.running s))

theorem Moved.still {s : Worker} {c : Progress Worker Unit} {tally : Tally} (hm : Valid units m)
    (hc : Knows host units p may id { m with tally } c)
    (ho : owes host p c = owes host p (.running s)) :
    Moved host units p may id m s { m with tally } c [] := by
  refine ⟨⟨hm.frontier, hm.source⟩, hc, ⟨.refl _, fun h => h, .refl _⟩, .of_eq ?_⟩
  rw [ho, chores_nil, add_zero]
  rfl

section

variable {host : (q : Query) → Answer q} {here : Option UnitId}

theorem metadata_moved (hmay : Steady host may) (hm : Valid units m) {s : MetadataRelease.Worker}
    (hs : Knows host units p may id m (.running (.metadata id s))) :
    (move p m (.metadata id s)).Ensures may (Moved host units p may id m (.metadata id s)) m := by
  have hput := owes_putMetadata host units p (m := m)
  have hmove := MetadataRelease.Worker.move_ensures (t := m.metadataPart) hmay hs.2
  refine hmove.lift (Shared.putMetadata_metadataPart m) ?_ ?_ ?_
  · intro t' s' l hinner
    obtain ⟨hk, hlater, hset⟩ := hinner
    refine ⟨⟨hm.frontier, hm.source⟩, ⟨rfl, hk⟩, ⟨.refl _, hlater, .refl _⟩, ?_⟩
    rw [hput t', ← Shared.putMetadata_metadataPart m, hput]
    exact hset.frame (by simp) _ _ _
  · intro ran hinner
    obtain ⟨hk, -, hset⟩ := hinner
    refine ⟨hm, ⟨rfl, hk, rfl⟩, .refl m, ?_⟩
    rw [← Shared.putMetadata_metadataPart m, hput]
    exact hset.frame (by simp) _ _ _
  · intro cause l hinner
    obtain ⟨hk, -, hset⟩ := hinner
    refine ⟨hm, .inl (.inl (.inl hk)), .refl m, ?_⟩
    rw [← Shared.putMetadata_metadataPart m, hput]
    exact hset.frame_panic _ _ _

theorem code_moved (hmay : Steady host may)
    (hchain : Unloading.Chain (fun u => host (.nextAlive u)) here units) (hm : Valid units m)
    {s : Unloading.Worker} (hs : Knows host units p may id m (.running (.code id s))) :
    (move p m (.code id s)).Ensures may (Moved host units p may id m (.code id s)) m := by
  obtain ⟨-, hmetadata, hknows⟩ := hs
  have hput := owes_putCode host units p (m := m)
  have hmove := Unloading.Worker.move_ensures (t := m.codePart) hmay hchain hm.frontier hknows
  refine hmove.lift (Shared.putCode_codePart m) ?_ ?_ ?_
  · intro t' s' l hinner
    obtain ⟨hv, hk, hlater, hset⟩ := hinner
    refine ⟨⟨hv, hm.source⟩, ⟨rfl, hmetadata, hk⟩, ⟨hlater, fun h => h, .refl _⟩, ?_⟩
    rw [hput t', ← Shared.putCode_codePart m, hput]
    exact hset.frame (by simp) _ _ _
  · intro total hinner
    obtain ⟨-, hk, -, hset⟩ := hinner
    refine ⟨hm, ⟨rfl, hmetadata, hk, trivial⟩, .refl m, ?_⟩
    have ho : owes host p (.running (.table id (.start id))) =
        Unloading.Worker.owes p.code (.returned total) + p.sweep.share id := (zero_add _).symm
    rw [← Shared.putCode_codePart m, hput, ho]
    exact hset.frame (by simp) _ _ _
  · intro cause l hinner
    obtain ⟨-, hk, -, hset⟩ := hinner
    refine ⟨hm, .inl hk, .refl m, ?_⟩
    rw [← Shared.putCode_codePart m, hput]
    exact hset.frame_panic _ _ _

theorem table_moved (hm : Valid units m) {s : TableSweep.Worker}
    (hs : Knows host units p may id m (.running (.table id s))) :
    (move p m (.table id s)).Ensures may (Moved host units p may id m (.table id s)) m := by
  obtain ⟨-, hmetadata, hcode, hknows⟩ := hs
  refine (TableSweep.Worker.move_ensures p.sweep m.tally s).lift rfl ?_ ?_ ?_
  · intro t' s' l hinner
    obtain ⟨hk, hb⟩ := hinner
    refine ⟨⟨hm.frontier, hm.source⟩, ⟨rfl, hmetadata, hcode, hk⟩, ⟨.refl _, fun h => h, .refl _⟩,
      .of_eq ?_⟩
    rw [add_assoc]
    exact congrArg (m.owes host units p + ·) hb
  · intro r hinner
    obtain ⟨hk, hb⟩ := hinner
    have ho : owes host p (.running (.table id s)) = 0 := hb.symm
    by_cases hp : p.unloading = true
    · simp only [hp, if_true]
      exact .still hm ⟨hp, rfl, hmetadata, hcode, trivial⟩ ho.symm
    · simp only [hp]
      exact .still hm ⟨hmetadata, hcode, fun h => absurd h hp⟩ ho.symm
  · intro cause l hinner
    obtain ⟨hk, hb⟩ := hinner
    refine ⟨hm, .inl (.inl (.inl hk)), .refl m, .of_eq ?_⟩
    rw [add_assoc]
    exact congrArg (m.owes host units p + ·) hb

theorem classes_moved (hmay : Steady host may) (hm : Valid units m) {s : ClassCleaning.Worker}
    (hs : Knows host units p may id m (.running (.classes id s))) :
    (move p m (.classes id s)).Ensures may (Moved host units p may id m (.classes id s)) m := by
  obtain ⟨hp, -, hmetadata, hcode, hknows⟩ := hs
  have hput := owes_putClasses host units p (m := m) hp
  have hmove := ClassCleaning.Worker.move_ensures (t := m.classPart) hmay hm.source hknows
  refine hmove.lift (Shared.putClasses_classPart m) ?_ ?_ ?_
  · intro t' s' l hinner
    obtain ⟨hv, hk, hlater, hset⟩ := hinner
    refine ⟨⟨hm.frontier, hv⟩, ⟨hp, rfl, hmetadata, hcode, hk⟩, ⟨.refl _, fun h => h, hlater⟩, ?_⟩
    rw [hput t', ← Shared.putClasses_classPart m, hput]
    exact hset.beside (by simp) _
  · intro cleaned hinner
    obtain ⟨-, hk, -, hset⟩ := hinner
    refine ⟨hm, ⟨hmetadata, hcode, fun _ => hk⟩, .refl m, ?_⟩
    rw [← Shared.putClasses_classPart m, hput]
    exact hset.beside (by simp) _
  · intro cause l hinner
    obtain ⟨-, hk, -, hset⟩ := hinner
    refine ⟨hm, .inl (.inl (.inl hk)), .refl m, ?_⟩
    rw [← Shared.putClasses_classPart m, hput]
    exact hset.beside (fun cause h => by rw [← Progress.panicked.inj h]; rfl) _

theorem move_ensures (hmay : Steady host may)
    (hchain : Unloading.Chain (fun u => host (.nextAlive u)) here units)
    (hm : Valid units m) {s : Worker} (hs : Knows host units p may id m (.running s)) :
    (s.move p m).Ensures may (Moved host units p may id m s) m := by
  cases s with
  | start id' =>
    obtain rfl : id' = id := hs
    simp only [move]
    split
    · exact .still hm rfl rfl
    · next h =>
      refine ⟨hm, .inr h, .refl m, .of_panic ?_⟩
      rw [chores_nil, add_zero]
      exact add_le_add le_rfl (Multiset.zero_le _)
  | enter id' =>
    obtain rfl : id' = id := hs
    exact .still hm ⟨rfl, trivial⟩ (zero_add _)
  | metadata id' s =>
    obtain rfl : id' = id := hs.1
    exact metadata_moved hmay hm hs
  | code id' s =>
    obtain rfl : id' = id := hs.1
    exact code_moved hmay hchain hm hs
  | table id' s =>
    obtain rfl : id' = id := hs.1
    exact table_moved hm hs
  | classes id' s =>
    obtain rfl : id' = id := hs.2.1
    exact classes_moved hmay hm hs
  | done => exact .still hm hs rfl

end

def uncounted : Progress Worker Unit → UInt64
  | .running (.code _ s) => Unloading.Worker.uncounted (.running s)
  | _ => 0

theorem move_counts (p : Plan) (m : Shared) (s : Worker) :
    (s.move p m).Ensures may (Counts (fun m => m.code.unloaded) uncounted m (.running s)) m := by
  cases s with
  | start id =>
    simp only [move]
    split <;> exact .quiet rfl rfl rfl
  | enter id => exact .quiet rfl rfl rfl
  | metadata id s =>
    refine (s.within p.compiler p.unloading m.metadataPart).lift rfl ?_ ?_ ?_
    · exact fun t _ l hl => .quiet rfl rfl (unloadings_of_within hl (by decide))
    · exact fun ran _ => .quiet rfl rfl rfl
    · exact fun cause l hl => .quiet rfl rfl (unloadings_of_within hl (by decide))
  | code id s =>
    refine (s.move_counts p.code m.codePart).lift rfl ?_ ?_ ?_
    · exact fun t _ l hl => hl
    · exact fun total hl => hl
    · exact fun cause l hl => hl
  | table id s =>
    refine (s.within p.sweep m.tally).lift rfl ?_ ?_ ?_
    · exact fun t _ l hl => .quiet rfl rfl (unloadings_of_within hl (by decide))
    · intro r _
      split <;> exact .quiet rfl rfl rfl
    · exact fun cause l hl => .quiet rfl rfl (unloadings_of_within hl (by decide))
  | classes id s =>
    refine (s.within m.classPart).lift rfl ?_ ?_ ?_
    · exact fun t _ l hl => .quiet rfl rfl (unloadings_of_within hl (by decide))
    · exact fun cleaned _ => .quiet rfl rfl rfl
    · exact fun cause l hl => .quiet rfl rfl (unloadings_of_within hl (by decide))
  | done => exact .quiet rfl rfl rfl

end Worker

def work {ι : Type} [DecidableEq ι] (p : Plan) (m : Shared) (ids : ι → UInt32)
    (turns : List (Turn ι Answer)) : Pool ι Answer Shared Worker Unit :=
  (Pool.start m fun i => Worker.start (ids i)).run (fun _ => Worker.move p) turns

end PauseCleanup.Pass
