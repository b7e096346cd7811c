import PauseCleanup.Crew
import PauseCleanup.Host
import PauseCleanup.Tuning
/-!
# Scripts for a rehearsal

A rehearsal plays the library on a scripted host. The script says what the host holds, what its
callbacks do beside their work, and which steps are taken one after the other. A step works on a
task in a numbered slot.
-/
namespace PauseCleanup.Rehearsal

/-- What a `new` step puts into its slot. -/
inductive Task
  | oneShot
  | frontier (start : Option UnitId)
  | dispenser (size : UInt64)
  | unloading (workers : UInt32) (unloading : Bool) (batch : BatchSize) (verify : Bool)
      (pass : PassId)
    (reports hostChecks : Bool)
  | classes (reports : Bool)
  | metadata (present reports : Bool)
  | sweep (resize keeps reports : Bool)
  | pass (tuning : Tuning) (unloading compiler : Bool)

/-- The scripted code cache: which units are alive, and in what order. -/
inductive Units
  /-- Unit `i` is alive if entry `i` says so; the order is that of the numbers. -/
  | flags (alive : List Bool)
  | links (first : Option UnitId) (next : List (UnitId × UnitId))
  | stride (first : Option UnitId) (size step : UInt64)

inductive Verdict
  | fine
  | found (v : Violation)
  | once

/-- Changes of the host; what is not named stays. -/
structure Change where
  units : Option Units := none
  verdict : Option Verdict := none
  dead : Option (List HeapRef) := none
  tableEnabled : Option Bool := none
  metadataEnabled : Option Bool := none

inductive Step
  | new (slot : Nat) (task : Task)
  | tryClaim (slot : Nat)
  | isClaimed (slot : Nat)
  | next (slot : Nat)
  | remaining (slot : Nat)
  | claim (slot : Nat) (max : BatchSize)
  | claimInto (slot : Nat) (max : BatchSize) (stale : List UnitId)
  | isExhausted (slot : Nat)
  | first (slot : Nat)
  | run (slot : Nat) (worker : UInt32) (unloading : Bool)
  | units (slot : Nat)
  | verify (slot : Nat)
  | claimTree (slot : Nat)
  | claimClass (slot : Nat)
  | claimMetadata (slot : Nat)
  | isEnabled (slot : Nat)
  | name (slot : Nat)
  | metrics (slot : Nat)
  | info (slot : Nat)
  | crew (slot : Nat) (crew : Crew)
  | crewRecord (crew : Crew) (panics : List (UInt32 × Payload))
  | close (slot : Nat)
  | forget (slot : Nat)
  | unwind (slot : Nat)
  | change (c : Change)
  | counts
  | calls
  | snapshot (pass : PassId) (unloading : Bool)
  | last
  | recent (n : Nat)
  | totals
  | nextPass

/-- Whether several threads take part in the step, so that the order of its events means nothing. -/
def Step.isShuffled : Step → Bool
  | .crew .. | .crewRecord .. => true
  | _ => false

inductive Callback
  | firstAlive
  | nextAlive
  | unload
  | checkCode
  | classSource
  | kindOf
  | cleanTree
  | cleanLinks
  | tableEnabled
  | beginSweep
  | endSweep
  | unlink
  | metadataEnabled
  | releaseMetadata
  deriving DecidableEq

namespace Callback

def all : List Callback :=
  [.firstAlive, .nextAlive, .unload, .checkCode, .classSource, .kindOf, .cleanTree, .cleanLinks,
    .tableEnabled, .beginSweep, .endSweep, .unlink, .metadataEnabled, .releaseMetadata]

theorem mem_all (c : Callback) : c ∈ all := by
  cases c <;> decide

def name : Callback → String
  | .firstAlive => "first_alive"
  | .nextAlive => "next_alive"
  | .unload => "unload"
  | .checkCode => "verify"
  | .classSource => "class_iterator"
  | .kindOf => "kind"
  | .cleanTree => "tree"
  | .cleanLinks => "clean"
  | .tableEnabled => "dedup_enabled"
  | .beginSweep => "begin"
  | .endSweep => "end"
  | .unlink => "unlink"
  | .metadataEnabled => "jvmci_enabled"
  | .releaseMetadata => "jvmci_unload"

def ofName? (s : String) : Option Callback := all.find? fun c => c.name == s

/-- The callback that answers a question. -/
def ofQuery : Host.Query → Callback
  | .firstAlive => .firstAlive
  | .nextAlive _ => .nextAlive
  | .unload .. => .unload
  | .checkCode => .checkCode
  | .classSource => .classSource
  | .kindOf _ => .kindOf
  | .cleanTree => .cleanTree
  | .cleanLinks _ => .cleanLinks
  | .tableEnabled => .tableEnabled
  | .beginSweep _ => .beginSweep
  | .endSweep => .endSweep
  | .unlink .. => .unlink
  | .metadataEnabled => .metadataEnabled
  | .releaseMetadata _ => .releaseMetadata

def argument : Host.Query → UInt64
  | .nextAlive u | .unload u _ _ => u.index
  | .kindOf c | .cleanLinks c => c.index
  | .unlink worker _ => worker.toUInt64
  | _ => 0

end Callback

inductive Act
  | panic (p : Payload)
  | steps (s : List Step)

/-- Fires on the `nth` callback of its kind that matches, or on each of them if `nth` is 0. -/
structure Hook where
  on : Callback
  argument : Option UInt64 := none
  nth : Nat := 1
  act : Act

def Hook.fits (h : Hook) (c : Callback) (argument : UInt64) : Bool :=
  h.on == c && (h.argument.getD argument == argument)

/-- Whether the hook fires on its `k`-th match. -/
def Hook.fires (h : Hook) (k : Nat) : Bool := h.nth == 0 || h.nth == k

/-- The scripted host. -/
structure World where
  units : Units := .flags []
  inside : List (UnitId × List HeapRef) := []
  dead : List HeapRef := []
  verdict : Verdict := .fine
  kinds : List ClassLayout := []
  listed : Option (List ClassId) := none
  tableEnabled : Bool := true
  table : List (List HeapRef) := []
  metadataEnabled : Bool := true
  hooks : List Hook := []

namespace Units

def firstTrue (i : Nat) : List Bool → Option Nat
  | [] => none
  | b :: rest => if b then some i else firstTrue (i + 1) rest

def first : Units → Option UnitId
  | .flags alive => (firstTrue 0 alive).map fun i => ⟨.ofNat i⟩
  | .links first _ => first
  | .stride first _ _ => first

def next (u : UnitId) : Units → Option UnitId
  | .flags alive =>
    let i := u.index.toNat + 1
    (firstTrue i (alive.drop i)).map fun i => ⟨.ofNat i⟩
  | .links _ next => next.reverse.lookup u
  | .stride _ size step =>
    let i := u.index.toNat + step.toNat
    if i < size.toNat then some ⟨.ofNat i⟩ else none

end Units

namespace World

def isAlive (w : World) (o : HeapRef) : Bool := !w.dead.contains o

def kindOf (w : World) (c : ClassId) : ClassLayout := w.kinds[c.index.toNat]?.getD .ordinary

def deadInside (w : World) (u : UnitId) : List HeapRef :=
  (w.inside.reverse.lookup u).getD [] |>.filter fun o => !w.isAlive o

def source (w : World) : ClassSource :=
  match w.listed with
  | some cs => .listed cs
  | none => .dense { size := .ofNat w.kinds.length }

def share (w : World) (worker : UInt32) : List HeapRef := w.table[worker.toNat]?.getD []

def change (w : World) (c : Change) : World :=
  { w with
    units := c.units.getD w.units
    verdict := c.verdict.getD w.verdict
    dead := c.dead.getD w.dead
    tableEnabled := c.tableEnabled.getD w.tableEnabled
    metadataEnabled := c.metadataEnabled.getD w.metadataEnabled }

end World

end PauseCleanup.Rehearsal
