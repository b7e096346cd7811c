import PauseCleanup.Tally
import PauseCleanup.Move
/-!
# The ledger: what the process remembers of its passes

The ledger hands out the pass ids and keeps totals since the process began, the numbers of the
latest passes, and those of the last pass of each thread. Times are left out of all three.
-/
namespace PauseCleanup

structure Thread where
  id : Nat
  deriving DecidableEq

/-- Sums over all recorded passes. -/
structure Totals where
  passes : UInt64 := 0
  withUnloading : UInt64 := 0
  units : UInt64 := 0
  cleaned : UInt64 := 0
  retries : UInt64 := 0
  deriving DecidableEq

structure Ledger where
  nextPass : UInt64 := 1
  totals : Totals := {}
  history : List Metrics := []
  last : List (Thread × Metrics) := []
  deriving DecidableEq

namespace Ledger

/-- How many passes the history remembers. -/
def historySize : Nat := 64

/-- The next pass id, and the ledger after it is handed out. -/
def newPass (l : Ledger) : PassId × Ledger := (⟨l.nextPass⟩, { l with nextPass := l.nextPass + 1 })

def lastOf (l : Ledger) (t : Thread) : Metrics :=
  ((l.last.find? fun e => e.1 = t).map (·.2)).getD Metrics.zero

/-- At most `n` of the latest passes, newest first. -/
def recent (l : Ledger) (n : Nat) : List Metrics := l.history.reverse.take n

def setLast (l : Ledger) (t : Thread) (m : Metrics) : Ledger :=
  { l with last := (t, m) :: l.last.filter fun e => e.1 ≠ t }

def remember (l : Ledger) (m : Metrics) : Ledger :=
  { l with
    history := (if l.history.length = historySize then l.history.drop 1 else l.history) ++ [m] }

theorem lastOf_setLast (l : Ledger) (t : Thread) (m : Metrics) : (l.setLast t m).lastOf t = m := by
  simp [setLast, lastOf]

theorem lastOf_setLast_of_ne (l : Ledger) {s t : Thread} (m : Metrics) (h : s ≠ t) :
    (l.setLast t m).lastOf s = l.lastOf s := by
  have hts : ¬t = s := fun e => h e.symm
  simp only [setLast, lastOf, List.find?_cons, hts, decide_false, List.find?_filter]
  congr 3
  funext e
  by_cases he : e.1 = s <;> simp [he, h]

/-- The steps by which one pass is entered: the thread's own record, one total after the other, the
history. -/
inductive Record
  | last
  | passes
  | withUnloading
  | units
  | cleaned
  | retries
  | history
  | done
  deriving DecidableEq

variable {Q : Type} {A : Q → Type}

def Record.move (t : Thread) (m : Metrics) (l : Ledger) : Record → Move A Ledger Record Unit
  | .last => .access (l.setLast t m) .passes
  | .passes =>
    .access { l with totals.passes := l.totals.passes + 1 }
      (if m.unloading then .withUnloading else .units)
  | .withUnloading => .access { l with totals.withUnloading := l.totals.withUnloading + 1 } .units
  | .units => .access { l with totals.units := l.totals.units + m.counts.units } .cleaned
  | .cleaned => .access { l with totals.cleaned := l.totals.cleaned + m.counts.cleaned } .retries
  | .retries => .access { l with totals.retries := l.totals.retries + m.counts.retries } .history
  | .history => .access (l.remember m) .done
  | .done => .finish ()

end Ledger

end PauseCleanup
