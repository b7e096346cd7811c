/-!
# What the library talks about: units, classes, objects, passes

Each of them is known by a 64-bit number. `describe` is the text of an identifier in messages.
-/
namespace PauseCleanup

structure UnitId where
  index : UInt64
  deriving DecidableEq, Ord

/-- A loaded class, by its position in the class registry. -/
structure ClassId where
  index : UInt64
  deriving DecidableEq, Ord

/-- An object of the heap, which a pass only hands back to the host. -/
structure HeapRef where
  address : UInt64
  deriving DecidableEq, Ord

/-- A cleaning pass. Ids are handed out by one counter of the process, starting at 1. -/
structure PassId where
  number : UInt64
  deriving DecidableEq, Ord

def UnitId.describe (u : UnitId) : String := s!"CodeId({u.index})"

def ClassId.describe (c : ClassId) : String := s!"ClassId({c.index})"

def HeapRef.describe (o : HeapRef) : String := s!"ObjectRef({o.address})"

def PassId.describe (p : PassId) : String := s!"PassId({p.number})"

inductive ClassLayout
  | ordinary
  | objectArray
  | typeArray
  deriving DecidableEq

namespace ClassLayout

def name : ClassLayout → String
  | .ordinary => "Instance"
  | .objectArray => "ObjectArray"
  | .typeArray => "TypeArray"

def isInstance : ClassLayout → Bool
  | .ordinary => true
  | _ => false

def all : List ClassLayout := [.ordinary, .objectArray, .typeArray]

theorem mem_all (k : ClassLayout) : k ∈ all := by
  cases k <;> decide

theorem isInstance_iff {k : ClassLayout} : k.isInstance = true ↔ k = .ordinary := by
  cases k <;> decide

end ClassLayout

/-- The most units that one claim may take: at least one. -/
structure BatchSize where
  val : UInt64
  pos : 0 < val := by decide
  deriving DecidableEq

namespace BatchSize

def ofWord (n : UInt64) : BatchSize :=
  if h : 0 < n then ⟨n, h⟩ else ⟨1, by decide⟩

/-- Whether a buffer for this many units can be addressed: eight bytes each, fewer than 2^63 in all.
-/
def fitsMemory (b : BatchSize) : Bool := b.val ≤ 1152921504606846975

end BatchSize

end PauseCleanup
