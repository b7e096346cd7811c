import PauseCleanup.Ident
/-!
# The alive units as a list

The host tells its alive units one at a time. `Chain next here us` says that the sequence that
starts at `here` is finite and consists of the units `us`, in this order.
-/
namespace PauseCleanup.Unloading

inductive Chain (next : UnitId → Option UnitId) : Option UnitId → List UnitId → Prop
  | nil : Chain next none []
  | cons {u : UnitId} {us : List UnitId} : Chain next (next u) us → Chain next (some u) (u :: us)

namespace Chain

variable {next : UnitId → Option UnitId}

theorem of_none {us : List UnitId} (h : Chain next none us) : us = [] := by
  cases h
  rfl

theorem of_some {u : UnitId} {us : List UnitId} (h : Chain next (some u) us) :
    ∃ rest, us = u :: rest ∧ Chain next (next u) rest := by
  cases h with
  | cons h => exact ⟨_, rfl, h⟩

theorem head?_eq {here : Option UnitId} {us : List UnitId} (h : Chain next here us) :
    us.head? = here := by
  cases h <;> rfl

/-- A sequence has one list. -/
theorem unique {here : Option UnitId} {us vs : List UnitId} (h : Chain next here us)
    (h' : Chain next here vs) : us = vs := by
  induction h generalizing vs with
  | nil => exact h'.of_none.symm
  | cons _ ih =>
    obtain ⟨rest, rfl, hrest⟩ := h'.of_some
    rw [ih hrest]

end Chain

/-- A sequence of units that a pass can work on: finite, no unit twice, and every index has a
successor word. -/
structure Stable (next : UnitId → Option UnitId) (here : Option UnitId) (us : List UnitId) :
    Prop where
  chain : Chain next here us
  nodup : us.Nodup
  small : ∀ u ∈ us, u.index.toNat < 18446744073709551615

end PauseCleanup.Unloading
