import PauseCleanup.Tally
import Mathlib.Algebra.Group.Nat.Defs
import Mathlib.Data.UInt
/-!
# Tallies add up

Tallies add up: counters as words, and a flag is up if it is up in one of them. What was entered,
what is still to be entered and what is still to be done have one sum.
-/
namespace PauseCleanup.Tally

open scoped UInt64.CommRing

instance : Zero Tally := ⟨{}⟩

instance : Add Tally where
  add s t :=
    { workers := s.workers + t.workers
      units := s.units + t.units
      batches := s.batches + t.batches
      retries := s.retries + t.retries
      cleaned := s.cleaned + t.cleaned
      skipped := s.skipped + t.skipped
      treeRebuilt := s.treeRebuilt || t.treeRebuilt
      metadataReleased := s.metadataReleased || t.metadataReleased
      partitions := s.partitions + t.partitions }

theorem zero_def : (0 : Tally) = {} := rfl

theorem add_def (s t : Tally) : s + t =
    { workers := s.workers + t.workers
      units := s.units + t.units
      batches := s.batches + t.batches
      retries := s.retries + t.retries
      cleaned := s.cleaned + t.cleaned
      skipped := s.skipped + t.skipped
      treeRebuilt := s.treeRebuilt || t.treeRebuilt
      metadataReleased := s.metadataReleased || t.metadataReleased
      partitions := s.partitions + t.partitions } := rfl

instance : AddCommMonoid Tally where
  add_assoc s t u := by simp only [add_def, add_assoc, Bool.or_assoc]
  zero_add t := by simp only [add_def, zero_def, zero_add, Bool.false_or]
  add_zero t := by simp only [add_def, zero_def, add_zero, Bool.or_false]
  add_comm s t := by simp only [add_def, add_comm, Bool.or_comm]
  nsmul := nsmulRec

theorem nsmul_def (n : ℕ) (t : Tally) : n • t =
    { workers := .ofNat n * t.workers
      units := .ofNat n * t.units
      batches := .ofNat n * t.batches
      retries := .ofNat n * t.retries
      cleaned := .ofNat n * t.cleaned
      skipped := .ofNat n * t.skipped
      treeRebuilt := n != 0 && t.treeRebuilt
      metadataReleased := n != 0 && t.metadataReleased
      partitions := .ofNat n * t.partitions } := by
  induction n with
  | zero => simp [zero_def]
  | succ n ih =>
    rw [succ_nsmul, ih, add_def]
    simp [UInt64.ofNat_add, add_mul]

/-- All that is counted, without the walks that were thrown away: how many of these there are
depends on the interleaving. -/
def sums (t : Tally) : Tally := { t with retries := 0 }

end PauseCleanup.Tally
