/-!
# Successor of a word

The claims keep their place in one 64-bit word, so the place after the last one does not exist.
-/
namespace PauseCleanup.Word

/-- The next word, if it still fits. -/
def succ? (n : UInt64) : Option UInt64 :=
  if n = 18446744073709551615 then none else some (n + 1)

theorem succ?_eq_some {n m : UInt64} (h : succ? n = some m) : m.toNat = n.toNat + 1 := by
  unfold succ? at h
  split at h
  · cases h
  · next hn =>
    cases h
    have hlt : n.toNat < 18446744073709551616 := n.toNat_lt
    have hne : n.toNat ≠ 18446744073709551615 := fun e => hn (UInt64.toNat_inj.1 e)
    rw [UInt64.toNat_add, UInt64.toNat_one, Nat.mod_eq_of_lt (by omega)]

theorem succ?_eq_none_iff {n : UInt64} : succ? n = none ↔ n.toNat = 18446744073709551615 := by
  unfold succ?
  split
  · next h => simp [h]
  · next h => simpa using fun e => h (UInt64.toNat_inj.1 e)

theorem exists_succ? {n : UInt64} (h : n.toNat < 18446744073709551615) :
    ∃ m, succ? n = some m ∧ m.toNat = n.toNat + 1 := by
  cases hs : succ? n with
  | none => exact absurd (succ?_eq_none_iff.1 hs) (by omega)
  | some m => exact ⟨m, rfl, succ?_eq_some hs⟩

end PauseCleanup.Word
