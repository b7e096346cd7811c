import PauseCleanup.Race.Frontier
import PauseCleanup.Unloading.Chain
/-!
# What a frontier has still to hand out

A frontier stands at one of the `units` of the host and has those behind it still to hand out, or it
is used up. The word alone tells which they are.
-/
namespace PauseCleanup.Frontier

open Unloading (Chain)

/-- The units of a list that stand behind `u`. -/
def behind (units : List UnitId) (u : UnitId) : List UnitId := (units.dropWhile (· ≠ u)).tail

@[simp] theorem behind_cons_self (u : UnitId) (units : List UnitId) :
    behind (u :: units) u = units := by
  simp [behind]

theorem behind_cons_of_ne {u v : UnitId} (h : v ≠ u) (units : List UnitId) :
    behind (v :: units) u = behind units u := by
  simp [behind, h]

theorem behind_subset (units : List UnitId) (u : UnitId) : behind units u ⊆ units := by
  intro v hv
  exact List.dropWhile_subset _ (List.mem_of_mem_tail hv)

variable {next : UnitId → Option UnitId} {here : Option UnitId} {units : List UnitId}

theorem chain_behind (h : Chain next here units) {u : UnitId} (hu : u ∈ units) :
    Chain next (next u) (behind units u) := by
  induction h with
  | nil => simp at hu
  | @cons v us hc ih =>
    by_cases hv : v = u
    · subst hv
      simpa using hc
    · rw [behind_cons_of_ne hv]
      exact ih ((List.mem_cons.1 hu).resolve_left fun e => hv e.symm)

theorem behind_of_next_none (h : Chain next here units) {u : UnitId} (hu : u ∈ units)
    (hn : next u = none) : behind units u = [] := by
  have hb := chain_behind h hu
  rw [hn] at hb
  exact hb.of_none

theorem behind_of_next_some (h : Chain next here units) {u v : UnitId} (hu : u ∈ units)
    (hn : next u = some v) : v ∈ units ∧ behind units u = v :: behind units v := by
  have hb := chain_behind h hu
  rw [hn] at hb
  obtain ⟨rest, he, hrest⟩ := hb.of_some
  have hv : v ∈ units := behind_subset units u (by simp [he])
  exact ⟨hv, by rw [he, hrest.unique (chain_behind h hv)]⟩

theorem behind_length_lt {u : UnitId} {units : List UnitId} (hu : u ∈ units) :
    (behind units u).length < units.length := by
  have hlen : (units.dropWhile (· ≠ u)).length ≤ units.length :=
    (List.dropWhile_sublist _).length_le
  have hpos := List.length_pos_of_mem hu
  simp only [behind, List.length_tail]
  omega

theorem chain_nodup (h : Chain next here units) : units.Nodup := by
  induction h with
  | nil => exact List.nodup_nil
  | @cons u us hc ih =>
    refine List.nodup_cons.2 ⟨?_, ih⟩
    intro hu
    have hlt := behind_length_lt hu
    rw [← hc.unique (chain_behind hc hu)] at hlt
    omega

/-- The units that a frontier has still to hand out. -/
def rest (units : List UnitId) (f : Frontier) : List UnitId :=
  if f.word = 0 then [] else behind units (unitOf f.word)

theorem rest_of_zero (units : List UnitId) {f : Frontier} (h : f.word = 0) : f.rest units = [] := by
  simp [rest, h]

theorem rest_of_ne_zero (units : List UnitId) {f : Frontier} (h : f.word ≠ 0) :
    f.rest units = behind units (unitOf f.word) := by
  simp [rest, h]

/-- The frontier stands at a unit of the sequence, if anywhere. -/
def Valid (units : List UnitId) (f : Frontier) : Prop := f.word ≠ 0 → unitOf f.word ∈ units

theorem after_spec (h : Chain next here units) {f : Frontier} (hf : after here = some f) :
    f.Valid units ∧ f.rest units = units.tail := by
  cases h with
  | nil =>
    cases hf
    exact ⟨fun hne => absurd rfl hne, rfl⟩
  | @cons u us hc =>
    obtain ⟨w, hw, rfl⟩ := Option.map_eq_some_iff.1 hf
    have hu := unitOf_of_wordOf hw
    refine ⟨fun _ => by simp [hu], ?_⟩
    rw [rest_of_ne_zero _ (ne_zero_of_wordOf hw), hu]
    simp

end PauseCleanup.Frontier
