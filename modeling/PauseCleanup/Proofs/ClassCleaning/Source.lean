import PauseCleanup.Proofs.Dispenser
import PauseCleanup.ClassCleaning.Source
import Mathlib.Data.List.Nodup
/-!
# What drawing a class ensures

Dense or listed, a source has a list of classes still to be drawn, and a draw takes one from its
head.
-/
namespace PauseCleanup.ClassSource

open Host (Query Answer)
open Dispenser (Take)

/-- The classes still to be drawn. -/
def rest : ClassSource → List ClassId
  | .dense d => d.rest.map ClassId.mk
  | .listed cs => cs

def Valid : ClassSource → Prop
  | .dense d => d.Valid
  | .listed _ => True

/-- A source stays of its kind; the places of a dense one only advance, and a listed one that is
empty stays so. -/
def Later : ClassSource → ClassSource → Prop
  | .dense d, .dense d' => d.Later d'
  | .listed cs, .listed cs' => cs = [] → cs' = []
  | _, _ => False

def IsEmpty : ClassSource → Prop
  | .dense d => d.size ≤ d.next
  | .listed cs => cs = []

/-- A source that gives the classes below `len`, in order, by a dispenser or from a list. -/
def GivesBelow (len : UInt64) (s : ClassSource) : Prop :=
  s = .dense { size := len } ∨ s = .listed ((List.range len.toNat).map fun n => ⟨.ofNat n⟩)

section GivesBelow

variable {len : UInt64} {s : ClassSource}

theorem GivesBelow.valid (h : s.GivesBelow len) : s.Valid := by
  rcases h with rfl | rfl
  · exact UInt64.le_iff_toNat_le.2 (Nat.zero_le _)
  · trivial

theorem GivesBelow.rest_eq (h : s.GivesBelow len) :
    s.rest = (List.range len.toNat).map fun n => ⟨.ofNat n⟩ := by
  rcases h with rfl | rfl
  · rw [rest, Dispenser.rest_fresh, List.map_map]
    rfl
  · rfl

theorem GivesBelow.mem_rest (h : s.GivesBelow len) (c : ClassId) : c ∈ s.rest ↔ c.index < len := by
  rw [h.rest_eq, List.mem_map]
  constructor
  · intro hc
    obtain ⟨n, hn, rfl⟩ := hc
    have hlt := List.mem_range.1 hn
    rw [UInt64.lt_iff_toNat_lt, UInt64.toNat_ofNat_of_lt' (Nat.lt_trans hlt len.toNat_lt)]
    exact hlt
  · intro hc
    exact ⟨c.index.toNat, List.mem_range.2 (UInt64.lt_iff_toNat_lt.1 hc), by simp⟩

theorem GivesBelow.nodup_rest (h : s.GivesBelow len) : s.rest.Nodup := by
  rw [h.rest_eq]
  refine List.Nodup.map_on ?_ List.nodup_range
  intro a ha b hb he
  have ha' := Nat.lt_trans (List.mem_range.1 ha) len.toNat_lt
  have hb' := Nat.lt_trans (List.mem_range.1 hb) len.toNat_lt
  have hval := congrArg UInt64.toNat (ClassId.mk.inj he)
  rwa [UInt64.toNat_ofNat_of_lt' ha', UInt64.toNat_ofNat_of_lt' hb'] at hval

end GivesBelow

theorem Later.refl (s : ClassSource) : Later s s := by
  cases s with
  | dense d => exact Dispenser.Later.refl d
  | listed cs => exact fun h => h

theorem Later.isEmpty {s s' : ClassSource} (h : Later s s') (he : s.IsEmpty) : s'.IsEmpty := by
  cases s with
  | dense d =>
    cases s' with
    | dense d' => exact Dispenser.Later.le_next h he
    | listed cs => exact h.elim
  | listed cs =>
    cases s' with
    | dense d' => exact h.elim
    | listed cs' => exact h he

theorem rest_of_isEmpty {s : ClassSource} (h : s.IsEmpty) : s.rest = [] := by
  cases s with
  | dense d => simp [rest, Dispenser.rest_of_le h]
  | listed cs => exact h

namespace Draw

def Knows (s : ClassSource) : Progress Draw (Option ClassId) → Prop
  | .running .start => True
  | .running (.take t) => ∃ d, s = .dense d ∧ Take.Knows d (.running t)
  | .running (.done cls) => cls = none → s.IsEmpty
  | .returned cls => cls = none → s.IsEmpty
  | .panicked _ => False

def held : Progress Draw (Option ClassId) → List ClassId
  | .running (.take t) => (Take.held (.running t)).map ClassId.mk
  | .running (.done cls) => cls.toList
  | .returned cls => cls.toList
  | _ => []

theorem knows_stable {s s' : ClassSource} {c : Progress Draw (Option ClassId)} (h : Later s s')
    (hc : Knows s c) : Knows s' c := by
  cases c with
  | running d =>
    cases d with
    | start => trivial
    | done cls => exact fun hn => h.isEmpty (hc hn)
    | take t =>
      obtain ⟨d, rfl, hd⟩ := hc
      cases s' with
      | dense d' => exact ⟨d', rfl, Take.knows_stable h hd⟩
      | listed cs => exact h.elim
  | returned cls => exact fun hn => h.isEmpty (hc hn)
  | panicked cause => exact hc

/-- What one move of a draw does. -/
structure Moved (s : ClassSource) (d : Draw) (s' : ClassSource)
    (c : Progress Draw (Option ClassId)) (l : List (Reply Answer)) : Prop where
  valid : s'.Valid
  knows : Knows s' c
  later : Later s s'
  silent : l = []
  keeps : held c ++ s'.rest = held (.running d) ++ s.rest

theorem Moved.still {s : ClassSource} {d : Draw} {c : Progress Draw (Option ClassId)}
    (hs : s.Valid) (hc : Knows s c) (hheld : held c = held (.running d)) : Moved s d s c [] where
  valid := hs
  knows := hc
  later := .refl s
  silent := rfl
  keeps := by rw [hheld]

theorem move_ensures {may : Reply Answer → Prop} {s : ClassSource} (hs : s.Valid) {d : Draw}
    (hd : Knows s (.running d)) : (d.move s).Ensures may (Moved s d) s := by
  cases d with
  | done cls => exact .still hs hd rfl
  | start =>
    cases s with
    | dense d => exact .still hs ⟨d, rfl, trivial⟩ rfl
    | listed cs =>
      cases cs with
      | nil => exact .still trivial (fun _ => rfl) rfl
      | cons c rest =>
        exact {
          valid := trivial
          knows := fun h => absurd h (Option.some_ne_none c)
          later := fun h => absurd h (List.cons_ne_nil c rest)
          silent := rfl
          keeps := rfl }
  | take t =>
    obtain ⟨d, rfl, ht⟩ := hd
    refine (Take.move_ensures (A := Answer) hs false ht).lift rfl ?_ ?_ ?_
    · intro d' t' l hinner
      obtain ⟨hv, hk, hl, rfl, hb⟩ := hinner
      have hkeeps : held (.running (.take t')) ++ rest (.dense d') =
          held (.running (.take t)) ++ rest (.dense d) := by
        simpa [held, rest] using congrArg (List.map ClassId.mk) hb
      exact ⟨hv, ⟨d', rfl, hk⟩, hl, rfl, hkeeps⟩
    · intro number hinner
      obtain ⟨hv, hk, hl, -, hb⟩ := hinner
      refine ⟨hv, fun hn => hk (Option.map_eq_none_iff.1 hn), hl, rfl, ?_⟩
      cases number <;> simpa [held, rest, Take.held] using congrArg (List.map ClassId.mk) hb
    · intro cause l hinner
      obtain ⟨-, hk, -⟩ := hinner
      exact hk.elim

end Draw

end PauseCleanup.ClassSource
