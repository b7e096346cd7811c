import PauseCleanup.Proofs.ClassCleaning.Worker
import PauseCleanup.Proofs.MetadataRelease
import PauseCleanup.Proofs.Phases
import PauseCleanup.Proofs.Tally
import PauseCleanup.Proofs.Unloading.Worker
import Mathlib.Algebra.Order.Floor.Div
/-!
# What the workers enter into the tally

A worker enters most of what it does later than it does it; what it has not entered yet is a tally
of its own. Batches are known beforehand, by the units behind the frontier.
-/
namespace PauseCleanup

open Host (Query Answer)
open scoped UInt64.CommRing

/-- What is to be entered for a reply. -/
def worth : Reply Answer → Tally
  | ⟨.unload .., .ok _⟩ => { units := 1 }
  | ⟨.kindOf _, .ok k⟩ => if ClassLayout.isInstance k then 0 else { skipped := 1 }
  | ⟨.cleanTree, .ok _⟩ => { treeRebuilt := true }
  | ⟨.cleanLinks _, .ok _⟩ => { cleaned := 1 }
  | ⟨.unlink .., .ok _⟩ => { partitions := 1 }
  | ⟨.releaseMetadata _, .ok _⟩ => { metadataReleased := true }
  | _ => 0

theorem sum_worth_of_phaseless {l : List (Reply Answer)} (h : Within none l) :
    (l.map worth).sum = 0 := by
  apply List.sum_eq_zero
  intro w hw
  obtain ⟨⟨q, a⟩, hr, rfl⟩ := List.mem_map.1 hw
  have hq : q.phase = none := h _ hr
  cases q <;> first | rfl | cases hq

theorem sum_worth_of_next {l : List (Reply Answer)} (h : ∀ r ∈ l, ∃ u, r.1 = .nextAlive u) :
    (l.map worth).sum = 0 := by
  apply List.sum_eq_zero
  intro w hw
  obtain ⟨⟨q, a⟩, hr, rfl⟩ := List.mem_map.1 hw
  obtain ⟨u, rfl⟩ := h _ hr
  rfl

/-- A move keeps the books: what it hears is entered or noted, unless it ends with a panic. -/
def Books {State Result : Type} (before after : Tally) (c : Progress State Result)
    (l : List (Reply Answer)) : Prop :=
  (∀ cause, c ≠ .panicked cause) → after = before + (l.map worth).sum

namespace Books

variable {State Result SubState SubResult : Type} {before after : Tally}
  {c : Progress State Result} {l : List (Reply Answer)}

theorem quiet (h : after = before) (hl : (l.map worth).sum = 0) : Books before after c l := by
  intro _
  rw [h, hl, add_zero]

theorem silent (h : after = before) : Books before after c [] := quiet h rfl

/-- A move that notes what it hears, to enter it later. -/
theorem noted {a x : Tally} (hl : (l.map worth).sum = x) : Books (a + 0) (a + x) c l := by
  intro _
  rw [hl, add_zero]

/-- A move that ends with a panic. -/
theorem torn {cause : Panic} :
    Books before after (.panicked cause : Progress State Result) l :=
  fun h => absurd rfl (h cause)

theorem inner {inner : Progress SubState SubResult} (h : Books before after inner l)
    (hinner : ∀ cause, inner ≠ .panicked cause) : Books before after c l :=
  fun _ => h hinner

/-- The same books, beside an amount that stays. -/
theorem frame {a a' o o' : Tally} (h : Books (a + o) (a' + o') c l) (x : Tally) :
    Books (a + x + o) (a' + x + o') c l := by
  intro hc
  rw [add_right_comm a', h hc, add_right_comm a x o, add_right_comm (a + o) x]

theorem beside {a a' o o' : Tally} {inner : Progress SubState SubResult}
    (h : Books (a + o) (a' + o') inner l) (hinner : ∀ cause, inner ≠ .panicked cause) (x : Tally) :
    Books (a + x + o) (a' + x + o') c l :=
  (h.inner hinner).frame x

end Books

namespace MetadataRelease.Worker

variable (may : Reply Answer → Prop)

/-- What a worker has still to enter. -/
def pending : Progress Worker Bool → Tally
  | .running .released => { metadataReleased := true }
  | _ => 0

theorem move_books (present unloading : Bool) (t : Tallied OneShot) (s : Worker) :
    (s.move present unloading t).Ensures may (fun t' c l =>
      Books (t.tally.sums + pending (.running s)) (t'.tally.sums + pending c) c l) t := by
  cases s with
  | start =>
    simp only [move]
    split
    · intro enabled _
      cases enabled with
      | error cause => exact .torn
      | ok enabled => cases enabled <;> exact .quiet rfl rfl
    · exact .silent rfl
  | claim attempt =>
    cases attempt with
    | look => exact .silent (by cases t.own.taken <;> rfl)
    | exchange => exact .silent rfl
    | done won => cases won <;> exact .silent rfl
  | release =>
    intro a _
    cases a with
    | error cause => exact .torn
    | ok a => exact .noted List.sum_singleton
  | released =>
    refine .silent ?_
    simp [pending, Tally.sums, Tally.add_def, Tally.zero_def]
  | done ran => exact .silent rfl

end MetadataRelease.Worker

namespace TableSweep.Worker

variable (may : Reply Answer → Prop)

def pending : Progress Worker Unit → Tally
  | .running .unlinked => { partitions := 1 }
  | _ => 0

theorem move_books (s : TableSweep) (t : Tally) (w : Worker) : (w.move s t).Ensures may
    (fun t' c l => Books (t.sums + pending (.running w)) (t'.sums + pending c) c l) t := by
  cases w with
  | start id =>
    simp only [move]
    split
    · intro a _
      cases a with
      | error cause => exact .torn
      | ok a => exact .noted List.sum_singleton
    · exact .silent rfl
  | unlinked =>
    refine .silent ?_
    simp [pending, Tally.sums, Tally.add_def, Tally.zero_def]
  | done => exact .silent rfl

end TableSweep.Worker

namespace ClassCleaning

variable (may : Reply Answer → Prop)

def Pick.pending : Progress Pick (Option ClassId) → Tally
  | .running (.draw skipped _) => skipped • { skipped := 1 }
  | .running (.kind skipped _) => skipped • { skipped := 1 }
  | .running (.settle skipped _) => skipped • { skipped := 1 }
  | _ => 0

theorem Pick.move_books (t : Tallied Shared) (s : Pick) : (s.move t).Ensures may (fun t' c l =>
    Books (t.tally.sums + pending (.running s)) (t'.tally.sums + pending c) c l) t := by
  cases s with
  | draw skipped d =>
    refine (d.silent t.own.source).lift rfl ?_ ?_ ?_
    · intro _ _ l hl
      rw [hl]
      exact .silent rfl
    · intro cls _
      cases cls <;> exact .silent rfl
    · exact fun _ _ _ => .torn
  | kind skipped c =>
    intro k _
    cases k with
    | error cause => exact .torn
    | ok k =>
      intro _
      by_cases hi : ClassLayout.isInstance k = true
      · simp [Pool.resumed, hi, pending, worth]
      · simp [Pool.resumed, hi, pending, worth, succ_nsmul, add_assoc]
  | settle skipped cls =>
    refine .silent ?_
    simp [pending, Tally.sums, Tally.nsmul_def, Tally.add_def, Tally.zero_def]
  | done cls => exact .silent rfl

namespace Worker

def pending : Progress Worker ℕ → Tally
  | .running .rebuilt => { treeRebuilt := true }
  | .running (.pick cleaned p) => cleaned • { cleaned := 1 } + Pick.pending (.running p)
  | .running (.clean cleaned _) => cleaned • { cleaned := 1 }
  | .running (.report cleaned) => cleaned • { cleaned := 1 }
  | _ => 0

theorem move_books (t : Tallied Shared) (s : Worker) : (s.move t).Ensures may (fun t' c l =>
    Books (t.tally.sums + pending (.running s)) (t'.tally.sums + pending c) c l) t := by
  have hfresh : pending (.running (.pick 0 .start)) = 0 := rfl
  cases s with
  | tree attempt =>
    refine (attempt.within t.own.tree none).lift rfl ?_ ?_ ?_
    · exact fun _ _ _ hl => .quiet rfl (sum_worth_of_phaseless hl)
    · intro won _
      cases won <;> exact .silent rfl
    · exact fun _ _ _ => .torn
  | rebuild =>
    intro a _
    cases a with
    | error cause => exact .torn
    | ok a => exact .noted List.sum_singleton
  | rebuilt =>
    refine .silent ?_
    rw [hfresh]
    simp [pending, Tally.sums, Tally.add_def, Tally.zero_def]
  | pick cleaned p =>
    have hmove := Pick.move_books may t p
    have hpick : ∀ (x : Tally) (p : Pick), x + pending (.running (.pick cleaned p)) =
        x + cleaned • { cleaned := 1 } + Pick.pending (.running p) := by
      intro x p
      rw [pending, ← add_assoc]
    refine hmove.lift rfl ?_ ?_ ?_
    · intro t' p' l h
      rw [hpick, hpick]
      exact h.beside (by simp) _
    · intro cls h
      have hafter : ∀ s : Worker, pending (.running s) = cleaned • { cleaned := 1 } →
          Books (t.tally.sums + pending (.running (.pick cleaned p)))
            (t.tally.sums + pending (.running s)) (.running s : Progress Worker ℕ) [] := by
        intro s hs
        have hreturned : pending (.running s) =
            cleaned • { cleaned := 1 } + Pick.pending (.returned cls) := by
          rw [hs]
          exact (add_zero _).symm
        rw [hpick, hreturned, ← add_assoc]
        exact h.beside (by simp) _
      cases cls with
      | none => exact hafter _ rfl
      | some c => exact hafter _ rfl
    · exact fun _ _ _ => .torn
  | clean cleaned c =>
    intro a _
    cases a with
    | error cause => exact .torn
    | ok a =>
      intro _
      show t.tally.sums + ((cleaned + 1) • { cleaned := 1 } + 0) =
        t.tally.sums + cleaned • { cleaned := 1 } + ([{ cleaned := 1 }] : List Tally).sum
      rw [add_zero, succ_nsmul, List.sum_singleton, add_assoc]
  | report cleaned =>
    refine .silent ?_
    simp [pending, Tally.sums, Tally.nsmul_def, Tally.add_def, Tally.zero_def]
  | done cleaned => exact .silent rfl

end Worker

end ClassCleaning

namespace Frontier.Claim

variable {may : Reply Answer → Prop} {units : List UnitId} {max : BatchSize} {f f' : Frontier}

def batches (c : Progress Claim Batch) : ℕ := if held c = [] then 0 else 1

/-- Among `n` units there is one batch more than among all that come after a full batch. -/
theorem ceilDiv_eq_add {k : ℕ} (hk : 0 < k) (n : ℕ) :
    n ⌈/⌉ k = (n - k) ⌈/⌉ k + if n = 0 then 0 else 1 := by
  simp only [Nat.ceilDiv_eq_add_pred_div]
  by_cases hn : n = 0
  · simp [hn]
  · rw [if_neg hn]
    have hleft : n + k - 1 = n - 1 + k := by omega
    rw [hleft, Nat.add_div_right _ hk]
    congr 1
    by_cases hle : k ≤ n
    · congr 1
      omega
    · rw [Nat.div_eq_of_lt (by omega), Nat.div_eq_of_lt (by omega)]

/-- Every batch but the last one is full: an exchange that goes through makes the batches that are
still to come one less, if there are any. -/
theorem Moved.batches_eq {c : Claim} {c' : Progress Claim Batch}
    (h : Moved may units max f c f' c') (hc : c.Sound units max) :
    (f'.rest units).length ⌈/⌉ max.val.toNat + batches c' =
      (f.rest units).length ⌈/⌉ max.val.toNat + batches (.running c) := by
  cases h.yields with
  | nothing _ hb =>
    rcases hb with hb | ⟨hb, hb'⟩
    · rw [batches, batches, held, held, hb]
    · simp [batches, held, hb, hb']
  | @batch lost last taken =>
    obtain ⟨-, htake, hdrop⟩ := Sound.exchange hc
    have hpos : 0 < max.val.toNat := UInt64.lt_iff_toNat_lt.1 max.pos
    have hempty : taken.reverse = [] ↔ (f.rest units).length = 0 := by
      rw [htake, List.take_eq_nil_iff, List.length_eq_zero_iff]
      exact or_iff_right (Nat.ne_of_gt hpos)
    rw [hdrop, List.length_drop, ceilDiv_eq_add hpos (f.rest units).length]
    simp [batches, held, brings, hempty]

end Frontier.Claim

namespace Unloading

open Frontier (Claim)

variable {may : Reply Answer → Prop} {host : (q : Query) → Answer q} {here : Option UnitId}
  {units : List UnitId} {p : Plan} {id : UInt32}

def Shared.coming (units : List UnitId) (p : Plan) (m : Shared) : Tally :=
  ((m.frontier.rest units).length ⌈/⌉ p.batch.val.toNat) • { batches := 1 }

namespace Worker

def pending : Progress Worker ℕ → Tally
  | .running (.claim _ c) => Claim.batches (.running c) • { batches := 1 }
  | .running (.batch ..) => { batches := 1 }
  | .running (.count ..) => { units := 1 }
  | .running (.tally ..) => { units := 1 }
  | _ => 0

/-- A claim enters nothing, for the batch that it takes was known to come. -/
theorem claim_books (hmay : Steady host may)
    (hchain : Chain (fun u => host (.nextAlive u)) here units) {t : Tallied Shared}
    (hf : t.own.frontier.Valid units) {total : ℕ} {c : Claim}
    (hc : Knows may units p id t.own (.running (.claim total c))) :
    ((Worker.claim total c).move p t).Ensures may (fun t' c' l =>
      Books (t.tally.sums + t.own.coming units p + pending (.running (.claim total c)))
        (t'.tally.sums + t'.own.coming units p + pending c') c' l) t := by
  have hbatches : ∀ {f' : Frontier} {c' : Progress Claim Frontier.Batch},
      c.Moved may units p.batch t.own.frontier f' c' → ∀ tally : Tally,
      tally.sums + Shared.coming units p { t.own with frontier := f' } +
        Claim.batches c' • { batches := 1 } =
      tally.sums + t.own.coming units p + pending (.running (.claim total c)) := by
    intro f' c' h tally
    rw [add_assoc, add_assoc, Shared.coming, Shared.coming, pending, ← add_nsmul, ← add_nsmul,
      h.batches_eq hc.2.sound]
  refine ((Claim.move_ensures hmay hchain hf hc.2).and (c.asks_next _ _)).lift rfl ?_ ?_ ?_
  · exact fun f' c' l h => .quiet (hbatches h.1 _) (sum_worth_of_next h.2)
  · intro b h
    split <;> next hb =>
      refine .silent ?_
      rw [← hbatches h.1]
      simp [pending, Claim.batches, Claim.held, Claim.brings, hb]
      rfl
  · exact fun _ _ _ => .torn

/-- All other moves leave the frontier as it is, and keep the books by themselves. -/
theorem move_notes (may : Reply Answer → Prop) (p : Plan) (t : Tallied Shared) {s : Worker}
    (hs : ∀ total c, s ≠ .claim total c) :
    (s.move p t).Ensures may (fun t' c l => t'.own.frontier = t.own.frontier ∧
      Books (t.tally.sums + pending (.running s)) (t'.tally.sums + pending c) c l) t := by
  cases s with
  | start id =>
    simp only [move]
    split
    · exact ⟨rfl, .silent rfl⟩
    · exact ⟨rfl, .torn⟩
  | enter id =>
    have hnone : pending (.running (afterEnter p id)) = 0 := by
      unfold afterEnter
      split
      · split <;> rfl
      · rfl
    refine ⟨rfl, .silent ?_⟩
    rw [hnone]
    rfl
  | first u attempt =>
    refine (attempt.within t.own.first none).lift rfl ?_ ?_ ?_
    · exact fun _ _ _ hl => ⟨rfl, .quiet rfl (sum_worth_of_phaseless hl)⟩
    · intro won _
      cases won <;> exact ⟨rfl, .silent rfl⟩
    · exact fun _ _ _ => ⟨rfl, .torn⟩
  | buffer total =>
    simp only [move]
    split
    · exact ⟨rfl, .silent rfl⟩
    · exact ⟨rfl, .torn⟩
  | claim total c => exact absurd rfl (hs total c)
  | batch total us =>
    refine ⟨rfl, .silent ?_⟩
    simp [pending, Tally.sums, Tally.add_def, Tally.zero_def]
  | unload total us opened =>
    cases us with
    | nil =>
      simp only [move]
      cases opened <;> exact ⟨rfl, .silent rfl⟩
    | cons u us =>
      intro a _
      cases a with
      | error cause => exact ⟨rfl, .torn⟩
      | ok a => exact ⟨rfl, .noted List.sum_singleton⟩
  | count total us opened => exact ⟨rfl, .silent rfl⟩
  | tally total us opened =>
    refine ⟨rfl, .silent ?_⟩
    simp [pending, Tally.sums, Tally.add_def, Tally.zero_def]
  | done total => exact ⟨rfl, .silent rfl⟩

theorem move_books (hmay : Steady host may)
    (hchain : Chain (fun u => host (.nextAlive u)) here units) {t : Tallied Shared}
    (hf : t.own.frontier.Valid units) {s : Worker} (hs : Knows may units p id t.own (.running s)) :
    (s.move p t).Ensures may (fun t' c l =>
      Books (t.tally.sums + t.own.coming units p + pending (.running s))
        (t'.tally.sums + t'.own.coming units p + pending c) c l) t := by
  by_cases hclaim : ∃ total c, s = .claim total c
  · obtain ⟨total, c, rfl⟩ := hclaim
    exact claim_books hmay hchain hf hs
  · refine (move_notes may p t fun total c h => hclaim ⟨total, c, h⟩).mono fun t' c l h => ?_
    obtain ⟨hfrontier, hbooks⟩ := h
    rw [Shared.coming, Shared.coming, hfrontier]
    exact hbooks.frame _

end Worker

end Unloading

end PauseCleanup
