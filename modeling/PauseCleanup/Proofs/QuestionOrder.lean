import PauseCleanup.Proofs.Phases
import PauseCleanup.Proofs.Pool.Heard
import Mathlib.Data.Nat.Notation
/-!
# When a question is due

`Due` says which questions a call may put after what it has heard, and every machine of a pass has,
at each of its places, heard what makes its next question due.
-/
namespace PauseCleanup

open Host (Query Answer)

section

variable {α : Type} {P : List α → α → Prop} {l : List α}

/-- Each element comes after what it has to come after. -/
def EachAfter (P : List α → α → Prop) (l : List α) : Prop :=
  ∀ past x rest, l = past ++ x :: rest → P past x

namespace EachAfter

theorem nil : EachAfter P [] := fun past x rest h => by simp at h

theorem concat (h : EachAfter P l) {x : α} (hx : P l x) : EachAfter P (l ++ [x]) := by
  intro past y rest he
  rcases split_append_singleton he with ⟨rfl, rfl, -⟩ | ⟨rest', -, hl⟩
  · exact hx
  · exact h past y rest' hl

theorem grow {l' : List α} (h : EachAfter P l) (hl : ∀ x ∈ l', P l x) (hlen : l'.length ≤ 1) :
    EachAfter P (l ++ l') := by
  match l', hlen with
  | [], _ => rwa [List.append_nil]
  | [x], _ => exact h.concat (hl x (List.mem_singleton.2 rfl))

theorem mono {P' : List α → α → Prop} (h : EachAfter P l) (hP : ∀ past x, P past x → P' past x) :
    EachAfter P' l :=
  fun past x rest he => hP past x (h past x rest he)

theorem tail {x : α} (h : EachAfter P (x :: l)) : EachAfter (fun past => P (x :: past)) l := by
  intro past y rest he
  exact h (x :: past) y rest (by rw [he]; rfl)

theorem pairwise {R : α → α → Prop} (h : EachAfter (fun past x => ∀ y ∈ past, R y x) l) :
    l.Pairwise R := by
  induction l with
  | nil => exact .nil
  | cons x l ih =>
    refine .cons ?_ (ih (h.tail.mono fun past y hy z hz => hy z (List.mem_cons_of_mem x hz)))
    intro y hy
    obtain ⟨past, rest, rfl⟩ := List.append_of_mem hy
    exact h (x :: past) y rest rfl x (by simp)

theorem countP_le_one {q : α → Bool}
    (h : EachAfter (fun past x => q x = true → ∀ y ∈ past, q y = false) l) :
    l.countP q ≤ 1 := by
  induction l with
  | nil => exact Nat.zero_le 1
  | cons x l ih =>
    cases hx : q x with
    | false =>
      rw [List.countP_cons_of_neg (by simp [hx])]
      exact ih (h.tail.mono fun past y hy hq z hz => hy hq z (List.mem_cons_of_mem x hz))
    | true =>
      have hnone : l.countP q = 0 := by
        rw [List.countP_eq_zero]
        intro y hy hq
        obtain ⟨past, rest, rfl⟩ := List.append_of_mem hy
        have hfirst := h (x :: past) y rest rfl hq x (by simp)
        rw [hx] at hfirst
        cases hfirst
      rw [List.countP_cons_of_pos hx]
      omega

end EachAfter

end

/-- The place of a question in the order of the phases. -/
def Host.Query.place (q : Query) : ℕ :=
  match q.phase with
  | some .metadata => 0
  | some .code => 1
  | some .table => 2
  | some .classes => 3
  | none => 4

def UpTo (n : ℕ) (h : List (Reply Answer)) : Prop := ∀ r ∈ h, r.1.place ≤ n

theorem UpTo.nil (n : ℕ) : UpTo n [] := fun _ hr => absurd hr List.not_mem_nil

theorem UpTo.mono {n n' : ℕ} {h : List (Reply Answer)} (hh : UpTo n h) (hn : n ≤ n') : UpTo n' h :=
  fun r hr => Nat.le_trans (hh r hr) hn

theorem UpTo.append {n : ℕ} {h l : List (Reply Answer)} (hh : UpTo n h) (hl : UpTo n l) :
    UpTo n (h ++ l) :=
  fun r hr => (List.mem_append.1 hr).elim (hh r) (hl r)

theorem UpTo.concat {n : ℕ} {h : List (Reply Answer)} (hh : UpTo n h) {r : Reply Answer}
    (hr : r.1.place ≤ n) : UpTo n (h ++ [r]) :=
  hh.append fun r' hr' => by rwa [List.mem_singleton.1 hr']

theorem upTo_of_within {ph : Phase} {n : ℕ} {l : List (Reply Answer)} (hl : Within (some ph) l)
    (hn : ∀ q : Query, q.phase = some ph → q.place = n) : UpTo n l :=
  fun r hr => Nat.le_of_eq (hn r.1 (hl r hr))

def Told (c : ClassId) (h : List (Reply Answer)) : Prop :=
  ∃ past k, h = past ++ [⟨.kindOf c, .ok k⟩] ∧ ClassLayout.isInstance k = true

/-- What a call must have heard before it puts a question. -/
def Due (past : List (Reply Answer)) (q : Query) : Prop :=
  UpTo q.place past ∧ match q with
    | .metadataEnabled => past = []
    | .releaseMetadata _ => ∀ r ∈ past, r.1 = .metadataEnabled
    | .unlink .. => UpTo 1 past
    | .cleanTree => UpTo 2 past
    | .cleanLinks c => Told c past
    | .nextAlive _ | .unload .. | .kindOf _ => True
    | _ => False

/-- One move: its question was due, and the call is prepared for the next one. -/
def Prepared {State Result : Type} (poised : Progress State Result → List (Reply Answer) → Prop)
    (h : List (Reply Answer)) (c : Progress State Result) (l : List (Reply Answer)) : Prop :=
  (∀ r ∈ l, Due h r.1) ∧ poised c (h ++ l)

theorem Prepared.silent {State Result : Type}
    {poised : Progress State Result → List (Reply Answer) → Prop} {h : List (Reply Answer)}
    {c : Progress State Result} (hc : poised c h) : Prepared poised h c [] :=
  ⟨fun _ hr => absurd hr List.not_mem_nil, by rwa [List.append_nil]⟩

theorem Prepared.asked {State Result : Type}
    {poised : Progress State Result → List (Reply Answer) → Prop} {h : List (Reply Answer)}
    {c : Progress State Result} {r : Reply Answer} (hr : Due h r.1) (hc : poised c (h ++ [r])) :
    Prepared poised h c [r] :=
  ⟨fun r' hr' => by rwa [List.mem_singleton.1 hr'], hc⟩

variable {may : Reply Answer → Prop} {h : List (Reply Answer)}

theorem OneShot.Try.silent (f : OneShot) (t : Try) :
    (t.move f : HostMove OneShot Try Bool).Ensures may
      (fun _ c l => l = [] ∧ ∀ cause, c ≠ .panicked cause) f := by
  cases t <;> exact ⟨rfl, fun cause h => by cases h⟩

namespace MetadataRelease.Worker

def Poised : Progress Worker Bool → List (Reply Answer) → Prop
  | .running .start, h => h = []
  | .running (.claim _), h => ∀ r ∈ h, r.1 = .metadataEnabled
  | .running .release, h => ∀ r ∈ h, r.1 = .metadataEnabled
  | _, h => UpTo 0 h

theorem upTo_of_enabled (hh : ∀ r ∈ h, r.1 = .metadataEnabled) : UpTo 0 h := by
  intro r hr
  rw [hh r hr]
  exact Nat.le_refl 0

theorem move_prepared (present unloading : Bool) (t : Tallied OneShot) {s : Worker}
    (hs : Poised (.running s) h) :
    (s.move present unloading t).Ensures may (fun _ c l => Prepared Poised h c l) t := by
  cases s with
  | start =>
    obtain rfl : h = [] := hs
    have hone : ∀ a, ∀ r ∈ [(⟨.metadataEnabled, a⟩ : Reply Answer)], r.1 = .metadataEnabled := by
      intro a r hr
      rw [List.mem_singleton.1 hr]
    simp only [move]
    split
    · intro enabled _
      refine .asked ⟨.nil 0, rfl⟩ ?_
      cases enabled with
      | error cause => exact upTo_of_enabled (hone _)
      | ok enabled =>
        cases enabled with
        | true => exact hone _
        | false => exact upTo_of_enabled (hone _)
    · exact .silent (.nil 0)
  | claim attempt =>
    refine (attempt.silent t.own).lift rfl ?_ ?_ ?_
    · intro _ next l hl
      rw [hl.1]
      exact .silent hs
    · intro won _
      cases won with
      | true => exact .silent hs
      | false => exact .silent (upTo_of_enabled hs)
    · exact fun cause _ hl => absurd rfl (hl.2 cause)
  | release =>
    intro a _
    have hup := upTo_of_enabled hs
    refine .asked ⟨hup, hs⟩ ?_
    cases a <;> exact hup.concat (Nat.le_refl 0)
  | released => exact .silent hs
  | done ran => exact .silent hs

end MetadataRelease.Worker

/-- Everything that an unloading asks is due at any time of its phase. -/
theorem Unloading.Worker.asks_due (p : Plan) (t : Tallied Shared) (s : Worker) (hh : UpTo 1 h) :
    (s.move p t).Ensures may (fun _ _ l => ∀ r ∈ l, Due h r.1) t := by
  refine (s.within p t).mono fun _ _ l hl r hr => ?_
  have hq := hl r hr
  cases hr' : r.1 with
  | nextAlive u => exact ⟨hh, trivial⟩
  | unload u pass unloading => exact ⟨hh, trivial⟩
  | _ =>
    rw [hr'] at hq
    cases hq

namespace TableSweep.Worker

def Poised : Progress Worker Unit → List (Reply Answer) → Prop
  | .running (.start _), h => UpTo 1 h
  | _, h => UpTo 2 h

theorem move_prepared (s : TableSweep) (t : Tally) {w : Worker} (hw : Poised (.running w) h) :
    (w.move s t).Ensures may (fun _ c l => Prepared Poised h c l) t := by
  cases w with
  | start id =>
    have hup : UpTo 2 h := UpTo.mono hw (by decide)
    simp only [move]
    split
    · intro a _
      refine .asked ⟨hup, hw⟩ ?_
      cases a <;> exact hup.concat (Nat.le_refl 2)
    · exact .silent hup
  | unlinked => exact .silent hw
  | done => exact .silent hw

end TableSweep.Worker

namespace ClassCleaning

/-- What a search has heard: last of all, the kind of the class that it has found. -/
def Pick.Poised : Progress Pick (Option ClassId) → List (Reply Answer) → Prop
  | .running (.settle _ (some c)), h => UpTo 3 h ∧ Told c h
  | .running (.done (some c)), h => UpTo 3 h ∧ Told c h
  | .returned (some c), h => UpTo 3 h ∧ Told c h
  | _, h => UpTo 3 h

theorem Pick.move_prepared (t : Tallied Shared) {s : Pick} (hs : Poised (.running s) h) :
    (s.move t).Ensures may (fun _ c l => Prepared Poised h c l) t := by
  cases s with
  | draw skipped d =>
    refine (d.silent t.own.source).lift rfl ?_ ?_ ?_
    · intro _ next l hl
      rw [hl]
      exact .silent hs
    · intro cls _
      cases cls <;> exact .silent hs
    · intro cause l hl
      rw [hl]
      exact .silent hs
  | kind skipped c =>
    have hup : UpTo 3 h := hs
    intro k _
    refine .asked ⟨hup, trivial⟩ ?_
    have hnext : ∀ a, UpTo 3 (h ++ [⟨.kindOf c, a⟩]) := fun a => hup.concat (Nat.le_refl 3)
    cases k with
    | error cause => exact hnext _
    | ok k =>
      cases hi : ClassLayout.isInstance k with
      | true =>
        simp only [Pool.resumed, hi, if_true]
        exact ⟨hnext _, h, k, rfl, hi⟩
      | false =>
        simp only [Pool.resumed, hi, Bool.false_eq_true, if_false]
        exact hnext _
  | settle skipped cls => cases cls <;> exact .silent hs
  | done cls => cases cls <;> exact .silent hs

namespace Worker

def Poised : Progress Worker ℕ → List (Reply Answer) → Prop
  | .running (.tree _), h => UpTo 2 h
  | .running .rebuild, h => UpTo 2 h
  | .running (.pick _ p), h => Pick.Poised (.running p) h
  | .running (.clean _ c), h => UpTo 3 h ∧ Told c h
  | _, h => UpTo 3 h

theorem move_prepared (t : Tallied Shared) {s : Worker} (hs : Poised (.running s) h) :
    (s.move t).Ensures may (fun _ c l => Prepared Poised h c l) t := by
  cases s with
  | tree attempt =>
    refine (attempt.silent t.own.tree).lift rfl ?_ ?_ ?_
    · intro _ next l hl
      rw [hl.1]
      exact .silent hs
    · intro won _
      cases won with
      | true => exact .silent hs
      | false => exact .silent (UpTo.mono hs (by decide))
    · exact fun cause _ hl => absurd rfl (hl.2 cause)
  | rebuild =>
    have hup : UpTo 3 h := UpTo.mono hs (by decide)
    intro a _
    refine .asked ⟨hup, hs⟩ ?_
    cases a <;> exact hup.concat (Nat.le_refl 3)
  | rebuilt => exact .silent hs
  | pick cleaned p =>
    refine (Pick.move_prepared t hs).lift rfl ?_ ?_ ?_
    · exact fun _ _ _ hl => hl
    · intro cls hl
      cases cls <;> exact hl
    · exact fun _ _ hl => hl
  | clean cleaned c =>
    obtain ⟨hup, htold⟩ := hs
    intro a _
    refine .asked ⟨hup, htold⟩ ?_
    cases a <;> exact hup.concat (Nat.le_refl 3)
  | report cleaned => exact .silent hs
  | done cleaned => exact .silent hs

end Worker

end ClassCleaning

end PauseCleanup
