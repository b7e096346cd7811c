import PauseCleanup.Proofs.Pass.Worker
import PauseCleanup.Proofs.Pool.Course
/-!
# What the phases of a worker return

The calls of two phases return how many units they unloaded and how many classes they cleaned. A
pass only traces these results, so they are found where a worker is about to leave the phase.
-/
namespace PauseCleanup

open Host (Query Answer)

/-- Whether the reply is that of a class whose links were cleaned to the end. -/
def isCleaned : Reply Answer → Bool
  | ⟨.cleanLinks _, .ok _⟩ => true
  | _ => false

def cleanings (l : List (Reply Answer)) : ℕ := l.countP isCleaned

theorem cleanings_of_within {l : List (Reply Answer)} {ph : Option Phase} (h : Within ph l)
    (hph : ph ≠ some .classes) : cleanings l = 0 := by
  rw [cleanings, List.countP_eq_zero]
  rintro ⟨q, a⟩ hr hc
  have hq := h _ hr
  cases q with
  | cleanLinks cls => exact hph hq.symm
  | _ => simp [isCleaned] at hc

namespace Unloading.Worker

/-- How many units a worker has unloaded so far. -/
def subtotal : Progress Worker ℕ → ℕ
  | .running (.buffer total) => total
  | .running (.claim total _) => total
  | .running (.batch total _) => total
  | .running (.unload total _ _) => total
  | .running (.count total _ _) => total + 1
  | .running (.tally total _ _) => total + 1
  | .running (.done total) => total
  | .returned total => total
  | _ => 0

theorem move_subtotals (may : Reply Answer → Prop) (p : Plan) (t : Tallied Shared) (s : Worker) :
    (s.move p t).Ensures may (fun _ c l => (∀ cause, c ≠ .panicked cause) →
      subtotal c = subtotal (.running s) + unloadings l) t := by
  cases s with
  | start id =>
    simp only [move]
    split <;> exact fun _ => rfl
  | enter id =>
    intro _
    unfold afterEnter
    split
    · split <;> rfl
    · rfl
  | first u attempt =>
    refine (attempt.within t.own.first none).lift rfl ?_ ?_ ?_
    · intro _ _ l hl _
      exact (unloadings_of_within hl (by decide)).symm.trans (zero_add _).symm
    · intro won _
      cases won <;> exact fun _ => rfl
    · exact fun cause _ _ h => absurd rfl (h cause)
  | buffer total =>
    simp only [move]
    split
    · exact fun _ => rfl
    · exact fun h => absurd rfl (h _)
  | claim total c =>
    refine (c.asks_next p.batch t.own.frontier).lift rfl ?_ ?_ ?_
    · intro _ _ l hl _
      rw [unloadings_of_next hl]
      rfl
    · intro b _
      by_cases hb : b.units = []
      · simp only [hb, if_true]
        exact fun _ => rfl
      · simp only [hb, if_false]
        exact fun _ => rfl
    · exact fun cause _ _ h => absurd rfl (h cause)
  | unload total us opened =>
    cases us with
    | nil =>
      simp only [move]
      cases opened <;> exact fun _ => rfl
    | cons u us =>
      intro a _
      cases a with
      | error cause => exact fun h => absurd rfl (h cause)
      | ok a => exact fun _ => rfl
  | _ => exact fun _ => rfl

theorem done_of_returned {may : Reply Answer → Prop} (p : Plan) (t : Tallied Shared) (s : Worker) :
    (s.move p t).Ensures may (fun _ c _ => ∀ total, c = .returned total → s = .done total) t := by
  cases s with
  | start id =>
    simp only [move]
    split <;> exact fun _ h => by cases h
  | first u attempt =>
    cases attempt with
    | done won => cases won <;> exact fun _ h => by cases h
    | _ => exact fun _ h => by cases h
  | buffer total =>
    simp only [move]
    split <;> exact fun _ h => by cases h
  | claim total c =>
    refine (Move.Ensures.of_may _).lift rfl (fun _ _ _ _ _ h => by cases h) (fun b _ => ?_)
      (fun _ _ _ _ h => by cases h)
    exact fun _ h => by cases h
  | unload total us opened =>
    cases us with
    | nil => exact fun _ h => by cases h
    | cons u us => rintro (cause | a) _ <;> exact fun _ h => by cases h
  | done total => exact fun _ h => congrArg done (Progress.returned.inj h)
  | _ => exact fun _ h => by cases h

end Unloading.Worker

theorem ClassCleaning.Pick.cleans_nothing {may : Reply Answer → Prop} (t : Tallied Shared)
    (p : Pick) :
    (p.move t).Ensures may (fun _ _ l => cleanings l = 0) t := by
  cases p with
  | draw skipped d =>
    refine (d.silent t.own.source).lift rfl ?_ ?_ ?_
    · exact fun _ _ l hl => by rw [hl]; rfl
    · intro cls _
      cases cls <;> exact rfl
    · exact fun _ l hl => by rw [hl]; rfl
  | kind skipped c => exact fun a _ => rfl
  | settle skipped cls => exact rfl
  | done cls => exact rfl

namespace ClassCleaning.Worker

def subtotal : Progress Worker ℕ → ℕ
  | .running (.pick cleaned _) => cleaned
  | .running (.clean cleaned _) => cleaned
  | .running (.report cleaned) => cleaned
  | .running (.done cleaned) => cleaned
  | .returned cleaned => cleaned
  | _ => 0

theorem move_subtotals (may : Reply Answer → Prop) (t : Tallied Shared) (s : Worker) :
    (s.move t).Ensures may (fun _ c l => (∀ cause, c ≠ .panicked cause) →
      subtotal c = subtotal (.running s) + cleanings l) t := by
  cases s with
  | tree attempt =>
    refine (attempt.within t.own.tree none).lift rfl ?_ ?_ ?_
    · intro _ _ l hl _
      exact (cleanings_of_within hl (by decide)).symm.trans (zero_add _).symm
    · intro won _
      cases won <;> exact fun _ => rfl
    · exact fun cause _ _ h => absurd rfl (h cause)
  | rebuild =>
    intro a _
    cases a with
    | error cause => exact fun h => absurd rfl (h cause)
    | ok a => exact fun _ => rfl
  | pick cleaned p =>
    refine (p.cleans_nothing t).lift rfl ?_ ?_ ?_
    · intro _ _ l hl _
      rw [hl]
      rfl
    · intro cls _
      cases cls <;> exact fun _ => rfl
    · exact fun cause _ _ h => absurd rfl (h cause)
  | clean cleaned c =>
    intro a _
    cases a with
    | error cause => exact fun h => absurd rfl (h cause)
    | ok a => exact fun _ => rfl
  | _ => exact fun _ => rfl

theorem done_of_returned {may : Reply Answer → Prop} (t : Tallied Shared) (s : Worker) :
    (s.move t).Ensures may
      (fun _ c _ => ∀ cleaned, c = .returned cleaned → s = .done cleaned) t := by
  cases s with
  | tree attempt =>
    cases attempt with
    | done won => cases won <;> exact fun _ h => by cases h
    | _ => exact fun _ h => by cases h
  | rebuild => rintro (cause | a) _ <;> exact fun _ h => by cases h
  | pick cleaned p =>
    refine (Move.Ensures.of_may _).lift rfl (fun _ _ _ _ _ h => by cases h) (fun cls _ => ?_)
      (fun _ _ _ _ h => by cases h)
    cases cls <;> exact fun _ h => by cases h
  | clean cleaned c => rintro (cause | a) _ <;> exact fun _ h => by cases h
  | done cleaned => exact fun _ h => congrArg done (Progress.returned.inj h)
  | _ => exact fun _ h => by cases h

end ClassCleaning.Worker

namespace Pass

open Worker (Begins)

/-- What the calls of one phase count: how far a worker is with it, and the result with which it
is about to leave the phase. -/
structure Counting where
  phase : Phase
  counts : Reply Answer → Bool
  subtotal : Progress Worker Unit → ℕ
  result : Worker → Option ℕ
  phased : ∀ r, counts r = true → r.1.phase = some phase
  aside : ∀ s : Worker, s.phase ≠ some phase ∨ s.Begins → subtotal (.running s) = 0
  returned : subtotal (.returned ()) = 0
  result_aside : ∀ s : Worker, s.phase ≠ some phase → result s = none

namespace Counting

variable {k : Counting} {may : Reply Answer → Prop} {p : Plan} {m : Shared}

/-- What a move counts is in the subtotal after it, or in the result. -/
def Keeps (k : Counting) (s : Worker) (c : Progress Worker Unit) (l : List (Reply Answer)) : Prop :=
  (∀ cause, c ≠ .panicked cause) →
    k.subtotal c + (k.result s).getD 0 = k.subtotal (.running s) + l.countP k.counts

theorem counts_of_within {l : List (Reply Answer)} {ph : Option Phase} (h : Within ph l)
    (hph : ph ≠ some k.phase) : l.countP k.counts = 0 := by
  rw [List.countP_eq_zero]
  exact fun r hr hcounts => hph ((h r hr).symm.trans (k.phased r hcounts))

theorem move_aside {s : Worker} (hs : s.phase ≠ some k.phase) :
    (s.move p m).Ensures may (fun _ c l => k.Keeps s c l) m := by
  refine ((s.within p m).and (s.move_onward p m)).mono fun _ c l h hcalm => ?_
  obtain ⟨hwithin, honward⟩ := h
  have hafter : k.subtotal c = 0 := by
    cases c with
    | running s' =>
      have hs' : s'.phase ≠ some k.phase ∨ s'.Begins := by
        rcases honward s' rfl with hsame | hbegins
        · exact .inl (hsame ▸ hs)
        · exact .inr hbegins
      exact k.aside s' hs'
    | returned _ => exact k.returned
    | panicked cause => exact absurd rfl (hcalm cause)
  rw [hafter, k.aside s (.inl hs), k.result_aside s hs, counts_of_within hwithin hs]
  rfl

/-- The phase itself is a machine that keeps a subtotal of its own, and returns it in the end. -/
theorem move_inside {Sub SubState : Type} {inner : HostMove Sub SubState ℕ} {sub : Sub}
    {s : SubState} {inside : Progress SubState ℕ → ℕ} {done : ℕ → SubState}
    (hmove : inner.Ensures may (fun _ c l => (∀ cause, c ≠ .panicked cause) →
      inside c = inside (.running s) + l.countP k.counts) sub)
    (hreturned : inner.Ensures may (fun _ c _ => ∀ n, c = .returned n → s = done n) sub)
    (hinside : ∀ n, inside (.returned n) = n) {put : Sub → Shared} (hput : put sub = m)
    {wrap : SubState → Worker} {finished : ℕ → HostMove Shared Worker Unit}
    (hwrap : ∀ s, k.subtotal (.running (wrap s)) = inside (.running s))
    (hdone : ∀ n, s = done n → k.result (wrap s) = some n ∧ inner = .finish n)
    (hgoes : (∀ n, s ≠ done n) → k.result (wrap s) = none)
    (hfinished : ∀ n, (finished n).Ensures may (fun _ c l => k.subtotal c = 0 ∧ l = []) m) :
    (inner.lift m put wrap finished none).Ensures may (fun _ c l => k.Keeps (wrap s) c l) m := by
  by_cases hend : ∃ n, s = done n
  -- The phase is over: its result is the subtotal that the inner machine returns.
  · obtain ⟨n, hn⟩ := hend
    obtain ⟨hresult, rfl⟩ := hdone n hn
    refine (hfinished n).mono fun _ c l h _ => ?_
    obtain ⟨hnone, rfl⟩ := h
    have hall : inside (.returned n) = inside (.running s) + 0 := hmove (by simp)
    rw [hnone, hresult, hwrap, List.countP_nil, ← hall, hinside, zero_add]
    rfl
  · have hnone : k.result (wrap s) = none := hgoes fun n hn => hend ⟨n, hn⟩
    refine (hmove.and hreturned).lift hput ?_ ?_ ?_
    · intro _ s' l h _
      rw [hnone, hwrap, hwrap]
      exact h.1 (by simp)
    · exact fun n h => absurd ⟨n, h.2 n rfl⟩ hend
    · exact fun cause _ _ h => absurd rfl (h cause)

end Counting

namespace Worker

def codeSubtotal : Progress Worker Unit → ℕ
  | .running (.code _ s) => Unloading.Worker.subtotal (.running s)
  | _ => 0

def codeResult : Worker → Option ℕ
  | .code _ (.done total) => some total
  | _ => none

def codeCounting : Counting where
  phase := .code
  counts := isUnloaded
  subtotal := codeSubtotal
  result := codeResult
  phased := by
    rintro ⟨q, a⟩ hr
    cases q <;> first | rfl | cases hr
  aside := by
    intro s hs
    cases s with
    | code id s =>
      have hbegins := hs.resolve_left fun h => h rfl
      cases s <;> first | rfl | exact hbegins.elim
    | _ => rfl
  returned := rfl
  result_aside := by
    intro s hs
    cases s with
    | code id s => exact absurd rfl hs
    | _ => rfl

theorem move_unloads (may : Reply Answer → Prop) (p : Plan) (m : Shared) (s : Worker) :
    (s.move p m).Ensures may (fun _ c l => codeCounting.Keeps s c l) m := by
  cases s with
  | code id s =>
    refine Counting.move_inside (k := codeCounting)
      (s.move_subtotals may p.code m.codePart) (s.done_of_returned p.code m.codePart)
      (fun n => rfl) m.putCode_codePart (fun s => rfl) ?_ ?_ ?_
    · rintro n rfl
      exact ⟨rfl, rfl⟩
    · intro hgoes
      cases s with
      | done total => exact absurd rfl (hgoes total)
      | _ => rfl
    · exact fun n => ⟨rfl, rfl⟩
  | _ => exact Counting.move_aside (by simp [phase, codeCounting])

def classSubtotal : Progress Worker Unit → ℕ
  | .running (.classes _ s) => ClassCleaning.Worker.subtotal (.running s)
  | _ => 0

def classResult : Worker → Option ℕ
  | .classes _ (.done cleaned) => some cleaned
  | _ => none

def classCounting : Counting where
  phase := .classes
  counts := isCleaned
  subtotal := classSubtotal
  result := classResult
  phased := by
    rintro ⟨q, a⟩ hr
    cases q <;> first | rfl | cases hr
  aside := by
    intro s hs
    cases s with
    | classes id s =>
      have hbegins := hs.resolve_left fun h => h rfl
      cases s <;> first | rfl | exact hbegins.elim
    | _ => rfl
  returned := rfl
  result_aside := by
    intro s hs
    cases s with
    | classes id s => exact absurd rfl hs
    | _ => rfl

theorem move_cleans (may : Reply Answer → Prop) (p : Plan) (m : Shared) (s : Worker) :
    (s.move p m).Ensures may (fun _ c l => classCounting.Keeps s c l) m := by
  cases s with
  | classes id s =>
    refine Counting.move_inside (k := classCounting)
      (s.move_subtotals may m.classPart) (s.done_of_returned m.classPart)
      (fun n => rfl) m.putClasses_classPart (fun s => rfl) ?_ ?_ ?_
    · rintro n rfl
      exact ⟨rfl, rfl⟩
    · intro hgoes
      cases s with
      | done cleaned => exact absurd rfl (hgoes cleaned)
      | _ => rfl
    · exact fun n => ⟨rfl, rfl⟩
  | _ => exact Counting.move_aside (by simp [phase, classCounting])

end Worker

variable {ι : Type}

/-- What calls that were made on the way have returned. -/
def results (result : Worker → Option ℕ) (course : List (Leg ι Worker Unit)) : List ℕ :=
  course.filterMap fun e => result e.source

theorem sum_results (result : Worker → Option ℕ) (course : List (Leg ι Worker Unit)) :
    (course.map fun e => (result e.source).getD 0).sum = (results result course).sum := by
  induction course with
  | nil => rfl
  | cons e course ih =>
    rw [List.map_cons, List.sum_cons, ih, results, results, List.filterMap_cons]
    cases result e.source with
    | none => exact zero_add _
    | some n => rfl

end Pass

end PauseCleanup
