import PauseCleanup.Proofs.Crew.Turn
import Mathlib.Data.List.Basic
/-!
# Which panic a crew passes on

A crew passes on the panic of the lowest worker without a thread that has panicked; if there is
none, that of the lowest worker that has.
-/
namespace PauseCleanup

theorem Progress.eq_returned {State : Type} {c : Progress State Unit} (hover : c.isOver = true)
    (hcalm : ∀ cause, c ≠ .panicked cause) : c = .returned () := by
  cases c with
  | running s => cases hover
  | returned u => rfl
  | panicked cause => exact absurd rfl (hcalm cause)

namespace Crew

variable {State : Type} {c : Crew} {hasThread : UInt32 → Bool} {first : UInt32 → State}
  {calls : UInt32 → Progress State Unit} {threads : List UInt32} {caller : Progress Run Unit}
  {id : UInt32}

theorem spared_split {past rest : List UInt32}
    (hsplit : spared hasThread c.workers = past ++ id :: rest) :
    (∀ j ∈ past, j < id) ∧ ∀ j ∈ rest, id < j := by
  obtain ⟨_, hrest, hpast⟩ := List.pairwise_append.1 (hsplit ▸ pairwise_spared)
  exact ⟨fun j hj => hpast j hj id List.mem_cons_self, (List.pairwise_cons.1 hrest).1⟩

/-- Whether the panic of one worker goes before that of another: first those on the calling thread,
then the lower ids. -/
def GoesBefore (hasThread : UInt32 → Bool) (id j : UInt32) : Prop :=
  (hasThread id = false ∧ hasThread j = true) ∨ (hasThread id = hasThread j ∧ id ≤ j)

/-- The worker has panicked, and no other one that has goes before it. -/
def Foremost (hasThread : UInt32 → Bool) (calls : UInt32 → Progress State Unit) (id : UInt32)
    (cause : Panic) : Prop :=
  calls id = .panicked cause ∧ ∀ j cause', calls j = .panicked cause' → GoesBefore hasThread id j

theorem Foremost.unique {j : UInt32} {cause cause' : Panic}
    (h : Foremost hasThread calls id cause) (h' : Foremost hasThread calls j cause') :
    id = j ∧ cause = cause' := by
  have hid : id = j := by
    rcases h.2 j cause' h'.1 with ⟨hid, hj⟩ | ⟨hsame, hle⟩ <;>
      rcases h'.2 id cause h.1 with ⟨hj', hid'⟩ | ⟨hsame', hle'⟩
    · rw [hid] at hid'
      cases hid'
    · rw [hid, hj] at hsame'
      cases hsame'
    · rw [hj', hid'] at hsame
      cases hsame
    · exact UInt32.le_antisymm hle hle'
  subst hid
  exact ⟨rfl, Progress.panicked.inj (h.1.symm.trans h'.1)⟩

theorem mem_panicsOf {ids : List UInt32} {cause : Panic} :
    cause ∈ panicsOf calls ids ↔ ∃ id ∈ ids, calls id = .panicked cause := by
  rw [panicsOf, List.mem_filterMap]
  refine exists_congr fun id => and_congr_right fun _ => ?_
  cases calls id <;> simp

theorem panicsOf_head? {ids : List UInt32} {cause : Panic}
    (h : (panicsOf calls ids).head? = some cause) (hids : ids.Pairwise (· < ·)) :
    ∃ id ∈ ids, calls id = .panicked cause ∧
      ∀ j ∈ ids, ∀ cause', calls j = .panicked cause' → id ≤ j := by
  induction ids with
  | nil => cases h
  | cons id ids ih =>
    obtain ⟨hlt, hrest⟩ := List.pairwise_cons.1 hids
    by_cases hid : ∃ cause', calls id = .panicked cause'
    · obtain ⟨cause', hid⟩ := hid
      obtain rfl : cause' = cause := by simpa [panicsOf, hid] using h
      refine ⟨id, List.mem_cons_self, hid, fun j hj _ _ => ?_⟩
      rcases List.mem_cons.1 hj with rfl | hj
      · exact UInt32.le_refl j
      · exact UInt32.le_of_lt (hlt j hj)
    · have hskip : panicsOf calls (id :: ids) = panicsOf calls ids := by
        rw [panicsOf, List.filterMap_cons]
        cases hc : calls id with
        | panicked cause' => exact absurd ⟨cause', hc⟩ hid
        | _ => rfl
      obtain ⟨j, hj, hpanicked, hleast⟩ := ih (hskip ▸ h) hrest
      refine ⟨j, List.mem_cons_of_mem _ hj, hpanicked, fun k hk cause' hc => ?_⟩
      rcases List.mem_cons.1 hk with rfl | hk
      · exact absurd ⟨cause', hc⟩ hid
      · exact hleast k hk cause' hc

theorem Spares.calm (h : Spares c hasThread first calls none) (hid : id < c.workers)
    (hnone : hasThread id = false) : calls id = .returned () := by
  cases h with
  | returned hall => exact hall id (mem_spared.2 ⟨hid, hnone⟩)

/-- The worker that has panicked on the calling thread is the only one there. -/
theorem Spares.foremost {cause : Panic} (h : Spares c hasThread first calls (some cause))
    (hfresh : ∀ id, ¬id < c.workers → calls id = .running (first id)) :
    ∃ id < c.workers, Foremost hasThread calls id cause := by
  cases h with
  | @raised past rest id _ hsplit hpast hid hrest =>
    have hmem : id ∈ spared hasThread c.workers := by simp [hsplit]
    obtain ⟨hlt, hnone⟩ := mem_spared.1 hmem
    refine ⟨id, hlt, hid, fun j cause' hj => ?_⟩
    cases hthread : hasThread j with
    | true => exact .inl ⟨hnone, hthread⟩
    | false =>
      by_cases hjlt : j < c.workers
      · have hjmem := mem_spared.2 ⟨hjlt, hthread⟩
        rw [hsplit, List.mem_append, List.mem_cons] at hjmem
        rcases hjmem with hjmem | rfl | hjmem
        · rw [hpast j hjmem] at hj
          cases hj
        · exact .inr ⟨rfl, UInt32.le_refl j⟩
        · rw [hrest j hjmem] at hj
          cases hj
      · rw [hfresh j hjlt] at hj
        cases hj

theorem Spares.mem_threaded_of_panicked (h : Spares c hasThread first calls none)
    (hfresh : ∀ id, ¬id < c.workers → calls id = .running (first id)) {cause : Panic}
    (hid : calls id = .panicked cause) : id ∈ threaded hasThread c.workers := by
  by_cases hlt : id < c.workers
  · cases hthread : hasThread id with
    | true => exact mem_threaded.2 ⟨hlt, hthread⟩
    | false =>
      rw [h.calm hlt hthread] at hid
      cases hid
  · rw [hfresh id hlt] at hid
    cases hid

theorem Spares.foremost_of_head? (h : Spares c hasThread first calls none)
    (hfresh : ∀ id, ¬id < c.workers → calls id = .running (first id)) {cause : Panic}
    (hhead : (panicsOf calls (threaded hasThread c.workers)).head? = some cause) :
    ∃ id < c.workers, Foremost hasThread calls id cause := by
  obtain ⟨id, hid, hpanicked, hleast⟩ := panicsOf_head? hhead ((pairwise_below _).filter _)
  obtain ⟨hlt, hthread⟩ := mem_threaded.1 hid
  refine ⟨id, hlt, hpanicked, fun j cause' hj => ?_⟩
  have hjmem := h.mem_threaded_of_panicked hfresh hj
  exact .inr ⟨hthread.trans (mem_threaded.1 hjmem).2.symm, hleast j hjmem cause' hj⟩

/-- A crew that is through has returned, and nobody has panicked; or it panics with the foremost
panic. -/
theorem Stage.foremost (h : Stage c hasThread first caller threads calls)
    (hover : caller.isOver = true) :
    (caller = .returned () ∧ ∀ id cause, calls id ≠ .panicked cause) ∨
      ∃ id cause, id < c.workers ∧ Foremost hasThread calls id cause ∧
        caller = .panicked cause := by
  cases h with
  | @joined raised _ _ hspares hfresh hthreads hleaves =>
    cases raised with
    | some cause =>
      obtain ⟨id, hid, hforemost⟩ := hspares.foremost hfresh
      cases hleaves with
      | ended => cases hover
      | panicked => exact .inr ⟨id, cause, hid, hforemost, rfl⟩
    -- Nobody has panicked on the calling thread, so the panics of the threads decide.
    | none =>
      rw [Option.none_or] at hleaves
      cases hhead : (panicsOf calls (threaded hasThread c.workers)).head? with
      | none =>
        rw [hhead] at hleaves
        refine .inl ⟨?_, fun j cause hj => ?_⟩
        · cases hleaves with
          | ended => cases hover
          | done => cases hover
          | returned => rfl
        · have hmem := mem_panicsOf.2 ⟨j, hspares.mem_threaded_of_panicked hfresh hj, hj⟩
          rw [List.head?_eq_none_iff.1 hhead] at hmem
          cases hmem
      | some cause =>
        rw [hhead] at hleaves
        obtain ⟨id, hid, hforemost⟩ := hspares.foremost_of_head? hfresh hhead
        cases hleaves with
        | ended => cases hover
        | panicked => exact .inr ⟨id, cause, hid, hforemost, rfl⟩
  | _ => cases hover

end Crew

end PauseCleanup
