import PauseCleanup.Crew.Shift
/-!
# The stages of a crew at work

Where the calling thread stands tells which workers have a thread, which of the others have come to
their end, and who has not moved yet.
-/
namespace PauseCleanup.Crew

def below (n : UInt32) : List UInt32 := (List.range n.toNat).map UInt32.ofNat

theorem mem_below {id n : UInt32} : id ∈ below n ↔ id < n := by
  rw [below, List.mem_map, UInt32.lt_iff_toNat_lt]
  constructor
  · intro h
    obtain ⟨k, hk, rfl⟩ := h
    have hlt := List.mem_range.1 hk
    rwa [UInt32.toNat_ofNat_of_lt' (Nat.lt_trans hlt n.toNat_lt)]
  · intro h
    exact ⟨id.toNat, List.mem_range.2 h, by simp⟩

theorem toNat_succ {n m : UInt32} (h : n < m) : (n + 1).toNat = n.toNat + 1 := by
  have hlt := UInt32.lt_iff_toNat_lt.1 h
  have hmax := m.toNat_lt
  rw [UInt32.toNat_add, UInt32.toNat_one, Nat.mod_eq_of_lt (by omega)]

theorem succ_le {n m : UInt32} (h : n < m) : n + 1 ≤ m := by
  rw [UInt32.le_iff_toNat_le, toNat_succ h]
  exact UInt32.lt_iff_toNat_lt.1 h

theorem below_succ {n m : UInt32} (h : n < m) : below (n + 1) = below n ++ [n] := by
  rw [below, toNat_succ h, List.range_succ, List.map_append, below]
  simp

theorem pairwise_below (n : UInt32) : (below n).Pairwise (· < ·) := by
  rw [below, List.pairwise_map]
  refine List.pairwise_lt_range.imp_of_mem fun {j k} hj hk hlt => ?_
  have hmax := n.toNat_lt
  have hj' := List.mem_range.1 hj
  have hk' := List.mem_range.1 hk
  rwa [UInt32.lt_iff_toNat_lt, UInt32.toNat_ofNat_of_lt' (Nat.lt_trans hj' hmax),
    UInt32.toNat_ofNat_of_lt' (Nat.lt_trans hk' hmax)]

section

variable (hasThread : UInt32 → Bool)

/-- The workers below `n` that get a thread. -/
def threaded (n : UInt32) : List UInt32 := (below n).filter hasThread

/-- The workers below `n` that get none. -/
def spared (n : UInt32) : List UInt32 := (below n).filter fun id => !hasThread id

variable {hasThread} {id n m : UInt32}

theorem mem_threaded : id ∈ threaded hasThread n ↔ id < n ∧ hasThread id = true := by
  rw [threaded, List.mem_filter, mem_below]

theorem mem_spared : id ∈ spared hasThread n ↔ id < n ∧ hasThread id = false := by
  rw [spared, List.mem_filter, mem_below, Bool.not_eq_true']

theorem pairwise_spared : (spared hasThread n).Pairwise (· < ·) := (pairwise_below n).filter _

theorem threaded_succ (h : n < m) : threaded hasThread (n + 1) =
    if hasThread n then threaded hasThread n ++ [n] else threaded hasThread n := by
  rw [threaded, below_succ h, List.filter_append, List.filter_cons, List.filter_nil]
  cases hasThread n <;> simp [threaded]

theorem spared_succ (h : n < m) : spared hasThread (n + 1) =
    if hasThread n then spared hasThread n else spared hasThread n ++ [n] := by
  rw [spared, below_succ h, List.filter_append, List.filter_cons, List.filter_nil]
  cases hasThread n <;> simp [spared]

end

section

variable {State : Type} (c : Crew) (hasThread : UInt32 → Bool) (first : UInt32 → State)

def panicsOf (calls : UInt32 → Progress State Unit) (ids : List UInt32) : List Panic :=
  ids.filterMap fun id => match calls id with
    | .panicked cause => some cause
    | _ => none

/-- How the workers without a thread have fared, when the calling thread is through with them. -/
inductive Spares (calls : UInt32 → Progress State Unit) : Option Panic → Prop
  | returned : (∀ id ∈ spared hasThread c.workers, calls id = .returned ()) → Spares calls none
  | raised {past rest : List UInt32} {id : UInt32} {cause : Panic} :
    spared hasThread c.workers = past ++ id :: rest → (∀ j ∈ past, calls j = .returned ()) →
      calls id = .panicked cause → (∀ j ∈ rest, calls j = .running (first j)) →
        Spares calls (some cause)

/-- How the calling thread goes on when all workers have ended. -/
inductive Leaves : Option Panic → Progress Run Unit → Prop
  | ended {e : Option Panic} : Leaves e (.running (.ended e))
  | done : Leaves none (.running .done)
  | returned : Leaves none (.returned ())
  | panicked {cause : Panic} : Leaves (some cause) (.panicked cause)

/-- Where the calling thread stands, with the workers that got a thread and the places of all. -/
inductive Stage : Progress Run Unit → List UInt32 → (UInt32 → Progress State Unit) → Prop
  | start {calls} : (∀ id, calls id = .running (first id)) → Stage (.running .start) [] calls
  | spawn {next calls} : next ≤ c.workers →
    (∀ id, id ∉ threaded hasThread next → calls id = .running (first id)) →
      Stage (.running (.spawn next (spared hasThread next))) (threaded hasThread next) calls
  | noThread {id calls} : id < c.workers → hasThread id = false →
    (∀ j, j ∉ threaded hasThread id → calls j = .running (first j)) →
      Stage (.running (.noThread id (spared hasThread id))) (threaded hasThread id) calls
  | onCaller {past rest calls} : spared hasThread c.workers = past ++ rest →
    (∀ id ∈ past, calls id = .returned ()) → (∀ id ∈ rest.tail, calls id = .running (first id)) →
    (∀ id, ¬id < c.workers → calls id = .running (first id)) →
      Stage (.running (.onCaller rest)) (threaded hasThread c.workers) calls
  | join {raised calls} : Spares c hasThread first calls raised →
    (∀ id, ¬id < c.workers → calls id = .running (first id)) →
      Stage (.running (.join raised)) (threaded hasThread c.workers) calls
  | joined {raised caller calls} : Spares c hasThread first calls raised →
    (∀ id, ¬id < c.workers → calls id = .running (first id)) →
    (∀ id ∈ threaded hasThread c.workers, (calls id).isOver = true) →
    Leaves (raised.or (panicsOf calls (threaded hasThread c.workers)).head?) caller →
      Stage caller (threaded hasThread c.workers) calls

variable {c hasThread first} {caller : Progress Run Unit} {threads : List UInt32}
  {calls calls' : UInt32 → Progress State Unit} {id : UInt32}

theorem Leaves.eq_of_running {e : Option Panic} {r : Run} (h : Leaves e (.running r)) :
    r = .ended e ∨ r = .done := by
  cases h with
  | ended => exact .inl rfl
  | done => exact .inr rfl

theorem Spares.congr {raised : Option Panic} (h : Spares c hasThread first calls raised)
    (heq : ∀ id ∈ spared hasThread c.workers, calls' id = calls id) :
    Spares c hasThread first calls' raised := by
  cases h with
  | returned hall => exact .returned fun id hid => (heq id hid).trans (hall id hid)
  | raised hsplit hpast hid hrest =>
    have hmem := fun j => (hsplit ▸ heq j :)
    refine .raised hsplit (fun j hj => ?_) ?_ fun j hj => ?_
    · rw [hmem j (by simp [hj]), hpast j hj]
    · rw [hmem _ (by simp), hid]
    · rw [hmem j (by simp [hj]), hrest j hj]

theorem Stage.thread_moved (h : Stage c hasThread first caller threads calls) (hid : id ∈ threads)
    (hne : ∀ j, j ≠ id → calls' j = calls j)
    (hover : (calls id).isOver = true → calls' id = calls id) :
    Stage c hasThread first caller threads calls' := by
  have hspared : ∀ {n m : UInt32}, id ∈ threaded hasThread n → ∀ j ∈ spared hasThread m,
      calls' j = calls j := by
    intro n m hid j hj
    apply hne
    rintro rfl
    have hthread := (mem_threaded.1 hid).2
    rw [(mem_spared.1 hj).2] at hthread
    cases hthread
  have hout : id ∈ threaded hasThread c.workers → ∀ j, ¬j < c.workers → calls' j = calls j := by
    intro hid j hj
    exact hne j fun he => hj (he ▸ (mem_threaded.1 hid).1)
  cases h with
  | start hfresh => exact absurd hid List.not_mem_nil
  | spawn hle hfresh =>
    refine .spawn hle fun j hj => ?_
    rw [hne j fun he => hj (he ▸ hid), hfresh j hj]
  | noThread hlt hnone hfresh =>
    refine .noThread hlt hnone fun j hj => ?_
    rw [hne j fun he => hj (he ▸ hid), hfresh j hj]
  | @onCaller past rest _ hsplit hpast hrest hfresh =>
    have hsame : ∀ j ∈ past ++ rest, calls' j = calls j := hsplit ▸ hspared hid
    refine .onCaller hsplit (fun j hj => ?_) (fun j hj => ?_) fun j hj => ?_
    · rw [hsame j (List.mem_append_left _ hj), hpast j hj]
    · rw [hsame j (List.mem_append_right _ (List.mem_of_mem_tail hj)), hrest j hj]
    · rw [hout hid j hj, hfresh j hj]
  | join hspares hfresh =>
    refine .join (hspares.congr (hspared hid)) fun j hj => ?_
    rw [hout hid j hj, hfresh j hj]
  | joined hspares hfresh hjoined hleaves =>
    have hsame : calls' = calls := by
      funext j
      by_cases hj : j = id
      · rw [hj, hover (hjoined id hid)]
      · exact hne j hj
    rw [hsame]
    exact .joined hspares hfresh hjoined hleaves

theorem Stage.spare_moved {rest : List UInt32}
    (h : Stage c hasThread first (.running (.onCaller (id :: rest))) threads calls) {s : State}
    (hrunning : calls id = .running s) (hne : ∀ j, j ≠ id → calls' j = calls j) :
    Stage c hasThread first (.running (.onCaller (id :: rest))) threads calls' := by
  cases h with
  | @onCaller past _ _ hsplit hpast hrest hfresh =>
    have hlt : ∀ j ∈ rest, id < j :=
      (List.pairwise_cons.1 (List.pairwise_append.1 (hsplit ▸ pairwise_spared)).2.1).1
    have hid : id < c.workers := by
      have hmem : id ∈ spared hasThread c.workers := by simp [hsplit]
      exact (mem_spared.1 hmem).1
    refine .onCaller hsplit (fun j hj => ?_) (fun j hj => ?_) fun j hj => ?_
    · have hj' : j ≠ id := by
        rintro rfl
        rw [hpast j hj] at hrunning
        cases hrunning
      rw [hne j hj', hpast j hj]
    · have hj' : j ≠ id := by
        rintro rfl
        exact UInt32.lt_irrefl j (hlt j hj)
      rw [hne j hj', hrest j hj]
    · rw [hne j fun he => hj (he ▸ hid), hfresh j hj]
  | joined _ _ _ hleaves => rcases hleaves.eq_of_running with he | he <;> cases he

end

end PauseCleanup.Crew
