import PauseCleanup.Proofs.Chores
import PauseCleanup.Proofs.Frontier.Claim
import PauseCleanup.Proofs.OneShot
import PauseCleanup.Proofs.Unloading.Opening
import PauseCleanup.Unloading.Worker
import Mathlib.Data.List.Nodup
/-!
# What a worker of an unloading ensures

A unit is owed by the frontier or the one-shot, then in the hands of one worker, then it has been
asked to be unloaded. `Moved` says that one move keeps this account.
-/
namespace PauseCleanup.Unloading

open Host (Query Answer)
open OneShot (Try)
open Frontier (Claim)

def Plan.asks (p : Plan) (us : List UnitId) : Multiset Query :=
  ↑(us.map fun u => Query.unload u p.pass p.unloading)

@[simp] theorem Plan.asks_nil (p : Plan) : p.asks [] = 0 := rfl

theorem Plan.asks_cons (p : Plan) (u : UnitId) (us : List UnitId) :
    p.asks (u :: us) = {.unload u p.pass p.unloading} + p.asks us := rfl

theorem Plan.asks_append (p : Plan) (us vs : List UnitId) :
    p.asks (us ++ vs) = p.asks us + p.asks vs := by
  simp [Plan.asks]

theorem Plan.nodup_asks (p : Plan) {us : List UnitId} (h : us.Nodup) :
    (us.map fun u => Query.unload u p.pass p.unloading).Nodup :=
  h.map fun _ _ he => (Query.unload.inj he).1

theorem Plan.count_asks (p : Plan) {us : List UnitId} (h : us.Nodup) (q : Query) :
    (p.asks us).count q = if q ∈ us.map fun u => Query.unload u p.pass p.unloading then 1 else 0 :=
  count_coe_of_nodup (p.nodup_asks h) q

theorem Plan.mem_asks (p : Plan) {u : UnitId} {us : List UnitId} :
    .unload u p.pass p.unloading ∈ p.asks us ↔ u ∈ us := by
  rw [Plan.asks, Multiset.mem_coe]
  simp

/-- The units that the shared memory still owes. -/
def Shared.owes (p : Plan) (units : List UnitId) (m : Shared) : Multiset Query :=
  m.first.left (p.asks p.first.toList) + p.asks (m.frontier.rest units)

/-- A fresh unloading owes every unit: the first by its one-shot, the others by the frontier. -/
theorem Opened.owes {host : (q : Query) → Answer q} {units : List UnitId} {r : Request}
    {plan : Plan} {shared : Shared} (h : Opened host units r plan shared)
    (hchain : Chain (fun u => host (.nextAlive u)) (host .firstAlive) units) :
    shared.frontier.Valid units ∧ shared.owes plan units = plan.asks units := by
  obtain ⟨hplan, f, hf, rfl⟩ := h
  obtain ⟨hvalid, hrest⟩ := Frontier.after_spec hchain hf
  refine ⟨hvalid, ?_⟩
  have hfirst : plan.first = host .firstAlive := by rw [hplan]
  rw [Shared.owes, hrest, hfirst, OneShot.left_fresh, ← Plan.asks_append]
  congr 1
  generalize host .firstAlive = here at hchain
  cases hchain with
  | nil => rfl
  | cons _ => rfl

theorem Shared.owes_eq_zero {p : Plan} (units : List UnitId) {m : Shared}
    (hfirst : p.first = none ∨ m.first.taken = true) (hword : m.frontier.word = 0) :
    m.owes p units = 0 := by
  rw [Shared.owes, Frontier.rest_of_zero _ hword]
  rcases hfirst with hnone | htaken
  · simp [hnone, OneShot.left]
  · simp [OneShot.left_of_taken _ htaken]

/-- How the shared memory may change in the meantime. -/
structure Later (m m' : Shared) : Prop where
  first : m.first.Later m'.first
  frontier : m.frontier.Later m'.frontier

theorem Later.refl (m : Shared) : Later m m := ⟨fun h => h, fun h => h⟩

theorem chores_of_next {l : List (Reply Answer)} (h : ∀ r ∈ l, ∃ u, r.1 = .nextAlive u) :
    chores l = 0 := by
  rw [chores, Multiset.coe_eq_zero, List.filter_eq_nil_iff]
  intro q hq
  obtain ⟨r, hr, rfl⟩ := List.mem_map.1 hq
  obtain ⟨u, hu⟩ := h r hr
  simp [hu, Query.isChore]

theorem claim_settles {units : List UnitId} {p : Plan} {m : Shared} {l : List (Reply Answer)}
    {claim : Claim} {c' : Progress Claim Frontier.Batch} {f : Frontier}
    (hl : ∀ r ∈ l, ∃ u, r.1 = .nextAlive u) (hy : Claim.Yields m.frontier claim f c')
    (hclaim : claim.Sound units p.batch) :
    Shared.owes p units { m with frontier := f } + p.asks (Claim.held c') + chores l =
      m.owes p units + p.asks (Claim.held (.running claim)) := by
  have hrest := congrArg p.asks (hy.rest_eq hclaim)
  rw [Plan.asks_append, Plan.asks_append] at hrest
  rw [chores_of_next hl, add_zero, Shared.owes, Shared.owes]
  show _ + p.asks (f.rest units) + _ = _
  rw [add_assoc, add_comm (p.asks _), hrest, add_comm (p.asks _), add_assoc]

namespace Worker

def owes (p : Plan) : Progress Worker ℕ → Multiset Query
  | .running (.first u t) => Try.held (p.asks [u]) (.running t)
  | .running (.claim _ c) => p.asks (Claim.held (.running c))
  | .running (.batch _ us) => p.asks us
  | .running (.unload _ us _) => p.asks us
  | .running (.count _ us _) => p.asks us.tail
  | .running (.tally _ us _) => p.asks us.tail
  | _ => 0

/-- Worker 0 has left the first unit to nobody else. -/
def Settled (p : Plan) (id : UInt32) (m : Shared) : Prop :=
  id = 0 → p.first = none ∨ m.first.taken = true

/-- Why a worker may panic: a claim may, or it was one too many. -/
def Excused (may : Reply Answer → Prop) (units : List UnitId) (p : Plan) (id : UInt32) : Prop :=
  Claim.Excused may units p.batch ∨ ¬id < p.workers

def Knows (may : Reply Answer → Prop) (units : List UnitId) (p : Plan) (id : UInt32) (m : Shared) :
    Progress Worker ℕ → Prop
  | .running (.start id') => id' = id
  | .running (.enter id') => id' = id
  | .running (.first u t) => p.first = some u ∧ Try.Knows m.first (.running t)
  | .running (.claim _ c) => Settled p id m ∧ Claim.Knows may units p.batch m.frontier (.running c)
  | .running (.done _) => Settled p id m ∧ m.frontier.word = 0
  | .running _ => Settled p id m
  | .returned _ => Settled p id m ∧ m.frontier.word = 0
  | .panicked _ => Excused may units p id

variable {may : Reply Answer → Prop} {units : List UnitId} {p : Plan} {id : UInt32} {m m' : Shared}

theorem Settled.later (h : Later m m') (hs : Settled p id m) : Settled p id m' :=
  fun hid => (hs hid).imp_right h.first

theorem knows_stable {c : Progress Worker ℕ} (h : Later m m') (hc : Knows may units p id m c) :
    Knows may units p id m' c := by
  cases c with
  | running s =>
    cases s with
    | start id' => exact hc
    | enter id' => exact hc
    | first u t => exact ⟨hc.1, Try.knows_stable h.first hc.2⟩
    | claim total c => exact ⟨hc.1.later h, Claim.knows_stable h.frontier hc.2⟩
    | done total => exact ⟨hc.1.later h, h.frontier hc.2⟩
    | _ => exact Settled.later h hc
  | returned total => exact ⟨hc.1.later h, h.frontier hc.2⟩
  | panicked cause => exact hc

/-- What one move of a worker does. -/
structure Moved (may : Reply Answer → Prop) (units : List UnitId) (p : Plan) (id : UInt32)
    (m : Shared) (s : Worker) (m' : Shared) (c : Progress Worker ℕ) (l : List (Reply Answer)) :
    Prop where
  valid : m'.frontier.Valid units
  knows : Knows may units p id m' c
  later : Later m m'
  settles : Settles c (m'.owes p units + owes p c + chores l) (m.owes p units + owes p (.running s))

namespace Moved

variable {s : Worker} {c : Progress Worker ℕ} {l : List (Reply Answer)}

theorem still (hf : m.frontier.Valid units) (hfirst : m'.first = m.first)
    (hfrontier : m'.frontier = m.frontier) (hc : Knows may units p id m' c)
    (ho : owes p c = owes p (.running s)) : Moved may units p id m s m' c [] := by
  have howes : m'.owes p units = m.owes p units := by rw [Shared.owes, Shared.owes, hfirst,
    hfrontier]
  refine ⟨hfrontier ▸ hf, hc, ⟨?_, ?_⟩, .of_eq ?_⟩
  · rw [hfirst]
    exact fun h => h
  · rw [hfrontier]
    exact fun h => h
  · rw [howes, ho, chores_nil, add_zero]

theorem of_first {u : UnitId} {t : Try} {c' : Progress Try Bool} {flag : OneShot}
    (hp : p.first = some u) (hf : m.frontier.Valid units) (hflag : m.first.Later flag)
    (hb : flag.left (p.asks [u]) + Try.held (p.asks [u]) c' =
      m.first.left (p.asks [u]) + Try.held (p.asks [u]) (.running t))
    (hc : Knows may units p id { m with first :=
  flag } c) (ho : owes p c = Try.held (p.asks [u]) c') :
    Moved may units p id m (.first u t) { m with first := flag } c [] := by
  refine ⟨hf, hc, ⟨hflag, fun h => h⟩, .of_eq ?_⟩
  rw [ho, chores_nil, add_zero, Shared.owes, Shared.owes, hp]
  show flag.left (p.asks [u]) + _ + _ = m.first.left (p.asks [u]) + _ + Try.held (p.asks [u])
    (.running t)
  rw [add_right_comm, hb, add_right_comm]

theorem of_claim {total : ℕ} {claim : Claim} {c' : Progress Claim Frontier.Batch} {f : Frontier}
    (h : claim.Moved may units p.batch m.frontier f c') (hl : ∀ r ∈ l, ∃ u, r.1 = .nextAlive u)
    (hclaim : claim.Sound units p.batch) (hc : Knows may units p id { m with frontier := f } c)
    (ho : owes p c = p.asks (Claim.held c')) :
    Moved may units p id m (.claim total claim) { m with frontier := f } c l := by
  refine ⟨h.valid, hc, ⟨fun h => h, h.later⟩, .of_eq ?_⟩
  rw [ho]
  exact claim_settles hl h.yields hclaim

theorem of_unload {total : ℕ} {u : UnitId} {us : List UnitId} {opened : Bool}
    (hf : m.frontier.Valid units) (hs : Settled p id m) {a : Except Panic Unit}
    (ha : may ⟨.unload u p.pass p.unloading, a⟩) :
    Moved may units p id m (.unload total (u :: us) opened) m
      (Pool.resumed (A := Answer) (q := .unload u p.pass p.unloading)
        (fun _ => .count total (u :: us) opened) none a)
      [⟨.unload u p.pass p.unloading, a⟩] := by
  have hasks : p.asks (u :: us) = p.asks us + chores [⟨.unload u p.pass p.unloading, a⟩] := by
    rw [Plan.asks_cons, add_comm]
    rfl
  cases a with
  | error cause =>
    -- The other units of the batch are lost with the call.
    refine ⟨hf, .inl (.inl ⟨_, _, ha⟩), .refl m, .of_panic ?_⟩
    show m.owes p units + 0 + _ ≤ m.owes p units + p.asks (u :: us)
    rw [hasks, add_zero, add_comm (p.asks us), ← add_assoc]
    exact Multiset.le_add_right _ _
  | ok a =>
    refine ⟨hf, hs, .refl m, .of_eq ?_⟩
    show m.owes p units + p.asks us + _ = m.owes p units + p.asks (u :: us)
    rw [hasks, add_assoc]

end Moved

variable {host : (q : Query) → Answer q} {here : Option UnitId}

theorem move_ensures (hmay : Steady host may)
    (hchain : Chain (fun u => host (.nextAlive u)) here units) {t : Tallied Shared}
    (hf : t.own.frontier.Valid units) {s : Worker} (hs : Knows may units p id t.own (.running s)) :
    (s.move p t).Ensures may (fun t' c l => Moved may units p id t.own s t'.own c l) t := by
  cases s with
  | start id' =>
    obtain rfl : id' = id := hs
    simp only [move]
    split
    · exact .still hf rfl rfl rfl rfl
    · next h => exact .still hf rfl rfl (.inr h) rfl
  | enter id' =>
    obtain rfl : id' = id := hs
    cases hp : p.first with
    | none =>
      have he : afterEnter p id' = .buffer 0 := by simp [afterEnter, hp]
      simp only [move, he]
      exact .still hf rfl rfl (fun _ => .inl hp) rfl
    -- Only worker 0 tries for the first unit; to all others it is as if there were none.
    | some u =>
      by_cases hid : id' = 0
      · have he : afterEnter p id' = .first u .look := by simp [afterEnter, hp, hid]
        simp only [move, he]
        exact .still hf rfl rfl ⟨hp, trivial⟩ rfl
      · have he : afterEnter p id' = .buffer 0 := by simp [afterEnter, hp, hid]
        simp only [move, he]
        exact .still hf rfl rfl (fun h => absurd h hid) rfl
  | first u attempt =>
    obtain ⟨hp, hknows⟩ := hs
    refine (Try.move_ensures (p.asks [u]) hknows).lift rfl ?_ ?_ ?_
    · intro flag next l hinner
      obtain ⟨hk, hlater, rfl, hb⟩ := hinner
      exact .of_first hp hf hlater hb ⟨hp, hk⟩ rfl
    · intro won hinner
      obtain ⟨hk, hlater, -, hb⟩ := hinner
      cases won with
      | true => exact .of_first hp hf hlater hb (fun _ => .inr hk) rfl
      | false => exact .of_first hp hf hlater hb (fun _ => .inr hk) rfl
    · intro cause l hinner
      obtain ⟨hk, -⟩ := hinner
      exact hk.elim
  | buffer total =>
    simp only [move]
    split
    · exact .still hf rfl rfl ⟨hs, trivial⟩ rfl
    · next h => exact .still hf rfl rfl (.inl (.inr (.inl (by simpa using h)))) rfl
  | claim total c =>
    obtain ⟨hset, hknows⟩ := hs
    have hmove := (Claim.move_ensures hmay hchain hf hknows).and (c.asks_next _ _)
    refine hmove.lift rfl ?_ ?_ ?_
    · intro f next l hinner
      obtain ⟨hm, hl⟩ := hinner
      exact .of_claim hm hl hknows.sound ⟨hset, hm.knows⟩ rfl
    · intro b hinner
      obtain ⟨hm, hl⟩ := hinner
      -- An empty batch leaves the frontier used up, so this worker is done.
      by_cases hb : b.units = []
      · have ho : owes p (.running (.done total)) = p.asks (Claim.held (.returned b)) := by
          simp [owes, Claim.held, Claim.brings, hb]
        simp only [hb, if_true]
        exact .of_claim hm hl hknows.sound ⟨hset, hm.knows hb⟩ ho
      · simp only [hb, if_false]
        exact .of_claim hm hl hknows.sound hset rfl
    · intro cause l hinner
      obtain ⟨hm, hl⟩ := hinner
      exact .of_claim hm hl hknows.sound (.inl hm.knows) rfl
  | batch total us => exact .still hf rfl rfl hs rfl
  | unload total us opened =>
    cases us with
    | nil =>
      simp only [move]
      cases opened with
      | true => exact .still hf rfl rfl ⟨hs, trivial⟩ rfl
      | false => exact .still hf rfl rfl hs rfl
    | cons u us => exact fun a ha => .of_unload hf hs ha
  | count total us opened => exact .still hf rfl rfl hs rfl
  | tally total us opened => exact .still hf rfl rfl hs rfl
  | done total => exact .still hf rfl rfl hs rfl

end Worker

end PauseCleanup.Unloading
