import PauseCleanup.Proofs.SequenceOrder
import PauseCleanup.Proofs.Pass.Calm
import PauseCleanup.Proofs.Pass.Life
import PauseCleanup.Proofs.Pool.Course
import PauseCleanup.Proofs.Unloading.Verified
/-!
# When a pass finds out that it missed a unit

The check of a closed pass goes by the workers that came to the code cache. If all of them panic
while the metadata is released, no unit is unloaded and nothing is checked.
-/
namespace PauseCleanup

open Host (Query Answer)
open Unloading (Chain Stable)
open scoped UInt64.CommRing

def unloads (l : List (Reply Answer)) : Multiset Query := ↑((l.map (·.1)).filter Query.isUnload)

theorem unloads_cons (r : Reply Answer) (l : List (Reply Answer)) :
    unloads (r :: l) = unloads [r] + unloads l := by
  cases h : r.1.isUnload <;> simp [unloads, h]

theorem sum_unloads (l : List (Reply Answer)) : (l.map fun r => unloads [r]).sum = unloads l := by
  induction l with
  | nil => rfl
  | cons r l ih => rw [List.map_cons, List.sum_cons, ih, ← unloads_cons]

theorem unloads_of_within {l : List (Reply Answer)} {ph : Option Phase} (h : Within ph l)
    (hph : ph ≠ some .code) : unloads l = 0 := by
  rw [unloads, Multiset.coe_eq_zero, List.filter_eq_nil_iff]
  intro q hq hu
  obtain ⟨r, hr, rfl⟩ := List.mem_map.1 hq
  have hphase := h r hr
  generalize r.1 = q at hu hphase
  cases q with
  | unload u pass unloading => exact hph hphase.symm
  | _ => cases hu

theorem unloads_le_chores (l : List (Reply Answer)) : unloads l ≤ chores l := by
  refine Multiset.coe_le.2 (List.Sublist.subperm (List.monotone_filter_right _ ?_))
  intro q hq
  cases q <;> simp_all [Query.isUnload, Query.isChore]

theorem unloaded_le_unloads (l : List (Reply Answer)) : unloaded l ≤ unloads l := by
  rw [unloaded, unloads, List.filter_map]
  refine Multiset.coe_le.2 (List.Sublist.subperm (List.Sublist.map _ ?_))
  refine List.monotone_filter_right l ?_
  rintro ⟨q, a⟩ hr
  cases q <;> simp_all [isUnloaded, Query.isUnload]

theorem mem_unitsOf_of_unloads {l : List (Reply Answer)} {u : UnitId} {pass : PassId}
    {unloading : Bool} (h : .unload u pass unloading ∈ unloads l) : u ∈ unitsOf l := by
  obtain ⟨r, hr, hquestion⟩ := List.mem_map.1 (List.mem_of_mem_filter (Multiset.mem_coe.1 h))
  exact List.mem_filterMap.2 ⟨r, hr, by rw [hquestion]; rfl⟩

/-- Whether the reply is a panic of the host while its metadata was to be released. -/
def isEarly : Reply Answer → Bool
  | ⟨q, .error _⟩ => q.phase == some .metadata
  | _ => false

def early (l : List (Reply Answer)) : ℕ := l.countP isEarly

theorem early_of_within {l : List (Reply Answer)} {ph : Option Phase} (h : Within ph l)
    (hph : ph ≠ some .metadata) : early l = 0 := by
  rw [early, List.countP_eq_zero]
  rintro ⟨q, a⟩ hr
  have hq : q.phase = ph := h _ hr
  cases a <;> simp [isEarly, hq, hph]

theorem sum_early (l : List (Reply Answer)) :
    (l.map fun r => (early [r] : UInt64)).sum = early l := by
  rw [early, ← sum_map_countP, Nat.cast_list_sum, List.map_map]
  rfl

theorem MetadataRelease.Worker.move_early (may : Reply Answer → Prop) (present unloading : Bool)
    (t : Tallied OneShot) (s : Worker) : (s.move present unloading t).Ensures may
      (fun _ c l => early l = if c matches .panicked _ then 1 else 0) t := by
  cases s with
  | start =>
    simp only [move]
    split
    · rintro (cause | enabled) _ <;> rfl
    · rfl
  | claim attempt => cases attempt <;> rfl
  | release => rintro (cause | a) _ <;> rfl
  | _ => rfl

namespace Unloading

theorem Worker.move_settles {may : Reply Answer → Prop} {next : UnitId → Option UnitId}
    {here : Option UnitId} {units : List UnitId} {p : Plan} {id : UInt32}
    (hmay : ∀ r, may r → following next r) (hchain : Chain next here units) {t : Tallied Shared}
    (hf : t.own.frontier.Valid units) {s : Worker}
    (hs : Knows may units p id t.own (.running s)) : (s.move p t).Ensures may (fun t' c l =>
      t'.own.owes p units + owes p c + unloads l ≤ t.own.owes p units + owes p (.running s)) t := by
  refine .of_hosts hmay fun host hhost => ?_
  have hmove := move_ensures (steady_and_agreeing may host) (hhost ▸ hchain) hf hs.running
  exact hmove.mono fun t' c l h => (add_le_add le_rfl (unloads_le_chores l)).trans h.settles.le

namespace Closing

/-- The check is on its way to the violation `v`. -/
def Finding (v : Violation) : Progress Closing Unit → Prop
  | .running .start => True
  | .running (.check .start) => True
  | .running (.check (.done found)) => found = some v
  | .running (.fatal found) => found = v
  | _ => False

theorem move_finding {may : Reply Answer → Prop} {p : Plan} {m : Shared} {v : Violation}
    (hentered : (m.entered == 0) = false) (hcount : checkCount p.expected m.unloaded = some v)
    {s : Closing} (hs : Finding v (.running s)) :
    (s.move p false m).Ensures may (fun m' c _ => m' = m ∧ Finding v c) m := by
  cases s with
  | start =>
    simp only [move, hentered, Bool.or_self, Bool.false_eq_true, if_false]
    exact ⟨rfl, trivial⟩
  | check c =>
    cases c with
    | start =>
      simp only [move, Check.move, hcount, Move.lift_access]
      exact ⟨rfl, rfl⟩
    | host => exact hs.elim
    | done found =>
      obtain rfl : found = some v := hs
      exact ⟨rfl, rfl⟩
  | fatal found => trivial
  | done => exact hs.elim

/-- Nothing is checked. -/
def Skipping : Progress Closing Unit → Prop
  | .running .start => True
  | .running .done => True
  | .returned _ => True
  | _ => False

theorem move_skipping {may : Reply Answer → Prop} {p : Plan} {m : Shared}
    (hentered : (m.entered == 0) = true) {s : Closing} (hs : Skipping (.running s)) :
    (s.move p false m).Ensures may (fun m' c l => (m' = m ∧ Skipping c) ∧ l = []) m := by
  cases s with
  | start =>
    simp only [move, hentered, Bool.or_true, if_true]
    exact ⟨⟨rfl, trivial⟩, rfl⟩
  | check c => exact hs.elim
  | fatal found => exact hs.elim
  | done => exact ⟨⟨rfl, trivial⟩, rfl⟩

end Closing

end Unloading

namespace Pass

namespace Closing

def Finding (v : Violation) : Progress Closing Unit → Prop
  | .running .start => True
  | .running (.record ..) => True
  | .running (.check s) => Unloading.Closing.Finding v (.running s)
  | _ => False

theorem move_finding {may : Reply Answer → Prop} {p : Plan} {e : Estate} {v : Violation}
    (hentered : (e.shared.code.entered == 0) = false)
    (hcount : Unloading.checkCount p.code.expected e.shared.code.unloaded = some v) (t : Thread)
    {s : Closing} (hs : Finding v (.running s)) : (s.move p t .calm e).Ensures may
      (fun e' c _ => e'.shared = e.shared ∧ Finding v c) e := by
  cases s with
  | start => exact ⟨rfl, trivial⟩
  | record numbers s => cases s <;> exact ⟨rfl, trivial⟩
  | check s =>
    refine (Unloading.Closing.move_finding hentered hcount hs).lift rfl ?_ ?_ ?_
    · intro code s' l h
      obtain ⟨rfl, hs'⟩ := h
      exact ⟨rfl, hs'⟩
    · exact fun _ h => h.2.elim
    · exact fun _ _ h => h.2.elim
  | sweep s raised => exact hs.elim
  | leave raised => exact hs.elim
  | done raised => exact hs.elim

def Skipping : Progress Closing Unit → Prop
  | .running (.check s) => Unloading.Closing.Skipping (.running s)
  | .running (.sweep s raised) => s ≠ .torn ∧ raised = none
  | _ => True

theorem move_skipping {may : Reply Answer → Prop} {p : Plan} {e : Estate}
    (hentered : (e.shared.code.entered == 0) = true) (t : Thread) {s : Closing}
    (hs : Skipping (.running s)) : (s.move p t .calm e).Ensures may
      (fun e' c l => (e'.shared = e.shared ∧ Skipping c) ∧ ∀ r ∈ l, r.1 = .endSweep) e := by
  have hnone : ∀ r ∈ ([] : List (Reply Answer)), r.1 = .endSweep :=
    fun r hr => absurd hr List.not_mem_nil
  cases s with
  | start => exact ⟨⟨rfl, trivial⟩, hnone⟩
  | record numbers s => cases s <;> exact ⟨⟨rfl, trivial⟩, hnone⟩
  | check s =>
    refine (Unloading.Closing.move_skipping hentered hs).lift rfl ?_ ?_ ?_
    · intro code s' l h
      obtain ⟨⟨rfl, hs'⟩, rfl⟩ := h
      exact ⟨⟨rfl, hs'⟩, hnone⟩
    · exact fun _ _ => ⟨⟨rfl, TableSweep.Closing.noConfusion, rfl⟩, hnone⟩
    · exact fun _ _ h => h.1.2.elim
  | sweep s raised =>
    obtain ⟨hne, rfl⟩ := hs
    cases s with
    | start =>
      simp only [move, TableSweep.Closing.move]
      split
      · intro a _
        cases a with
        | ok a => exact ⟨⟨rfl, TableSweep.Closing.noConfusion, rfl⟩, fun r hr => by simp_all⟩
        | error cause => exact ⟨⟨rfl, trivial⟩, fun r hr => by simp_all⟩
      · exact ⟨⟨rfl, TableSweep.Closing.noConfusion, rfl⟩, hnone⟩
    | torn => exact absurd rfl hne
    | done => exact ⟨⟨rfl, trivial⟩, hnone⟩
  | leave raised => exact ⟨⟨rfl, trivial⟩, hnone⟩
  | done raised => cases raised <;> exact ⟨⟨rfl, trivial⟩, hnone⟩

end Closing

/-- A pass that a worker carried into the code cache, and whose count is wrong, ends the process. -/
theorem closing_finds {p : Plan} {m : Shared} {v : Violation}
    (hentered : (m.code.entered == 0) = false)
    (hcount : Unloading.checkCount p.code.expected m.code.unloaded = some v) (t : Thread)
    (ledger : Ledger) {turns : List (Turn Unit Answer)} (hlen : 19 < turns.length) :
    (closing p t .calm ⟨m, ledger⟩ turns).aborted = some (.violation v) := by
  have htold : (closing p t .calm ⟨m, ledger⟩ turns).Told (fun e s => s.move p t .calm e)
      fun _ e c => e.shared = m ∧ Closing.Finding v c := by
    refine Pool.told_alone (fun _ e s hs => ?_) ⟨rfl, trivial⟩ (Turn.within_true turns)
    obtain ⟨rfl, hfinding⟩ := hs
    exact (Closing.move_finding hentered hcount t hfinding).mono fun _ _ _ h => h
  cases htold.ending (closing_ends p t .calm ⟨m, ledger⟩ hlen) with
  | aborted ha _ hmove hstory =>
    rcases Closing.move_eq_abort hmove with ⟨found, rfl, rfl⟩ | ⟨raised, rfl, -⟩
    · obtain rfl : found = v := hstory.2
      exact ha
    · exact hstory.2.elim
  | returned _ _ hstory => exact hstory.2.elim
  | panicked _ _ hstory => exact hstory.2.elim

/-- A pass that no worker carried into the code cache is closed without a check. -/
theorem closing_skips {p : Plan} {m : Shared} (hentered : (m.code.entered == 0) = true) (t : Thread)
    (ledger : Ledger) (turns : List (Turn Unit Answer)) :
    (closing p t .calm ⟨m, ledger⟩ turns).aborted = none ∧
      ∀ r ∈ (closing p t .calm ⟨m, ledger⟩ turns).log, r.1 = .endSweep := by
  have htold : (closing p t .calm ⟨m, ledger⟩ turns).Told (fun e s => s.move p t .calm e)
      fun log e c => (e.shared = m ∧ Closing.Skipping c) ∧ ∀ r ∈ log, r.1 = .endSweep := by
    refine Pool.told_alone (fun log e s hs => ?_)
      ⟨⟨rfl, trivial⟩, fun r hr => absurd hr List.not_mem_nil⟩ (Turn.within_true turns)
    obtain ⟨⟨rfl, hskipping⟩, hlog⟩ := hs
    refine (Closing.move_skipping hentered t hskipping).mono fun _ _ _ h => ⟨h.1, fun r hr => ?_⟩
    rw [List.mem_append, List.mem_reverse] at hr
    exact hr.elim (hlog r) (h.2 r)
  obtain ⟨⟨-, hskipping⟩, hlog⟩ := htold.story
  refine ⟨?_, hlog⟩
  cases ha : (closing p t .calm ⟨m, ledger⟩ turns).aborted with
  | none => rfl
  | some reason =>
    obtain ⟨s, hc, hmove⟩ := htold.aborted reason ha
    rw [hc] at hskipping
    rcases Closing.move_eq_abort hmove with ⟨v, rfl, -⟩ | ⟨raised, rfl, -⟩
    · exact hskipping.elim
    · exact absurd rfl hskipping.1

namespace Worker

def upcoming (p : Plan) : Progress Worker Unit → ℕ
  | .running (.start id) => if id < p.workers then 1 else 0
  | .running (.enter _) => 1
  | .running (.metadata ..) => 1
  | _ => 0

def unentered (p : Plan) : Progress Worker Unit → UInt64
  | .running (.code _ s) => Unloading.Worker.unentered p.code (.running s)
  | c => upcoming p c

def unitsInHand (p : Plan) : Progress Worker Unit → Multiset Query
  | .running (.code _ s) => Unloading.Worker.owes p.code (.running s)
  | _ => 0

/-- What is known of a worker on its way through the code cache. -/
def Comes (may : Reply Answer → Prop) (units : List UnitId) (p : Plan) (m : Shared) :
    Progress Worker Unit → Prop
  | .running (.enter id) => id < p.workers
  | .running (.metadata id _) => id < p.workers
  | .running (.code id s) => Unloading.Worker.Knows may units p.code id m.code (.running s)
  | _ => True

variable {may : Reply Answer → Prop} {next : UnitId → Option UnitId} {here : Option UnitId}
  {units : List UnitId} {p : Plan} {m m' : Shared}

theorem comes_stable {c : Progress Worker Unit} (h : Unloading.Later m.code m'.code)
    (hc : Comes may units p m c) : Comes may units p m' c := by
  cases c with
  | running s =>
    cases s with
    | code id s => exact Unloading.Worker.knows_stable h hc
    | _ => exact hc
  | returned r => trivial
  | panicked cause => trivial

/-- What one move of a worker does to the unloading. -/
structure Passes (may : Reply Answer → Prop) (units : List UnitId) (p : Plan) (m : Shared)
    (s : Worker) (m' : Shared) (c : Progress Worker Unit) (l : List (Reply Answer)) : Prop where
  valid : m'.code.frontier.Valid units
  comes : Comes may units p m' c
  later : Unloading.Later m.code m'.code
  entered : m'.code.entered + unentered p c + early l = m.code.entered + unentered p (.running s)
  comesOn : upcoming p c + early l ≤ upcoming p (.running s)
  asked : m'.code.owes p.code units + unitsInHand p c + unloads l ≤
    m.code.owes p.code units + unitsInHand p (.running s)

theorem Passes.outside {s : Worker} {c : Progress Worker Unit} {l : List (Reply Answer)}
    (hm : m.code.frontier.Valid units) (hcode : m'.code = m.code) (hc : Comes may units p m' c)
    (hcome : upcoming p c + early l = upcoming p (.running s)) (hunits : unloads l = 0)
    (hplaces : unentered p c = upcoming p c ∧
      unentered p (.running s) = upcoming p (.running s))
    (hhand : unitsInHand p c ≤ unitsInHand p (.running s)) : Passes may units p m s m' c l := by
  constructor
  case valid =>
    rw [hcode]
    exact hm
  case comes => exact hc
  case later =>
    rw [hcode]
    exact .refl _
  case entered =>
    rw [hcode, hplaces.1, hplaces.2, ← hcome, Nat.cast_add, add_assoc]
  case comesOn => exact hcome.le
  case asked =>
    rw [hcode, hunits, add_zero]
    exact add_le_add le_rfl hhand

theorem move_passes (hmay : ∀ r, may r → following next r) (hchain : Chain next here units)
    (hworkers : p.code.workers = p.workers) (hm : m.code.frontier.Valid units) {s : Worker}
    (hs : Comes may units p m (.running s)) :
    (s.move p m).Ensures may (Passes may units p m s) m := by
  have hquiet : ∀ {l : List (Reply Answer)} {ph : Phase}, Within (some ph) l →
      ph ≠ .metadata → 0 + early l = 0 := by
    intro l ph hl hph
    rw [early_of_within hl (by simpa using hph)]
  cases s with
  | start id =>
    simp only [move]
    split
    · next h =>
      refine .outside hm rfl h ?_ rfl ⟨rfl, rfl⟩ le_rfl
      simp [upcoming, early, h]
    · next h =>
      refine .outside hm rfl trivial ?_ rfl ⟨rfl, rfl⟩ le_rfl
      simp [upcoming, early, h]
  | enter id => exact .outside hm rfl hs rfl rfl ⟨rfl, rfl⟩ le_rfl
  | metadata id s =>
    have hmove := (s.move_early may p.compiler p.unloading m.metadataPart).and
      (s.within p.compiler p.unloading m.metadataPart)
    refine hmove.lift rfl ?_ ?_ ?_
    · intro t s' l h
      refine .outside hm rfl hs ?_ (unloads_of_within h.2 (by decide)) ⟨rfl, rfl⟩ le_rfl
      rw [h.1]
      rfl
    · intro ran _
      -- The worker comes to the code cache, where it is still to be counted as entered.
      have hid : id < p.code.workers := hworkers ▸ hs
      refine ⟨hm, rfl, .refl _, ?_, Nat.zero_le _, (add_zero _).le⟩
      simp [unentered, upcoming, Unloading.Worker.unentered, early, hid]
    · intro cause l h
      refine .outside hm rfl trivial ?_ (unloads_of_within h.2 (by decide)) ⟨rfl, rfl⟩ le_rfl
      rw [h.1]
      rfl
  | code id s =>
    have hmove := (((s.move_following (t := m.codePart) hmay hchain hm hs).and
      (s.move_settles (t := m.codePart) hmay hchain hm hs)).and
      (s.move_enters p.code m.codePart)).and (s.within p.code m.codePart)
    have hcalm : ∀ {l : List (Reply Answer)} {x y : UInt64}, Within (some .code) l → x = y →
        x + early l = y := by
      intro l x y hl he
      rw [early_of_within hl (by decide), he]
      exact add_zero y
    refine hmove.lift rfl ?_ ?_ ?_
    · intro t s' l h
      obtain ⟨⟨⟨⟨hv, hk, hlater⟩, hset⟩, hentered⟩, hl⟩ := h
      have hcomes : 0 + early l ≤ 0 := (hquiet hl (by decide)).le
      exact ⟨hv, hk, hlater, hcalm hl hentered, hcomes, hset⟩
    · intro total h
      obtain ⟨⟨⟨⟨hv, -, hlater⟩, hset⟩, hentered⟩, hl⟩ := h
      have hcomes : 0 + early [] ≤ 0 := (hquiet hl (by decide)).le
      exact ⟨hv, trivial, hlater, hcalm hl hentered, hcomes, hset⟩
    · intro cause l h
      obtain ⟨⟨⟨⟨hv, -, hlater⟩, hset⟩, hentered⟩, hl⟩ := h
      have hcomes : 0 + early l ≤ 0 := (hquiet hl (by decide)).le
      exact ⟨hv, trivial, hlater, hcalm hl hentered, hcomes, hset⟩
  | table id s =>
    refine (s.within p.sweep m.tally).lift rfl ?_ ?_ ?_
    · intro t s' l h
      exact .outside hm rfl trivial (hquiet h (by decide)) (unloads_of_within h (by decide))
        ⟨rfl, rfl⟩ le_rfl
    · intro r _
      split <;> exact .outside hm rfl trivial rfl rfl ⟨rfl, rfl⟩ le_rfl
    · intro cause l h
      exact .outside hm rfl trivial (hquiet h (by decide)) (unloads_of_within h (by decide))
        ⟨rfl, rfl⟩ le_rfl
  | classes id s =>
    refine (s.within m.classPart).lift rfl ?_ ?_ ?_
    · intro t s' l h
      exact .outside hm rfl trivial (hquiet h (by decide)) (unloads_of_within h (by decide))
        ⟨rfl, rfl⟩ le_rfl
    · exact fun cleaned _ => .outside hm rfl trivial rfl rfl ⟨rfl, rfl⟩ le_rfl
    · intro cause l h
      exact .outside hm rfl trivial (hquiet h (by decide)) (unloads_of_within h (by decide))
        ⟨rfl, rfl⟩ le_rfl
  | done => exact .outside hm rfl trivial rfl rfl ⟨rfl, rfl⟩ le_rfl

end Worker

section

variable {ι : Type} {may : Reply Answer → Prop} {next : UnitId → Option UnitId}
  {here : Option UnitId} {host : (q : Query) → Answer q} {units : List UnitId} {r : Request}
  {plan : Plan} {shared : Shared}

def coming (hmay : ∀ r, may r → following next r) (hchain : Chain next here units)
    (hworkers : plan.code.workers = plan.workers) :
    Outline may (fun _ : ι => Worker.move plan) where
  mem m := m.code.frontier.Valid units
  call _ m c := Worker.Comes may units plan m c
  later m m' := Unloading.Later m.code m'.code
  stable h hc := Worker.comes_stable h hc
  step hm hs := (Worker.move_passes hmay hchain hworkers hm hs).mono fun _ _ _ h =>
    ⟨⟨h.valid, h.comes⟩, h.later, fun _ _ => trivial⟩

/-- Where the units of a pass are. -/
def unitWeights (units : List UnitId) (plan : Plan) :
    Weights Answer Shared Worker Unit (Multiset Query) where
  mem m := m.code.owes plan.code units
  call := Worker.unitsInHand plan
  reply r := unloads [r]

/-- Who has entered the unloading, and who will not any more. -/
def entryWeights (plan : Plan) : Weights Answer Shared Worker Unit UInt64 where
  mem m := m.code.entered
  call := Worker.unentered plan
  reply r := early [r]

def upcomingWeights (plan : Plan) : Weights Answer Shared Worker Unit ℕ where
  mem _ := 0
  call := Worker.upcoming plan
  reply r := early [r]

variable [Fintype ι] [DecidableEq ι] {ids : ι → UInt32} {turns : List (Turn ι Answer)}

/-- How many calls come past the range check of the pass. -/
def entrants (plan : Plan) (ids : ι → UInt32) : ℕ :=
  (Finset.univ.filter fun i => ids i < plan.workers).card

theorem Opened.code_workers (h : Opened host units r plan shared) :
    plan.code.workers = plan.workers := by
  rw [h.code.plan, h.workers]
  rfl

variable (ids) (hchain : Chain (fun u => host (.nextAlive u)) (host .firstAlive) units)
  (hopened : Opened host units r plan shared)
  (hturns : ∀ t ∈ turns, t.Within (following fun u => host (.nextAlive u)))

include hchain hopened

omit [Fintype ι] [DecidableEq ι] in
theorem coming_start :
    (coming (fun _ h => h) hchain hopened.code_workers).Holds
      (Pool.start shared fun i => Worker.start (ids i)) :=
  Outline.holds_start _ (hopened.code.owes hchain).1 fun _ => trivial

include hturns

theorem unloads_le : unloads (work plan shared ids turns).log ≤ plan.code.asks units := by
  have htotal := (unitWeights units plan).total_run
    (coming (fun _ h => h) hchain hopened.code_workers) (r := (· ≤ ·))
    (fun _ => le_rfl) le_trans (fun c h => add_le_add le_rfl h)
    (fun hm hs => (Worker.move_passes (fun _ h => h) hchain hopened.code_workers hm hs).mono
      fun m' c l h => by
        show m'.code.owes plan.code units + (unitWeights units plan).call c +
          (l.map fun r => unloads [r]).sum ≤ _
        rw [sum_unloads]
        exact h.asked)
    (coming_start ids hchain hopened) hturns
  have hstart : ∑ i, (unitWeights units plan).call (.running (.start (ids i))) = 0 :=
    Finset.sum_eq_zero fun i _ => rfl
  rw [Weights.total_start, Weights.total, hstart, add_zero] at htotal
  rw [← sum_unloads]
  calc ((work plan shared ids turns).log.map fun r => unloads [r]).sum
      ≤ _ := Multiset.le_add_left _ _
    _ ≤ shared.code.owes plan.code units := htotal
    _ = plan.code.asks units := (hopened.code.owes hchain).2

theorem early_le_entrants : early (work plan shared ids turns).log ≤ entrants plan ids := by
  have hreplies : ∀ l : List (Reply Answer), (l.map (upcomingWeights plan).reply).sum = early l :=
    fun l => sum_map_countP isEarly l
  have htotal := (upcomingWeights plan).total_run
    (coming (fun _ h => h) hchain hopened.code_workers) (r := (· ≤ ·))
    (fun _ => le_rfl) le_trans (fun c h => Nat.add_le_add_left h c)
    (fun hm hs => (Worker.move_passes (fun _ h => h) hchain hopened.code_workers hm hs).mono
      fun m' c l h => by
        show 0 + (upcomingWeights plan).call c + (l.map (upcomingWeights plan).reply).sum ≤
          0 + (upcomingWeights plan).call _
        rw [hreplies, zero_add, zero_add]
        exact h.comesOn)
    (coming_start ids hchain hopened) hturns
  have hstart : ∑ i, (upcomingWeights plan).call (.running (.start (ids i))) = entrants plan ids :=
    (Finset.card_filter _ _).symm
  have hnone : (upcomingWeights plan).mem shared = 0 := rfl
  rw [Weights.total_start, Weights.total, hreplies, hstart, hnone, zero_add] at htotal
  exact (Nat.le_add_left _ _).trans htotal

theorem entered_eq (hover : (work plan shared ids turns).AllOver) :
    (work plan shared ids turns).mem.code.entered =
      .ofNat (entrants plan ids - early (work plan shared ids turns).log) := by
  have hreplies : ∀ l : List (Reply Answer), (l.map (entryWeights plan).reply).sum = early l :=
    sum_early
  have htotal := (entryWeights plan).total_run
    (coming (fun _ h => h) hchain hopened.code_workers) (r := Eq)
    (fun _ => rfl) Eq.trans (fun c h => by rw [h])
    (fun hm hs => (Worker.move_passes (fun _ h => h) hchain hopened.code_workers hm hs).mono
      fun m' c l h => by
        rw [Weights.Related, hreplies]
        exact h.entered)
    (coming_start ids hchain hopened) hturns
  have hstart : ∑ i, (entryWeights plan).call (.running (.start (ids i))) = entrants plan ids := by
    rw [entrants, ← Finset.sum_boole]
    exact Finset.sum_congr rfl fun i _ => Nat.cast_ite _ _ _
  have hcalls : ∑ i, (entryWeights plan).call ((work plan shared ids turns).calls i) = 0 := by
    refine Finset.sum_eq_zero fun i _ => ?_
    cases hc : (work plan shared ids turns).calls i with
    | running s => exact absurd hc (hover.ne_running i s)
    | returned u => rfl
    | panicked cause => rfl
  have hnone : (entryWeights plan).mem shared = 0 := by
    obtain ⟨f, -, hcode⟩ := hopened.code.shared
    show shared.code.entered = 0
    rw [hcode]
  rw [Weights.total_start, Weights.total, hreplies, hstart, hnone, zero_add] at htotal
  have hsum : (work plan shared ids turns).mem.code.entered +
      ∑ i, (entryWeights plan).call ((work plan shared ids turns).calls i) +
        early (work plan shared ids turns).log = entrants plan ids := htotal
  rw [hcalls, add_zero] at hsum
  have hle := early_le_entrants ids hchain hopened hturns
  show _ = ((entrants plan ids - early (work plan shared ids turns).log : ℕ) : UInt64)
  rw [Nat.cast_sub hle, ← hsum, add_sub_cancel_right]

end

/-- How a pass is closed that has missed a unit. `came` is the number of calls that came as far as
the code cache. -/
structure Shortfall {ι : Type} (units : List UnitId) (plan : Plan) (came : ℕ)
    (p : Pool ι Answer Shared Worker Unit) : Prop where
  counted : p.mem.code.unloaded.toNat = unloadings p.log
  short : unloadings p.log < units.length
  /-- Entries are counted in a word, which is 0 again after so many. -/
  found : ¬18446744073709551616 ∣ came → ∀ thread ledger turns, 19 < turns.length →
    (closing plan thread .calm ⟨p.mem, ledger⟩ turns).aborted =
      some (.violation (.countMismatch (.ofNat units.length) p.mem.code.unloaded))
  unseen : 18446744073709551616 ∣ came → ∀ thread ledger turns,
    (closing plan thread .calm ⟨p.mem, ledger⟩ turns).aborted = none ∧
      ∀ r ∈ (closing plan thread .calm ⟨p.mem, ledger⟩ turns).log, r.1 = .endSweep

theorem unloadings_lt {ι : Type} {units : List UnitId} {plan : Plan}
    {p : Pool ι Answer Shared Worker Unit} (hle : unloads p.log ≤ plan.code.asks units)
    {u : UnitId} (hu : u ∈ units) (hmissed : u ∉ unitsOf p.log) :
    unloadings p.log < units.length := by
  have hcard : (plan.code.asks units).card = units.length := by simp [Unloading.Plan.asks]
  have hdone : unloaded p.log ≤ plan.code.asks units := (unloaded_le_unloads _).trans hle
  have hsize := Multiset.card_le_card hdone
  rw [card_unloaded, hcard] at hsize
  refine Nat.lt_of_le_of_ne hsize fun heq => ?_
  have hall : unloaded p.log = plan.code.asks units :=
    Multiset.eq_of_le_of_card_le hdone (by rw [hcard, card_unloaded, heq])
  have hasked : .unload u plan.code.pass plan.code.unloading ∈ unloads p.log :=
    Multiset.mem_of_le (unloaded_le_unloads _) (hall ▸ plan.code.mem_asks.2 hu)
  exact hmissed (mem_unitsOf_of_unloads hasked)

/-- Whatever the workers of a pass run into: if a unit was never asked for, closing the pass ends
the process, unless every worker that entered the pass ended with the metadata. -/
theorem missed_units_are_found_by_those_who_came {ι : Type} [Fintype ι] [DecidableEq ι]
    {host : (q : Query) → Answer q} {units : List UnitId} {plan : Plan} {shared : Shared}
    {turns : List (Turn ι Answer)} (r : Request)
    (hchain : Chain (fun u => host (.nextAlive u)) (host .firstAlive) units)
    (hlength : units.length < 18446744073709551616)
    (hverify : r.tuning.verify = true) (ledger : Ledger) (first : List (Turn Unit Answer))
    (hfirst : ∀ t ∈ first, t.Agrees host)
    (hopen : (opening r ledger first).calls () = .returned (plan, shared)) (ids : ι → UInt32)
    (hturns : ∀ t ∈ turns, t.Within (following fun u => host (.nextAlive u)))
    (hover : (work plan shared ids turns).AllOver) {u : UnitId} (hu : u ∈ units)
    (hmissed : u ∉ unitsOf (work plan shared ids turns).log) :
    early (work plan shared ids turns).log ≤ entrants plan ids ∧
      Shortfall units plan (entrants plan ids - early (work plan shared ids turns).log)
        (work plan shared ids turns) := by
  have hopened : Opened host units r plan shared :=
    Opening.returned_opened (steady_agreeing host) hchain hfirst hopen
  have hentered := entered_eq ids hchain hopened hturns hover
  have hshort := unloadings_lt (unloads_le ids hchain hopened hturns) hu hmissed
  have hcounted := counted_of_over hopened hover
  refine ⟨early_le_entrants ids hchain hopened hturns, ?_⟩
  generalize work plan shared ids turns = p at hentered hshort hcounted ⊢
  have hunloaded : p.mem.code.unloaded.toNat = unloadings p.log := by
    rw [hcounted, UInt64.toNat_ofNat_of_lt' (hshort.trans hlength)]
  -- The check is left out if the count of entries is 0, and it is a word.
  have hzero : (p.mem.code.entered == 0) = true ↔
      18446744073709551616 ∣ entrants plan ids - early p.log := by
    rw [beq_iff_eq, hentered, ← UInt64.toNat_inj, UInt64.toNat_ofNat', Nat.dvd_iff_mod_eq_zero]
    exact Iff.rfl
  have hexpected : plan.code.expected = some (.ofNat units.length) := by
    rw [hopened.code.plan, Unloading.Request.expects]
    exact if_pos hverify
  have hviolation : Unloading.checkCount plan.code.expected p.mem.code.unloaded =
      some (.countMismatch (.ofNat units.length) p.mem.code.unloaded) := by
    rw [hexpected, Unloading.checkCount]
    refine if_neg fun heq => ?_
    have hnat := congrArg UInt64.toNat heq
    rw [hunloaded, UInt64.toNat_ofNat_of_lt' hlength] at hnat
    exact hshort.ne hnat.symm
  constructor
  case counted => exact hunloaded
  case short => exact hshort
  case found =>
    intro hcame thread ledger turns hlen
    have hsome : (p.mem.code.entered == 0) = false :=
      Bool.eq_false_iff.2 fun h => hcame (hzero.1 h)
    exact closing_finds hsome hviolation thread ledger hlen
  case unseen =>
    intro hcame thread ledger turns
    exact closing_skips (hzero.2 hcame) thread ledger turns

theorem missed_units_are_found_by_those_who_came_small :
    let ids : Fin 2 → UInt32 := ![0, 1]
    let turns := brokenTurns smallHost
      (fun q => q = .releaseMetadata true || q = .unload ⟨2⟩ ⟨1⟩ true)
      (List.replicate 40 [0, 1]).flatten
    let p := work smallPlan smallShared ids turns
    entrants smallPlan ids = 2 ∧ early p.log = 1 ∧
      Shortfall smallUnits smallPlan (entrants smallPlan ids - early p.log) p := by
  intro ids turns p
  refine ⟨by decide, by decide +kernel, ?_⟩
  refine (missed_units_are_found_by_those_who_came smallRequest smallUnits_chain (by decide) rfl {}
    (calmTurns smallHost (List.replicate 15 ()))
    (fun t ht => (calmTurns_returns smallHost _ t ht).agrees) rfl ids
    (fun t ht q => following_of_agrees (brokenTurns_agrees smallHost _ _ t ht q)) ?_
    (u := ⟨9⟩) (by decide) (by decide +kernel)).2
  unfold Pool.AllOver
  decide +kernel

def earlyTurns : List (Turn Unit Answer) :=
  brokenTurns smallHost (fun q => q = .releaseMetadata true) (List.replicate 9 ())

/-- A pass that a worker has entered is not always checked. -/
theorem not_every_missed_unit_is_found : ¬∀ (host : (q : Query) → Answer q) (units : List UnitId)
    (r : Request) (ledger : Ledger) (first : List (Turn Unit Answer)) (plan : Plan)
    (shared : Shared), Stable (fun u => host (.nextAlive u)) (host .firstAlive) units →
      r.tuning.verify = true → (∀ t ∈ first, t.Agrees host) →
      (opening r ledger first).calls () = .returned (plan, shared) →
      ∀ (ids : Unit → UInt32) (turns : List (Turn Unit Answer)), (∀ t ∈ turns, t.Agrees host) →
        (work plan shared ids turns).AllOver → (∃ i, ids i < plan.workers) →
        (∃ u ∈ units, u ∉ unitsOf (work plan shared ids turns).log) →
        ∀ (thread : Thread) (ledger : Ledger) (turns' : List (Turn Unit Answer)),
          19 < turns'.length →
          (closing plan thread .calm ⟨(work plan shared ids turns).mem, ledger⟩ turns').aborted ≠
            none := by
  intro h
  refine h smallHost smallUnits smallRequest {} (calmTurns smallHost (List.replicate 15 ()))
    smallPlan smallShared smallUnits_stable rfl
    (fun t ht => (calmTurns_returns smallHost _ t ht).agrees) rfl (fun _ => 0) earlyTurns
    (brokenTurns_agrees smallHost _ _) ?_ ⟨(), by decide⟩ ⟨⟨5⟩, by decide, by decide +kernel⟩ ⟨1⟩ {}
    (calmTurns smallHost (List.replicate 20 ())) (by decide) (by decide +kernel)
  unfold Pool.AllOver
  decide +kernel

end Pass

end PauseCleanup
