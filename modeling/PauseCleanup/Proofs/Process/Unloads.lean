import PauseCleanup.Proofs.Process.Numbers
/-!
# Who unloads the units

Only the workers of a pass unload anything, and what they unload carries the id and the flag of
their pass. No unit is unloaded twice in a pass, and when its workers are over none is left.
-/
namespace PauseCleanup

open Host (Query Answer)

/-- Nothing of what was asked unloads a unit. -/
def SparesUnits (l : List (Reply Answer)) : Prop := ∀ r ∈ l, r.1.isUnload = false

theorem sparesUnits_nil : SparesUnits [] := List.forall_mem_nil _

theorem sparesUnits_singleton {r : Reply Answer} (h : r.1.isUnload = false) : SparesUnits [r] :=
  List.forall_mem_singleton.2 h

theorem Move.Ensures.lift_spares {Sub SubState SubResult Mem State Result : Type}
    {may : Reply Answer → Prop} {inner : HostMove Sub SubState SubResult} {sub : Sub}
    (h : inner.Ensures may (fun _ _ l => SparesUnits l) sub) {put : Sub → Mem} {mem : Mem}
    (hput : put sub = mem) {wrap : SubState → State}
    {finished : SubResult → HostMove Mem State Result} {rescue : Option (Panic → State)}
    (hfinished : ∀ r, (finished r).Ensures may (fun _ _ l => SparesUnits l) mem) :
    (inner.lift mem put wrap finished rescue).Ensures may (fun _ _ l => SparesUnits l) mem :=
  h.lift hput (fun _ _ _ hl => hl) (fun r _ => hfinished r) fun _ _ hl => hl

namespace TableSweep

theorem Opening.spares (may : Reply Answer → Prop) (resize keeps : Bool) (s : Opening) :
    (s.move resize keeps).Ensures may (fun _ _ l => SparesUnits l) () := by
  cases s with
  | done enabled => exact sparesUnits_nil
  | _ => exact fun _ _ => sparesUnits_singleton rfl

theorem Closing.spares (may : Reply Answer → Prop) (p : TableSweep) (cleanup : Bool) (s : Closing) :
    (s.move p cleanup).Ensures may (fun _ _ l => SparesUnits l) () := by
  cases s with
  | start =>
    simp only [move]
    split
    · exact fun _ _ => sparesUnits_singleton rfl
    · exact sparesUnits_nil
  | torn => exact trivial
  | done => exact sparesUnits_nil

end TableSweep

namespace Unloading

theorem Opening.spares (may : Reply Answer → Prop) (r : Request) (s : Opening) :
    (s.move r).Ensures may (fun _ _ l => SparesUnits l) () := by
  cases s with
  | start =>
    simp only [move]
    split
    · exact sparesUnits_nil
    · exact fun _ _ => sparesUnits_singleton rfl
  | found first => exact sparesUnits_nil
  | count first here counted =>
    cases here with
    | none => exact sparesUnits_nil
    | some u => exact fun _ _ => sparesUnits_singleton rfl
  | build first expected =>
    simp only [move]
    split <;> exact sparesUnits_nil
  | done plan shared => exact sparesUnits_nil

theorem Closing.spares (may : Reply Answer → Prop) (p : Plan) (unwinding : Bool) (m : Shared)
    (s : Closing) : (s.move p unwinding m).Ensures may (fun _ _ l => SparesUnits l) m := by
  cases s with
  | check s =>
    cases s with
    | start =>
      simp only [move, Check.move]
      split <;> exact sparesUnits_nil
    | host => exact fun _ _ => sparesUnits_singleton rfl
    | done found => cases found <;> exact sparesUnits_nil
  | fatal v => exact trivial
  | _ => exact sparesUnits_nil

end Unloading

namespace Pass

theorem Opening.spares (may : Reply Answer → Prop) (r : Request) (l : Ledger) (s : Opening) :
    (s.move r l).Ensures may (fun _ _ l => SparesUnits l) l := by
  cases s with
  | sweep pass s =>
    exact (s.spares may r.tuning.resize false).lift_spares rfl fun _ => sparesUnits_nil
  | code pass opened s =>
    exact (s.spares may (r.unloadingRequest pass)).lift_spares rfl fun _ => sparesUnits_nil
  | classes pass opened plan shared => exact fun _ _ => sparesUnits_singleton rfl
  | abandon opened s cause =>
    exact (s.spares may opened true).lift_spares rfl fun _ => sparesUnits_nil
  | _ => exact sparesUnits_nil

theorem Closing.spares (may : Reply Answer → Prop) (p : Plan) (t : Thread) (o : Occasion)
    (e : Estate) (s : Closing) :
    (s.move p t o e).Ensures may (fun _ _ l => SparesUnits l) e := by
  cases s with
  | record numbers s => cases s <;> exact sparesUnits_nil
  | check s =>
    exact (s.spares may p.code o.unwinds e.shared.code).lift_spares rfl fun _ => sparesUnits_nil
  | sweep s raised =>
    exact (s.spares may p.sweep _).lift_spares rfl fun _ => sparesUnits_nil
  | done raised => cases raised <;> exact sparesUnits_nil
  | _ => exact sparesUnits_nil

theorem times_unload_eq_zero {ι Mem State Result : Type} {p : Pool ι Answer Mem State Result}
    (h : SparesUnits p.log) (u : UnitId) (pass : PassId) (unloading : Bool) :
    p.times (.unload u pass unloading) = 0 := by
  rw [p.times_eq, List.countP_eq_zero]
  intro r hr hq
  have hunload := h r hr
  rw [of_decide_eq_true hq] at hunload
  cases hunload

variable {ι : Type} [DecidableEq ι] [Fintype ι] {host : (q : Query) → Answer q}
  {units : List UnitId} {c : Commission ι} {plan : Plan} {crew : Pool ι Answer Shared Worker Unit}

namespace Manned

theorem times_le (h : Manned host units c plan crew) (hhost : Dependable host units) (hc : c.Good)
    (u : UnitId) (pass : PassId) (unloading : Bool) : crew.times (.unload u pass unloading) ≤
      if u ∈ units ∧ pass = plan.pass ∧ unloading = c.request.unloading then 1 else 0 := by
  obtain ⟨hopened, turns, hturns⟩ := h
  have hplan : plan.code.pass = plan.pass ∧ plan.code.unloading = c.request.unloading := by
    rw [hopened.code.plan]
    exact ⟨rfl, rfl⟩
  have howes := owes_run hhost.units hc.fits hopened hc.inRange
    (holds_work hhost.units hhost.classes hopened c.ids (List.forall_mem_nil _)) hturns
  dsimp only at howes
  rw [hopened.owes hhost.units.chain] at howes
  have hle := Multiset.le_iff_exists_add.2 ⟨_, (howes.symm.trans (add_comm _ _))⟩
  rw [Pool.times_eq, ← count_chores rfl, ← hplan.1, ← hplan.2]
  exact (Multiset.count_le_of_le _ hle).trans
    (count_unload_duties hhost.units.nodup u pass unloading).le

theorem times_eq (h : Manned host units c plan crew) (hhost : Dependable host units) (hc : c.Good)
    (hover : crew.AllOver) (u : UnitId) (pass : PassId) (unloading : Bool) :
    crew.times (.unload u pass unloading) =
      if u ∈ units ∧ pass = plan.pass ∧ unloading = c.request.unloading then 1 else 0 := by
  obtain ⟨hopened, turns, hturns⟩ := h
  have hplan : plan.code.pass = plan.pass ∧ plan.code.unloading = c.request.unloading := by
    rw [hopened.code.plan]
    exact ⟨rfl, rfl⟩
  have hfinished := finished hhost.units hhost.classes hc.fits hopened hc.inRange hc.zero hturns
    hover
  rw [Pool.times_eq, ← count_chores rfl, hfinished.asked, count_unload_duties hhost.units.nodup,
    hplan.1, hplan.2]

end Manned

namespace Stage

/-- How often a pass has put a question: while it is opened, or since then. -/
def times (q : Query) : Stage ι → ℕ
  | .opening call => call.times q
  | .working _ crew => crew.times q
  | .closing _ crew call => crew.times q + call.times q

def Worked : Stage ι → Prop
  | .opening _ => False
  | .working _ crew => crew.AllOver
  | .closing .. => True

/-- The calls that open and close the pass have unloaded nothing. -/
def Apart : Stage ι → Prop
  | .opening call => SparesUnits call.log
  | .working .. => True
  | .closing _ _ call => SparesUnits call.log

omit [DecidableEq ι] [Fintype ι] in
theorem Apart.opened {call : Pool Unit Answer Ledger Opening (Plan × Shared)}
    (h : Apart (.opening call : Stage ι)) : (Stage.opened c call).Apart := by
  unfold Stage.opened
  split
  · exact trivial
  · exact h

theorem Apart.turn {s : Stage ι} (h : s.Apart) (l : Ledger) (a : Actor ι)
    (answer : (q : Query) → Except Panic (Answer q)) : (s.turn c l a answer).stage.Apart := by
  cases s with
  | opening call =>
    cases a with
    | opener =>
      exact Apart.opened (({ call with mem := l } : Pool ..).log_turn (fun _ => trivial)
        (fun _ m s => s.spares (fun _ => True) c.request m) h)
    | _ => exact h
  | working plan crew =>
    cases a with
    | closer =>
      simp only [Stage.turn]
      split
      · exact sparesUnits_nil
      · exact h
    | _ => exact h
  | closing plan crew call =>
    cases a with
    | closer =>
      exact ({ call with mem.ledger := l } : Pool ..).log_turn (fun _ => trivial)
        (fun _ e s => s.spares (fun _ => True) plan c.thread .calm e) h
    | _ => exact h

variable {s : Stage ι} (u : UnitId) (pass : PassId) (unloading : Bool)

/-- What a pass unloads carries its id and its flag, and is not unloaded twice. -/
theorem times_unload_le (h : s.Sound host units c) (hhost : Dependable host units) (hc : c.Good)
    (hapart : s.Apart) : s.times (.unload u pass unloading) ≤
      if u ∈ units ∧ s.pass? = some pass ∧ unloading = c.request.unloading then 1 else 0 := by
  cases s with
  | opening call =>
    rw [times, times_unload_eq_zero hapart]
    exact Nat.zero_le _
  | working plan crew =>
    simpa [times, pass?, eq_comm (a := pass)] using h.times_le hhost hc u pass unloading
  | closing plan crew call =>
    rw [times, times_unload_eq_zero hapart, add_zero]
    simpa [pass?, eq_comm (a := pass)] using h.1.times_le hhost hc u pass unloading

theorem times_unload_eq (h : s.Sound host units c) (hhost : Dependable host units) (hc : c.Good)
    (hapart : s.Apart) (hworked : s.Worked) : s.times (.unload u pass unloading) =
      if u ∈ units ∧ s.pass? = some pass ∧ unloading = c.request.unloading then 1 else 0 := by
  cases s with
  | opening call => exact hworked.elim
  | working plan crew =>
    simpa [times, pass?, eq_comm (a := pass)] using h.times_eq hhost hc hworked u pass unloading
  | closing plan crew call =>
    rw [times, times_unload_eq_zero hapart, add_zero]
    simpa [pass?, eq_comm (a := pass)] using h.1.times_eq hhost hc h.2.1 u pass unloading

end Stage

namespace Process

variable {κ : Type} {ι : κ → Type} [DecidableEq κ] [∀ k, DecidableEq (ι k)] [∀ k, Fintype (ι k)]
  (c : (k : κ) → Commission (ι k))

theorem apart_run (l : Ledger) (turns : List (Turn ((k : κ) × Actor (ι k)) Answer)) (k : κ) :
    (((start l : Process κ ι).run c turns).stages k).Apart := by
  refine (start l).run_induction c (P := fun p => (p.stages k).Apart) sparesUnits_nil
    fun p hp t _ => ?_
  by_cases hk : k = t.caller.1
  · cases ha : p.aborted with
    | none =>
      subst hk
      rw [stages_turn_self c t ha]
      exact hp.turn _ _ _
    | some reason => rwa [turn, ha]
  · rwa [stages_turn_of_ne c t hk]

end Process

end Pass

end PauseCleanup
