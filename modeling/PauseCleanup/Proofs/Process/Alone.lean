import PauseCleanup.Proofs.Pool.Beside
import PauseCleanup.Proofs.Process.Sound
/-!
# A pass among others and a pass alone

All that a pass takes from the ledger is its id. So it goes through the same places whether the
others take their turns or not.
-/
namespace PauseCleanup

open Host (Query Answer)

variable {host : (q : Query) → Answer q}

namespace Unloading

/-- The same plan under another id. -/
def Plan.tagged (id : PassId) (p : Plan) : Plan := { p with pass := id }

def Opening.tagged (id : PassId) : Opening → Opening
  | .done plan shared => .done (plan.tagged id) shared
  | s => s

theorem Opening.move_beside (id : PassId) (r : Request) (s : Opening) :
    (s.move r).Beside host
      (fun _ c _ c' => c' = c.map (Opening.tagged id) fun o => (o.1.tagged id, o.2)) () ()
      ((s.tagged id).move { r with pass := id }) := by
  cases s with
  | start =>
    simp only [move, tagged]
    split <;> exact rfl
  | found first =>
    simp only [move, tagged, Move.Beside]
    split <;> exact rfl
  | count first here counted => cases here <;> exact rfl
  | build first expected =>
    simp only [move, tagged]
    split <;> exact rfl
  | done plan shared => exact rfl

theorem Worker.move_beside (id : PassId) (p : Plan) (t : Tallied Shared) (s : Worker) :
    (s.move p t).Beside host (fun m c m' c' => m' = m ∧ c' = c) t t (s.move (p.tagged id) t) := by
  cases s with
  | unload total us opened =>
    cases us with
    | nil => exact .refl _ _
    | cons u us => exact ⟨rfl, rfl⟩
  | _ => exact .refl _ _

end Unloading

namespace Pass

def Plan.tagged (id : PassId) (p : Plan) : Plan := { p with pass := id, code := p.code.tagged id }

namespace Opening

def tagged (id : PassId) : Opening → Opening
  | .sweep _ s => .sweep id s
  | .code _ opened s => .code id opened (s.tagged id)
  | .classes _ opened plan shared => .classes id opened (plan.tagged id) shared
  | .built plan shared => .built (plan.tagged id) shared
  | .done plan shared => .done (plan.tagged id) shared
  | s => s

/-- The two calls stand at the same place, but for the id. -/
def Alike (c c' : Progress Opening (Plan × Shared)) : Prop :=
  ∃ id, c' = c.map (tagged id) fun o => (o.1.tagged id, o.2)

theorem move_beside (id : PassId) (r : Request) (l l' : Ledger) (s : Opening) :
    (s.move r l).Beside host (fun _ c _ c' => Alike c c') l l' ((s.tagged id).move r l') := by
  cases s with
  | start => exact ⟨l'.newPass.1, rfl⟩
  | sweep pass s =>
    refine Move.Beside.lift (.refl () (s.move r.tuning.resize false)) (by rfl) (by rfl) ?_ ?_ rfl ?_
    · rintro _ s _ _ ⟨rfl, hs⟩
      exact ⟨id, by rw [← Progress.running.inj hs]; rfl⟩
    · rintro opened _ ⟨-, hr⟩
      exact ⟨id, by rw [← Progress.returned.inj hr]; rfl⟩
    · rintro cause _ ⟨-, hc⟩
      exact ⟨id, by rw [← Progress.panicked.inj hc]; rfl⟩
  | code pass opened s =>
    refine (s.move_beside id (r.unloadingRequest pass)).lift (by rfl) (by rfl) ?_ ?_ rfl ?_
    · intro _ s _ s' hs
      exact ⟨id, by rw [Progress.running.inj hs]; rfl⟩
    · intro o o' hr
      exact ⟨id, by rw [Progress.returned.inj hr]; rfl⟩
    · intro cause cause' hc
      exact ⟨id, by rw [Progress.panicked.inj hc]; rfl⟩
  | classes pass opened plan shared => exact ⟨id, rfl⟩
  | built plan shared => exact ⟨id, rfl⟩
  | abandon opened s cause =>
    refine Move.Beside.lift (.refl () (s.move opened true)) (by rfl) (by rfl) ?_ ?_ rfl ?_
    · rintro _ s _ _ ⟨-, hs⟩
      exact ⟨id, by rw [← Progress.running.inj hs]; rfl⟩
    · exact fun _ _ _ => ⟨id, rfl⟩
    · rintro cause _ ⟨-, hc⟩
      exact ⟨id, by rw [← Progress.panicked.inj hc]; rfl⟩
  | done plan shared => exact ⟨id, rfl⟩

end Opening

theorem Worker.move_beside (id : PassId) (p : Plan) (m : Shared) (s : Worker) :
    (s.move p m).Beside host (fun m c m' c' => m' = m ∧ c' = c) m m (s.move (p.tagged id) m) := by
  cases s with
  | start id' => exact .refl _ _
  | enter id' => exact ⟨rfl, rfl⟩
  | metadata id' s =>
    refine Move.Beside.lift (.refl m.metadataPart (s.move p.compiler p.unloading m.metadataPart))
      (by rfl) (by rfl) ?_ ?_ rfl ?_
    · rintro _ s _ _ ⟨rfl, hs⟩
      exact ⟨rfl, by rw [Progress.running.inj hs]⟩
    · exact fun _ _ _ => ⟨rfl, rfl⟩
    · rintro cause _ ⟨-, hc⟩
      exact ⟨rfl, by rw [Progress.panicked.inj hc]⟩
  | code id' s =>
    refine (s.move_beside id p.code m.codePart).lift (by rfl) (by rfl) ?_ ?_ rfl ?_
    · rintro _ s _ _ ⟨rfl, hs⟩
      exact ⟨rfl, by rw [Progress.running.inj hs]⟩
    · exact fun _ _ _ => ⟨rfl, rfl⟩
    · rintro cause _ ⟨-, hc⟩
      exact ⟨rfl, by rw [Progress.panicked.inj hc]⟩
  | table id' s =>
    refine Move.Beside.lift (.refl m.tally (s.move p.sweep m.tally)) (by rfl) (by rfl) ?_ ?_ rfl ?_
    · rintro _ s _ _ ⟨rfl, hs⟩
      exact ⟨rfl, by rw [Progress.running.inj hs]⟩
    · intro _ _ _
      by_cases hu : p.unloading = true
      · have hu' : (p.tagged id).unloading = true := hu
        rw [if_pos hu, if_pos hu']
        exact ⟨rfl, rfl⟩
      · have hu' : ¬(p.tagged id).unloading = true := hu
        rw [if_neg hu, if_neg hu']
        exact ⟨rfl, rfl⟩
    · rintro cause _ ⟨-, hc⟩
      exact ⟨rfl, by rw [Progress.panicked.inj hc]⟩
  | classes id' s => exact .refl _ _
  | done => exact .refl _ _

namespace Stage

variable {ι : Type} {c : Commission ι} {l l' : Ledger}
  {answer : (q : Query) → Except Panic (Answer q)} {units : List UnitId}

/-- The two passes stand at the same place, but for the id. How far they are with the ledger when
they are closed is left out: what they enter there is settled before. -/
inductive Alike : Stage ι → Stage ι → Prop
  | opening {call call' : Pool Unit Answer Ledger Opening (Plan × Shared)}
    (h : Opening.Alike (call.calls ()) (call'.calls ())) : Alike (.opening call) (.opening call')
  | working (id : PassId) (plan : Plan) {crew crew' : Pool ι Answer Shared Worker Unit}
    (hmem : crew'.mem = crew.mem) (hcalls : crew'.calls = crew.calls) :
    Alike (.working plan crew) (.working (plan.tagged id) crew')
  | closing (id : PassId) (plan : Plan) {crew crew' : Pool ι Answer Shared Worker Unit}
    (hmem : crew'.mem = crew.mem) {call call' : Pool Unit Answer Estate Closing Unit} :
    Alike (.closing plan crew call) (.closing (plan.tagged id) crew' call')

theorem Alike.opened {call call' : Pool Unit Answer Ledger Opening (Plan × Shared)}
    (h : Opening.Alike (call.calls ()) (call'.calls ())) :
    Alike (Stage.opened c call) (Stage.opened c call') := by
  obtain ⟨id, hid⟩ := h
  have hwhole : Alike (.opening call : Stage ι) (.opening call') := .opening ⟨id, hid⟩
  unfold Stage.opened
  cases hcall : call.calls () with
  | returned o =>
    rw [hcall] at hid
    rw [hid]
    exact .working id o.1 rfl rfl
  | _ =>
    rw [hcall] at hid
    rw [hid]
    exact hwhole

variable [DecidableEq ι] [Fintype ι]

theorem Alike.turn {s s' : Stage ι} (h : s.Alike s') (hs : s.Sound host units c)
    (hs' : s'.Sound host units c) (hcalm : ∀ q, answer q = .ok (host q)) (a : Actor ι) :
    (s.turn c l a answer).stage.Alike (s'.turn c l' a answer).stage := by
  cases h with
  | @opening call call' h =>
    cases a with
    | opener =>
      refine Alike.opened (Pool.turn_beside _ _ { call with mem := l } { call' with mem := l' }
        (R := fun _ c _ c' => Opening.Alike c c') hs.1 hs'.1 hcalm h ?_ fun s s' hrun hrun' => ?_)
      · obtain ⟨id, hid⟩ := h
        exact (congrArg Progress.isOver hid).trans (Progress.isOver_map ..)
      · obtain ⟨id, hid⟩ := h
        have hstate : s' = s.tagged id := by
          have hmap := hrun'.symm.trans (hid.trans (congrArg _ hrun))
          exact Progress.running.inj hmap
        rw [hstate]
        exact Opening.move_beside id c.request l l' s
    | _ => exact .opening h
  | @working id plan crew crew' hmem hcalls =>
    cases a with
    | opener => exact .working id plan hmem hcalls
    | worker i =>
      -- The two pools differ in nothing but the id in their plans.
      have hself := Pool.turn_beside (fun _ => Worker.move plan)
        (fun _ => Worker.move (plan.tagged id)) crew crew' (i := i)
        (R := fun m c m' c' => m' = m ∧ c' = c) hs.aborted hs'.aborted hcalm
        ⟨hmem, by rw [hcalls]⟩ (by rw [hcalls])
        fun s s' hrun hrun' => by
          have hstate : s' = s :=
            Progress.running.inj (hrun'.symm.trans ((congrFun hcalls i).trans hrun))
          rw [hmem, hstate]
          exact Worker.move_beside id plan crew.mem s
      refine .working id plan hself.1 (funext fun j => ?_)
      by_cases hj : j = i
      · subst hj
        exact hself.2
      · rw [Pool.calls_turn_of_ne _ _ hj, Pool.calls_turn_of_ne _ _ hj, hcalls]
    | closer =>
      have hover : crew'.AllOver ↔ crew.AllOver := by simp only [Pool.AllOver, hcalls]
      by_cases hall : crew.AllOver
      · simp only [Stage.turn, if_pos hall, if_pos (hover.2 hall)]
        exact .closing id plan hmem
      · simp only [Stage.turn, if_neg hall, if_neg (mt hover.1 hall)]
        exact .working id plan hmem hcalls
  | closing id plan hmem => cases a <;> exact .closing id plan hmem

end Stage

namespace Process

variable {κ : Type} {ι : κ → Type} [DecidableEq κ] [∀ k, DecidableEq (ι k)] [∀ k, Fintype (ι k)]
  {c : (k : κ) → Commission (ι k)} {p p' : Process κ ι}
  {turns : List (Turn ((k : κ) × Actor (ι k)) Answer)} {units : List UnitId}

/-- A pass that has the process to itself, if it takes the turns that it takes among the others,
goes through the same places. -/
theorem Sound.alike_run (h : p.Sound host units c) (h' : p'.Sound host units c)
    (hhost : Dependable host units) (hc : ∀ k, (c k).Good) (hturns : ∀ t ∈ turns, t.Returns host)
    {k : κ} (hk : (p.stages k).Alike (p'.stages k)) :
    ((p.run c turns).stages k).Alike
      ((p'.run c (turns.filter fun t => t.caller.1 = k)).stages k) := by
  induction turns generalizing p p' with
  | nil => exact hk
  | cons t rest ih =>
    have ht : t.Returns host := hturns t (by simp)
    have hrest : ∀ u ∈ rest, u.Returns host := fun u hu => hturns u (by simp [hu])
    rw [run_cons]
    by_cases hcaller : t.caller.1 = k
    · subst hcaller
      rw [List.filter_cons_of_pos (by simp), run_cons]
      refine ih (h.turn hhost hc ht) (h'.turn hhost hc ht) hrest ?_
      rw [stages_turn_self c t h.aborted, stages_turn_self c t h'.aborted]
      exact hk.turn (h.stages _) (h'.stages _) ht t.caller.2
    · rw [List.filter_cons_of_neg (by simpa using hcaller)]
      refine ih (h.turn hhost hc ht) h' hrest ?_
      rw [stages_turn_of_ne c t (Ne.symm hcaller)]
      exact hk

end Process

end Pass

end PauseCleanup
