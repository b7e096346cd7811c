import PauseCleanup.Proofs.Pass.Calm
import PauseCleanup.Proofs.Pass.CalmClosing
import PauseCleanup.Proofs.Pass.Recorded
import PauseCleanup.Proofs.NoRescue
import PauseCleanup.Proofs.Process.Basic
/-!
# A process in which nothing goes wrong

If the host keeps to its answers and never panics, a pass comes through all its stages, whatever the
other passes do to the ledger in the meantime.
-/
namespace PauseCleanup

open Host (Query Answer)

theorem Pool.turn_lone {Q Mem State Result : Type} {A : Q → Type} (may : Reply A → Prop)
    (move : Mem → State → Move A Mem State Result) {p : Pool Unit A Mem State Result}
    (ha : p.aborted = none) {answer : (q : Q) → Except Panic (A q)} (ht : ∀ q, may ⟨q, answer q⟩)
    {P : Mem → Progress State Result → Prop}
    (h0 : (p.calls ()).isOver = true → P p.mem (p.calls ()))
    (hstep : ∀ s, p.calls () = .running s →
      (move p.mem s).Ensures may (fun m c _ => P m c) p.mem ∧
        ∀ reason, move p.mem s ≠ .abort reason) :
    let q := p.turn (fun _ => move) ⟨(), answer⟩
    P q.mem (q.calls ()) ∧ q.aborted = none := by
  intro q
  have hmove : ∀ s, p.calls () = .running s →
      (move p.mem s).Ensures may (fun m c _ => P m c) p.mem := fun s hs => (hstep s hs).1
  rcases @Pool.turn_cases _ _ _ _ _ _ _ (fun _ => move) _ _ p ⟨(), answer⟩ ht hmove with
    ⟨he, hmade⟩ | ⟨s, m, c, l, -, hP, he, -⟩ | ⟨s, reason, hs, habort, -⟩
  · rw [show q = p from he]
    exact ⟨h0 (Pool.isOver_of_made_eq_none ha hmade), ha⟩
  · rw [show q = p.after () m c l from he]
    have hcall : (p.after () m c l).calls () = c := by simp [Pool.after]
    rw [hcall]
    exact ⟨hP, ha⟩
  · exact absurd habort ((hstep s hs).2 reason)

theorem Frontier.after_ne_none {next : UnitId → Option UnitId} {here : Option UnitId}
    {units : List UnitId} (h : Unloading.Stable next here units) : Frontier.after here ≠ none := by
  obtain ⟨hchain, -, hsmall⟩ := h
  cases hchain with
  | nil => exact Option.some_ne_none _
  | @cons u us _ =>
    obtain ⟨w, hw, -⟩ := Word.exists_succ? (hsmall u List.mem_cons_self)
    have hword : Frontier.wordOf u = some w := hw
    simp [Frontier.after, hword]

theorem Unloading.Opening.move_returns {host : (q : Query) → Answer q} {units : List UnitId}
    {r : Request} (hworkers : ¬r.workers < 1) (hfirst : Frontier.after (host .firstAlive) ≠ none)
    {s : Opening} (hs : Knows host units r (.running s)) :
    (s.move r).Ensures (returning host) (fun _ c _ => ∀ cause, c ≠ .panicked cause) () := by
  cases s with
  | start =>
    simp only [move, if_neg hworkers]
    intro a ha
    obtain rfl : a = .ok (host .firstAlive) := ha
    exact fun cause h => by cases h
  | found first => exact fun cause h => by cases h
  | count first here counted =>
    cases here with
    | none => exact fun cause h => by cases h
    | some u =>
      intro a ha
      obtain rfl : a = .ok (host (.nextAlive u)) := ha
      exact fun cause h => by cases h
  | build first expected =>
    obtain ⟨rfl, -⟩ := hs
    obtain ⟨f, hf⟩ := Option.ne_none_iff_exists'.1 hfirst
    simp only [move, hf]
    exact fun cause h => by cases h
  | done plan shared => exact fun cause h => by cases h

namespace Pass

/-- A host on which nothing goes wrong, with its units. -/
structure Dependable (host : (q : Query) → Answer q) (units : List UnitId) : Prop where
  units : Unloading.Stable (fun u => host (.nextAlive u)) (host .firstAlive) units
  classes : (host .classSource).Valid
  check : host .checkCode = none

/-- A pass whose buffers fit, and whose workers come with good ids. -/
structure Commission.Good {ι : Type} (c : Commission ι) : Prop where
  fits : c.request.tuning.batch.fitsMemory = true
  inRange : ∀ i, c.ids i < c.request.workers
  zero : ∃ i, c.ids i = 0

variable {host : (q : Query) → Answer q} {units : List UnitId}

namespace Opening

/-- The call has not panicked, and is not about to. -/
def Smooth : Progress Opening (Plan × Shared) → Prop
  | .running (.abandon ..) => False
  | .panicked _ => False
  | _ => True

theorem move_smooth (hhost : Dependable host units) {r : Request} {l : Ledger} {s : Opening}
    (hs : Knows host units r (.running s)) (hsmooth : Smooth (.running s)) :
    (s.move r l).Ensures (returning host) (fun _ c _ => Smooth c) l := by
  cases s with
  | start => exact trivial
  | sweep pass s =>
    cases s with
    | start =>
      intro a ha
      obtain rfl : a = .ok (host .tableEnabled) := ha
      exact trivial
    | prepare =>
      intro a ha
      obtain rfl : a = .ok () := ha
      exact trivial
    | done enabled => exact trivial
  | code pass opened s =>
    have hworkers : ¬(r.unloadingRequest pass).workers < 1 :=
      UInt32.not_lt.2 (r.tuning.one_le_headcount r.machine)
    have hmove := s.move_returns hworkers (Frontier.after_ne_none hhost.units) hs.2
    refine hmove.lift rfl (fun _ _ _ _ => trivial) (fun _ _ => trivial) ?_
    exact fun cause _ h => absurd rfl (h cause)
  | classes pass opened plan shared =>
    intro a ha
    obtain rfl : a = .ok (host .classSource) := ha
    exact trivial
  | built plan shared => exact trivial
  | abandon opened s cause => exact hsmooth.elim
  | done plan shared => exact trivial

theorem smooth_ne_abort {r : Request} {l : Ledger} {s : Opening} (hsmooth : Smooth (.running s))
    (reason : Abort) : s.move r l ≠ .abort reason := by
  intro h
  obtain ⟨⟨opened, cause, rfl⟩, -⟩ := move_eq_abort h
  exact hsmooth

end Opening

namespace Closing

theorem sound_ne_abort {p : Plan} {t : Thread} {o : Occasion} {e : Estate} {s : Closing}
    (hs : Sound (.running s)) (reason : Abort) : s.move p t o e ≠ .abort reason := by
  intro h
  rcases move_eq_abort h with ⟨v, rfl, -⟩ | ⟨raised, rfl, -⟩
  · exact hs
  · exact hs.1 rfl

def Records (numbers : Metrics) : Progress Closing Unit → Prop
  | .running (.record m _) => m = numbers
  | _ => True

theorem move_records (may : Reply Answer → Prop) (p : Plan) (t : Thread) (o : Occasion) (e : Estate)
    {s : Closing} (hs : Records (metrics p e.shared) (.running s)) :
    (s.move p t o e).Ensures may (fun _ c _ => Records (metrics p e.shared) c) e := by
  cases s with
  | start => exact rfl
  | record numbers s => cases s <;> first | exact hs | exact trivial
  | check s =>
    exact (Move.Ensures.any _ _).lift rfl (fun _ _ _ _ => trivial) (fun _ _ => trivial)
      (fun _ _ _ => trivial)
  | sweep s raised =>
    exact (Move.Ensures.any _ ()).lift rfl (fun _ _ _ _ => trivial) (fun _ _ => trivial)
      (fun _ _ _ => trivial)
  | leave raised => exact trivial
  | done raised => cases raised <;> exact trivial

end Closing

variable {ι : Type} [DecidableEq ι]

/-- Workers that have an opened pass to themselves. -/
inductive Manned (host : (q : Query) → Answer q) (units : List UnitId) (c : Commission ι) :
    Plan → Pool ι Answer Shared Worker Unit → Prop
  | mk {plan : Plan} {shared : Shared} (hopened : Opened host units c.request plan shared)
    (turns : List (Turn ι Answer)) (hturns : ∀ t ∈ turns, t.Returns host) :
    Manned host units c plan (work plan shared c.ids turns)

namespace Manned

variable {c : Commission ι} {plan : Plan} {crew : Pool ι Answer Shared Worker Unit}

theorem start {shared : Shared} (h : Opened host units c.request plan shared) :
    Manned host units c plan (Pool.start shared fun i => .start (c.ids i)) :=
  .mk h [] (List.forall_mem_nil _)

theorem turn (h : Manned host units c plan crew) {t : Turn ι Answer} (ht : t.Returns host) :
    Manned host units c plan (crew.turn (fun _ => Worker.move plan) t) := by
  obtain ⟨hopened, turns, hturns⟩ := h
  rw [← Pool.run_nil (fun _ => Worker.move plan) (Pool.turn _ _ t), ← Pool.run_cons, work,
    ← Pool.run_append]
  refine .mk hopened (turns ++ [t]) fun u hu => ?_
  rcases List.mem_append.1 hu with hu | hu
  · exact hturns u hu
  · rwa [List.mem_singleton.1 hu]

theorem aborted (h : Manned host units c plan crew) : crew.aborted = none := by
  obtain ⟨-, turns, -⟩ := h
  exact Pool.aborted_run (fun _ _ _ => (Worker.plain plan _ _).ne_abort) _ rfl turns

variable [Fintype ι]

theorem checked (h : Manned host units c plan crew) (hhost : Dependable host units) (hc : c.Good)
    (hover : crew.AllOver) :
    Unloading.checkCount plan.code.expected crew.mem.code.unloaded = none := by
  obtain ⟨hopened, turns, hturns⟩ := h
  have hfinished := finished hhost.units hhost.classes hc.fits hopened hc.inRange hc.zero hturns
    hover
  exact (checked_of_log hopened hfinished.replies hfinished.asked (hfinished.counted hopened)).2

end Manned

namespace Stage

/-- How a pass stands in a process in which nothing goes wrong. -/
def Sound (host : (q : Query) → Answer q) (units : List UnitId) (c : Commission ι) :
    Stage ι → Prop
  | .opening call => call.aborted = none ∧
    Opening.Knows host units c.request (call.calls ()) ∧ Opening.Smooth (call.calls ())
  | .working plan crew => Manned host units c plan crew
  | .closing plan crew call => Manned host units c plan crew ∧ crew.AllOver ∧
    call.aborted = none ∧ call.mem.shared = crew.mem ∧ Closing.Sound (call.calls ()) ∧
      Closing.Records (metrics plan crew.mem) (call.calls ())

variable {c : Commission ι} {l : Ledger} {answer : (q : Query) → Except Panic (Answer q)}

theorem sound_opened {call : Pool Unit Answer Ledger Opening (Plan × Shared)}
    (h : Sound host units c (.opening call)) : Sound host units c (opened c call) := by
  unfold opened
  split
  · next plan shared hcall =>
    have hknows := h.2.1
    rw [hcall] at hknows
    exact Manned.start hknows
  · exact h

theorem opener_keeps (hcalm : ∀ q, answer q = .ok (host q))
    {call : Pool Unit Answer Ledger Opening (Plan × Shared)}
    (h : Sound host units c (.opening call))
    {P : Ledger → Progress Opening (Plan × Shared) → Prop}
    (h0 : (call.calls ()).isOver = true → P l (call.calls ()))
    (hstep : ∀ s, call.calls () = .running s → Opening.Knows host units c.request (.running s) →
      Opening.Smooth (.running s) →
      (s.move c.request l).Ensures (returning host) (fun l' c' _ => P l' c') l) :
    let next := { call with mem := l }.turn (fun _ => Opening.move c.request) ⟨(), answer⟩
    P next.mem (next.calls ()) ∧ next.aborted = none := by
  obtain ⟨ha, hknows, hsmooth⟩ := h
  refine Pool.turn_lone (returning host) _ (p := { call with mem := l }) ha hcalm h0 fun s hs => ?_
  have hcall : call.calls () = .running s := hs
  rw [hcall] at hknows hsmooth
  exact ⟨hstep s hcall hknows hsmooth, Opening.smooth_ne_abort hsmooth⟩

theorem opener_turn (hhost : Dependable host units) (hcalm : ∀ q, answer q = .ok (host q))
    {call : Pool Unit Answer Ledger Opening (Plan × Shared)}
    (h : Sound host units c (.opening call)) :
    let next := { call with mem := l }.turn (fun _ => Opening.move c.request) ⟨(), answer⟩
    Sound host units c (.opening next) ∧ next.aborted = none := by
  intro next
  have hturn : (Opening.Knows host units c.request (next.calls ()) ∧
      Opening.Smooth (next.calls ())) ∧ next.aborted = none :=
    opener_keeps hcalm h
      (P := fun _ c' => Opening.Knows host units c.request c' ∧ Opening.Smooth c')
      (fun _ => h.2) fun s _ hknows hsmooth =>
        (Opening.move_ensures (steady_returning host) hhost.units.chain hknows).and
          (Opening.move_smooth hhost hknows hsmooth)
  exact ⟨⟨hturn.2, hturn.1⟩, hturn.2⟩

theorem closer_keeps (hcalm : ∀ q, answer q = .ok (host q)) {plan : Plan}
    {crew : Pool ι Answer Shared Worker Unit} {call : Pool Unit Answer Estate Closing Unit}
    (h : Sound host units c (.closing plan crew call)) {P : Estate → Progress Closing Unit → Prop}
    (h0 : (call.calls ()).isOver = true → P ⟨crew.mem, l⟩ (call.calls ()))
    (hstep : ∀ s : Closing, call.calls () = .running s → Closing.Sound (.running s) →
      Closing.Records (metrics plan crew.mem) (.running s) →
      (s.move plan c.thread .calm ⟨crew.mem, l⟩).Ensures (returning host) (fun e c' _ => P e c')
        ⟨crew.mem, l⟩) :
    let next := { call with mem.ledger := l }.turn
      (fun _ e (s : Closing) => s.move plan c.thread .calm e) ⟨(), answer⟩
    P next.mem (next.calls ()) ∧ next.aborted = none := by
  obtain ⟨-, -, ha, hshared, hsound, hrecords⟩ := h
  rw [← hshared] at h0 hstep
  refine Pool.turn_lone (returning host) _ (p := { call with mem.ledger := l }) ha hcalm h0
    fun s hs => ?_
  have hcall : call.calls () = .running s := hs
  rw [hcall] at hsound hrecords
  exact ⟨hstep s hcall hsound (hshared ▸ hrecords), Closing.sound_ne_abort hsound⟩

variable [Fintype ι]

theorem closer_turn (hhost : Dependable host units) (hc : c.Good)
    (hcalm : ∀ q, answer q = .ok (host q)) {plan : Plan} {crew : Pool ι Answer Shared Worker Unit}
    {call : Pool Unit Answer Estate Closing Unit}
    (h : Sound host units c (.closing plan crew call)) :
    let next := { call with mem.ledger := l }.turn
      (fun _ e s => s.move plan c.thread .calm e) ⟨(), answer⟩
    Sound host units c (.closing plan crew next) ∧ next.aborted = none := by
  intro next
  have hcheck := h.1.checked hhost hc h.2.1
  have hturn : (next.mem.shared = crew.mem ∧ Closing.Sound (next.calls ()) ∧
      Closing.Records (metrics plan crew.mem) (next.calls ())) ∧ next.aborted = none := by
    refine closer_keeps hcalm h (P := fun e c' => e.shared = crew.mem ∧ Closing.Sound c' ∧
      Closing.Records (metrics plan crew.mem) c') (fun _ => ⟨rfl, h.2.2.2.2⟩)
      fun s _ hsound hrecords => ?_
    have hmove := (Closing.move_sound (e := ⟨crew.mem, l⟩) hcheck hhost.check c.thread hsound).and
      (Closing.move_records (returning host) plan c.thread .calm ⟨crew.mem, l⟩ hrecords)
    exact hmove.mono fun e c' _ h => ⟨h.1.1, h.1.2, h.2⟩
  exact ⟨⟨h.1, h.2.1, hturn.2, hturn.1⟩, hturn.2⟩

theorem sound_turn (hhost : Dependable host units) (hc : c.Good)
    (hcalm : ∀ q, answer q = .ok (host q)) (a : Actor ι) {s : Stage ι} (h : Sound host units c s) :
    Sound host units c (s.turn c l a answer).stage ∧ (s.turn c l a answer).aborted = none := by
  cases s with
  | opening call =>
    cases a with
    | opener =>
      obtain ⟨hnext, ha⟩ := opener_turn hhost hcalm h
      exact ⟨sound_opened hnext, ha⟩
    | _ => exact ⟨h, rfl⟩
  | working plan crew =>
    cases a with
    | opener => exact ⟨h, rfl⟩
    | worker i =>
      have hnext := Manned.turn h (t := ⟨i, answer⟩) hcalm
      exact ⟨hnext, hnext.aborted⟩
    | closer =>
      simp only [turn]
      split
      · next hover => exact ⟨⟨h, hover, rfl, rfl, trivial, trivial⟩, rfl⟩
      · exact ⟨h, rfl⟩
  | closing plan crew call =>
    cases a with
    | closer => exact closer_turn hhost hc hcalm h
    | _ => exact ⟨h, rfl⟩

end Stage

namespace Process

variable {κ : Type} {ι : κ → Type} [DecidableEq κ] [∀ k, DecidableEq (ι k)] [∀ k, Fintype (ι k)]

/-- Nothing has gone wrong so far. -/
structure Sound (host : (q : Query) → Answer q) (units : List UnitId)
    (c : (k : κ) → Commission (ι k)) (p : Process κ ι) : Prop where
  aborted : p.aborted = none
  stages : ∀ k, (p.stages k).Sound host units (c k)

variable {c : (k : κ) → Commission (ι k)} {p : Process κ ι}
  {turns : List (Turn ((k : κ) × Actor (ι k)) Answer)}

omit [DecidableEq κ] [∀ k, Fintype (ι k)] in
theorem sound_start (l : Ledger) : (start l : Process κ ι).Sound host units c :=
  ⟨rfl, fun _ => ⟨rfl, trivial, trivial⟩⟩

theorem Sound.turn (h : p.Sound host units c) (hhost : Dependable host units)
    (hc : ∀ k, (c k).Good) {t : Turn ((k : κ) × Actor (ι k)) Answer} (ht : t.Returns host) :
    (p.turn c t).Sound host units c := by
  have hout := Stage.sound_turn (l := p.ledger) hhost (hc t.caller.1) ht t.caller.2
    (h.stages t.caller.1)
  refine ⟨?_, fun k => ?_⟩
  · rw [turn_eq c t h.aborted]
    exact hout.2
  · by_cases hk : k = t.caller.1
    · subst hk
      rw [stages_turn_self c t h.aborted]
      exact hout.1
    · rw [stages_turn_of_ne c t hk]
      exact h.stages k

theorem Sound.run (h : p.Sound host units c) (hhost : Dependable host units)
    (hc : ∀ k, (c k).Good) (hturns : ∀ t ∈ turns, t.Returns host) :
    (p.run c turns).Sound host units c :=
  p.run_induction c h fun _ hq t ht => hq.turn hhost hc (hturns t ht)

/-- What every turn of a sound process keeps, every interleaving keeps. -/
theorem Sound.run_keeps {P : Process κ ι → Prop} (h : p.Sound host units c)
    (hhost : Dependable host units) (hc : ∀ k, (c k).Good) (hturns : ∀ t ∈ turns, t.Returns host)
    (h0 : P p)
    (step : ∀ q : Process κ ι, q.Sound host units c → P q → ∀ t ∈ turns, P (q.turn c t)) :
    P (p.run c turns) :=
  (p.run_induction c (P := fun q => P q ∧ q.Sound host units c) ⟨h0, h⟩ fun q hq t ht =>
    ⟨step q hq.2 hq.1 t ht, hq.2.turn hhost hc (hturns t ht)⟩).1

end Process

end Pass

end PauseCleanup
