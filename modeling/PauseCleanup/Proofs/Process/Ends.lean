import PauseCleanup.Proofs.Crew.Ends
import PauseCleanup.Proofs.Descents
import PauseCleanup.Proofs.Process.Sound
import Mathlib.Data.Fintype.Order
/-!
# Every pass comes to its end

Each turn of a pass that does anything brings it nearer to its end, whatever the others do, and
there is always an actor whose next turn does.
-/
namespace PauseCleanup

open Host (Query Answer)

variable {host : (q : Query) → Answer q} {units : List UnitId}

def Progress.toGo {State Result : Type} (rank : State → ℕ) : Progress State Result → ℕ
  | .running s => rank s + 1
  | _ => 0

namespace TableSweep.Opening

def rank : Opening → ℕ
  | .start => 2
  | .prepare => 1
  | .done _ => 0

theorem rank_step (may : Reply Answer → Prop) (resize keeps : Bool) (s : Opening) :
    (s.move resize keeps).Ensures may (Pool.Below rank s.rank) () := by
  cases s with
  | start =>
    rintro (cause | enabled) _ s' ⟨⟩
    cases enabled <;> decide
  | prepare =>
    rintro (cause | a) _ s' ⟨⟩
    exact Nat.one_pos
  | done enabled => rintro s' ⟨⟩

end TableSweep.Opening

namespace Unloading.Opening

/-- A sequence of `n` units may have to be counted. -/
def rank (n : ℕ) : Opening → ℕ
  | .start => n + 4
  | .found _ => n + 3
  | .count _ _ counted => n - counted + 2
  | .build _ _ => 1
  | .done _ _ => 0

theorem rank_step (may : Reply Answer → Prop) {r : Request} {s : Opening}
    (hs : Knows host units r (.running s)) :
    (s.move r).Ensures may (Pool.Below (rank units.length) (rank units.length s)) () := by
  cases s with
  | start =>
    simp only [move]
    split
    · rintro s' ⟨⟩
    · rintro (cause | first) _ s' ⟨⟩
      exact Nat.lt_succ_self _
  | found first =>
    rintro s' ⟨⟩
    split <;> simp [rank]
  | count first here counted =>
    obtain ⟨-, -, past, rest, hunits, hrest, rfl⟩ := hs
    cases hrest with
    | nil =>
      rintro s' ⟨⟩
      simp [rank]
    | @cons u us _ =>
      rintro (cause | here) _ s' ⟨⟩
      simp only [rank, hunits, List.length_append, List.length_cons]
      omega
  | build first expected =>
    simp only [move]
    split <;> rintro s' ⟨⟩
    exact Nat.one_pos
  | done plan shared => rintro s' ⟨⟩

end Unloading.Opening

namespace Pass

namespace Opening

def rank (n : ℕ) : Opening → ℕ
  | .start => n + 13
  | .sweep _ s => n + 10 + s.rank
  | .code _ _ s => 4 + s.rank n
  | .classes .. => 3
  | .built .. => 2
  | .done .. => 1
  | .abandon .. => 0

theorem rank_step (may : Reply Answer → Prop) {r : Request} {l : Ledger} {s : Opening}
    (hs : Knows host units r (.running s)) (hsmooth : Smooth (.running s)) :
    (s.move r l).Ensures may (Pool.Below (rank units.length) (rank units.length s)) l := by
  cases s with
  | start =>
    rintro s' ⟨⟩
    exact Nat.lt_succ_self _
  | sweep pass s =>
    refine Pool.Below.lift (s.rank_step may r.tuning.resize false) rfl
      (fun _ h => Nat.add_lt_add_left h _) ?_ (by simp)
    rintro opened s' ⟨⟩
    simp only [rank, Unloading.Opening.rank]
    omega
  | code pass opened s =>
    refine Pool.Below.lift (s.rank_step may hs.2) rfl (fun _ h => Nat.add_lt_add_left h _) ?_ ?_
    · rintro o s' ⟨⟩
      simp only [rank]
      omega
    · rintro _ ⟨⟩ cause
      simp only [rank]
      omega
  | classes pass opened plan shared =>
    rintro (cause | source) _ s' ⟨⟩
    · exact Nat.succ_pos _
    · exact Nat.lt_succ_self _
  | built plan shared =>
    rintro s' ⟨⟩
    exact Nat.lt_succ_self _
  | abandon opened s cause => exact hsmooth.elim
  | done plan shared => rintro s' ⟨⟩

end Opening

namespace Stage

variable {ι : Type}

def Closed : Stage ι → Prop
  | .closing _ _ call => call.calls () = .returned ()
  | _ => False

variable [DecidableEq ι] [Fintype ι]

/-- How far a pass is from its end: its stage first, then how far it is in it. -/
def height (units : List UnitId) : Stage ι → ℕ ×ₗ (ℕ ×ₗ ℕ)
  | .opening call => toLex (2, toLex (0, (call.calls ()).toGo (Opening.rank units.length)))
  | .working plan crew => toLex (1, (Worker.descent units plan).height crew 0)
  | .closing _ _ call => toLex (0, toLex (0, (call.calls ()).toGo Closing.rank))

variable {c : Commission ι} {l : Ledger} {answer : (q : Query) → Except Panic (Answer q)}

theorem opener_down (hhost : Dependable host units) (hcalm : ∀ q, answer q = .ok (host q))
    {call : Pool Unit Answer Ledger Opening (Plan × Shared)}
    (h : Sound host units c (.opening call)) :
    ((Stage.opening call : Stage ι).turn c l .opener answer).stage.height units <
      (Stage.opening call : Stage ι).height units := by
  have hsmooth := (opener_turn (l := l) hhost hcalm h).1.2.2
  have hrank := (opener_keeps (l := l) hcalm h (P := fun _ c' => ∀ s', c' = .running s' →
    Opening.rank units.length s' + 1 < (call.calls ()).toGo (Opening.rank units.length)) ?_ ?_).1
  · show (opened c _).height units < _
    generalize Pool.turn (fun _ => Opening.move c.request) { call with mem := l } ⟨(), answer⟩ =
      next at hsmooth hrank ⊢
    unfold opened
    cases hnext : next.calls () with
    | running s' =>
      refine Prod.Lex.toLex_lt_toLex.2 (.inr ⟨rfl, Prod.Lex.toLex_lt_toLex.2 (.inr ⟨rfl, ?_⟩)⟩)
      rw [hnext]
      exact hrank s' hnext
    | returned o => exact Prod.Lex.toLex_lt_toLex.2 (.inl Nat.one_lt_two)
    | panicked cause =>
      rw [hnext] at hsmooth
      exact hsmooth.elim
  · intro hover s' hs'
    rw [hs'] at hover
    cases hover
  · intro s hcall hknows hsmooth
    rw [hcall]
    exact (Opening.rank_step (returning host) hknows hsmooth).mono fun _ _ _ hlt s' hs' =>
      Nat.succ_lt_succ (hlt s' hs')

theorem closer_down (hcalm : ∀ q, answer q = .ok (host q)) {plan : Plan}
    {crew : Pool ι Answer Shared Worker Unit} {call : Pool Unit Answer Estate Closing Unit}
    (h : Sound host units c (.closing plan crew call))
    (hclosed : ¬(Stage.closing plan crew call).Closed) :
    ((Stage.closing plan crew call).turn c l .closer answer).stage.height units <
      (Stage.closing plan crew call).height units := by
  have hrank := (closer_keeps (l := l) hcalm h (P := fun _ c' =>
    c'.toGo Closing.rank < (call.calls ()).toGo Closing.rank) ?_ ?_).1
  · exact Prod.Lex.toLex_lt_toLex.2 (.inr ⟨rfl, Prod.Lex.toLex_lt_toLex.2 (.inr ⟨rfl, hrank⟩)⟩)
  · intro hover
    have hsound := h.2.2.2.2.1
    cases hcall : call.calls () with
    | running s =>
      rw [hcall] at hover
      cases hover
    | returned => exact absurd hcall hclosed
    | panicked cause =>
      rw [hcall] at hsound
      exact hsound.elim
  · intro s hcall _ _
    rw [hcall]
    refine (Closing.rank_step plan c.thread .calm ⟨crew.mem, l⟩ s).of_any.mono
      fun _ c' _ hlt => ?_
    cases c' with
    | running s' => exact Nat.succ_lt_succ (hlt s' rfl)
    | _ => exact Nat.succ_pos _

theorem worker_down (hhost : Dependable host units) (hcalm : ∀ q, answer q = .ok (host q))
    {plan : Plan} {crew : Pool ι Answer Shared Worker Unit} (h : Manned host units c plan crew)
    {i : ι} {s : Worker} (hs : crew.calls i = .running s) :
    ((Stage.working plan crew).turn c l (.worker i) answer).stage.height units <
      (Stage.working plan crew).height units := by
  have haborted := h.aborted
  obtain ⟨hopened, turns, hturns⟩ := h
  have hholds := holds_work hhost.units hhost.classes hopened c.ids hturns
  have hsuits : (Worker.descent units plan).Suits
      (outline (steady_returning host) hhost.units.chain plan c.ids) :=
    fun _ _ _ _ hs => Worker.descends hs
  have hturn := hsuits.turn_lt (t := ⟨i, answer⟩) hholds hcalm haborted hs 0
  exact Prod.Lex.toLex_lt_toLex.2 (.inr ⟨rfl, hturn.2⟩)

/-- A turn does nothing, or brings the pass nearer to its end. -/
theorem Sound.turn_down {s : Stage ι} (h : s.Sound host units c) (hhost : Dependable host units)
    (hcalm : ∀ q, answer q = .ok (host q)) (hclosed : ¬s.Closed) (a : Actor ι) :
    (s.turn c l a answer).stage = s ∨
      (s.turn c l a answer).stage.height units < s.height units := by
  cases s with
  | opening call =>
    cases a with
    | opener => exact .inr (opener_down hhost hcalm h)
    | _ => exact .inl rfl
  | working plan crew =>
    cases a with
    | opener => exact .inl rfl
    | worker i =>
      cases hs : crew.calls i with
      | running s => exact .inr (worker_down hhost hcalm h hs)
      | _ =>
        left
        simp only [turn]
        rw [Pool.turn_of_over _ crew (t := ⟨i, answer⟩) (by rw [hs]; rfl)]
    | closer =>
      simp only [turn]
      split
      · exact .inr (Prod.Lex.toLex_lt_toLex.2 (.inl Nat.one_pos))
      · exact .inl rfl
  | closing plan crew call =>
    cases a with
    | closer => exact .inr (closer_down hcalm h hclosed)
    | _ => exact .inl rfl

/-- As long as a pass is not closed, there is somebody whose next turn brings it nearer to that. -/
theorem Sound.exists_mover {s : Stage ι} (h : s.Sound host units c) (hhost : Dependable host units)
    (hclosed : ¬s.Closed) : ∃ a, ∀ (l : Ledger) (answer : (q : Query) → Except Panic (Answer q)),
      (∀ q, answer q = .ok (host q)) →
        (s.turn c l a answer).stage.height units < s.height units := by
  cases s with
  | opening call => exact ⟨.opener, fun l answer hcalm => opener_down hhost hcalm h⟩
  | working plan crew =>
    by_cases hall : crew.AllOver
    · refine ⟨.closer, fun l answer _ => ?_⟩
      simp only [turn, if_pos hall]
      exact Prod.Lex.toLex_lt_toLex.2 (.inl Nat.one_pos)
    · obtain ⟨i, hi⟩ := not_forall.1 hall
      cases hs : crew.calls i with
      | running s => exact ⟨.worker i, fun l answer hcalm => worker_down hhost hcalm h hs⟩
      | _ =>
        rw [hs] at hi
        exact absurd rfl hi
  | closing plan crew call => exact ⟨.closer, fun l answer hcalm => closer_down hcalm h hclosed⟩

theorem Closed.turn {s : Stage ι} (h : s.Closed) (a : Actor ι) :
    (s.turn c l a answer).stage.Closed := by
  cases s with
  | closing plan crew call =>
    cases a with
    | closer =>
      have hcall : call.calls () = .returned () := h
      simp only [Stage.turn]
      rw [Pool.turn_of_over _ _ (t := ⟨(), answer⟩) (by simp [hcall, Progress.isOver])]
      exact h
    | _ => exact h
  | _ => exact h.elim

end Stage

namespace Process

variable {κ : Type} {ι : κ → Type}

def upTo (schedule : ℕ → Turn ((k : κ) × Actor (ι k)) Answer) (n : ℕ) :
    List (Turn ((k : κ) × Actor (ι k)) Answer) :=
  (List.range n).map schedule

/-- Every actor of every pass gets a turn again and again. -/
def Fair (schedule : ℕ → Turn ((k : κ) × Actor (ι k)) Answer) : Prop :=
  ∀ who n, ∃ m, n ≤ m ∧ (schedule m).caller = who

def inTurn (host : (q : Query) → Answer q) (first : (k : κ) × Actor (ι k))
    (rest : List ((k : κ) × Actor (ι k))) (n : ℕ) : Turn ((k : κ) × Actor (ι k)) Answer where
  caller := (first :: rest).get ⟨n % (rest.length + 1), Nat.mod_lt n (Nat.succ_pos _)⟩
  answer q := .ok (host q)

theorem fair_inTurn (host : (q : Query) → Answer q) {first : (k : κ) × Actor (ι k)}
    {rest : List ((k : κ) × Actor (ι k))} (hall : ∀ who, who ∈ first :: rest) :
    Fair (inTurn host first rest) := by
  intro who n
  obtain ⟨i, hi, hwho⟩ := List.getElem_of_mem (hall who)
  have hle : n ≤ (rest.length + 1) * n := Nat.le_mul_of_pos_left n (Nat.succ_pos _)
  have hmod : ((rest.length + 1) * n + i) % (rest.length + 1) = i := by
    rw [Nat.mul_add_mod]
    exact Nat.mod_eq_of_lt hi
  refine ⟨(rest.length + 1) * n + i, by omega, ?_⟩
  simp only [inTurn, hmod, List.get_eq_getElem, hwho]

variable [DecidableEq κ] [∀ k, DecidableEq (ι k)] [∀ k, Fintype (ι k)]
  {c : (k : κ) → Commission (ι k)} {p : Process κ ι}
  {schedule : ℕ → Turn ((k : κ) × Actor (ι k)) Answer}

theorem run_upTo_succ (c : (k : κ) → Commission (ι k)) (p : Process κ ι)
    (schedule : ℕ → Turn ((k : κ) × Actor (ι k)) Answer) (n : ℕ) :
    p.run c (upTo schedule (n + 1)) = (p.run c (upTo schedule n)).turn c (schedule n) := by
  rw [upTo, List.range_succ, List.map_append, run_append]
  rfl

theorem closed_turn {k : κ} (h : (p.stages k).Closed)
    (t : Turn ((k : κ) × Actor (ι k)) Answer) : ((p.turn c t).stages k).Closed := by
  cases ha : p.aborted with
  | some reason =>
    simp only [turn, ha]
    exact h
  | none =>
    by_cases hk : k = t.caller.1
    · subst hk
      rw [stages_turn_self c t ha]
      exact h.turn t.caller.2
    · rwa [stages_turn_of_ne c t hk]

theorem closed_later {k : κ} {m n : ℕ} (hle : m ≤ n)
    (h : ((p.run c (upTo schedule m)).stages k).Closed) :
    ((p.run c (upTo schedule n)).stages k).Closed := by
  induction hle with
  | refl => exact h
  | step _ ih =>
    rw [run_upTo_succ]
    exact closed_turn ih _

/-- In a fair schedule every pass is closed in the end. -/
theorem Sound.closed (h : p.Sound host units c) (hhost : Dependable host units)
    (hc : ∀ k, (c k).Good) (hturns : ∀ n, (schedule n).Returns host) (hfair : Fair schedule)
    (k : κ) : ∃ n, ((p.run c (upTo schedule n)).stages k).Closed := by
  by_contra hnever
  let state : ℕ → Process κ ι := fun n => p.run c (upTo schedule n)
  have hclosed : ∀ n, ¬((state n).stages k).Closed := fun n hn => hnever ⟨n, hn⟩
  have hsound : ∀ n, (state n).Sound host units c := fun n => h.run hhost hc fun t ht => by
    obtain ⟨m, -, rfl⟩ := List.mem_map.1 ht
    exact hturns m
  have hself : ∀ n, (schedule n).caller.1 = k → ∃ a, (schedule n).caller = ⟨k, a⟩ := by
    rintro n rfl
    exact ⟨_, rfl⟩
  have hnext : ∀ n a, (schedule n).caller = ⟨k, a⟩ → (state (n + 1)).stages k =
      (((state n).stages k).turn (c k) (state n).ledger a (schedule n).answer).stage := by
    intro n a hcaller
    show (p.run c _).stages k = _
    rw [run_upTo_succ]
    generalize schedule n = t at hcaller
    obtain ⟨caller, answer⟩ := t
    obtain rfl : caller = ⟨k, a⟩ := hcaller
    exact stages_turn_self c _ (hsound n).aborted
  refine (exists_ended_of_fair (fun n => (state n).stages k) (fun n => (schedule n).caller)
    (Stage.height units) (fun _ => False) (fun n => ?_) fun n _ => ?_).elim fun _ => id
  · by_cases hk : (schedule n).caller.1 = k
    · obtain ⟨a, ha⟩ := hself n hk
      rw [hnext n a ha]
      exact ((hsound n).stages k).turn_down hhost (hturns n) (hclosed n) a
    -- A turn of another pass leaves this one as it is.
    · left
      show (p.run c _).stages k = _
      rw [run_upTo_succ, stages_turn_of_ne c _ (Ne.symm hk)]
  · obtain ⟨a, hlower⟩ := ((hsound n).stages k).exists_mover hhost (hclosed n)
    refine ⟨⟨k, a⟩, fun m hsame hmover => ?_, hfair ⟨k, a⟩ n⟩
    rw [hnext m a hmover, hsame]
    exact hlower _ _ (hturns m)

theorem Sound.all_closed [Finite κ] (h : p.Sound host units c) (hhost : Dependable host units)
    (hc : ∀ k, (c k).Good) (hturns : ∀ n, (schedule n).Returns host) (hfair : Fair schedule) :
    ∃ n, ∀ k, ((p.run c (upTo schedule n)).stages k).Closed := by
  choose time htime using h.closed hhost hc hturns hfair
  obtain ⟨n, hn⟩ := Finite.exists_le time
  exact ⟨n, fun k => closed_later (hn k) (htime k)⟩

end Process

end Pass

end PauseCleanup
