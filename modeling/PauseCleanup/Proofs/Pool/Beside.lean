import PauseCleanup.Proofs.Pool.Ensures
/-!
# Two calls side by side

Two calls on two memories move at the same time, and to both the host gives the same answers.
`Move.Beside` says that their moves are of the same kind and lead to related places.
-/
namespace PauseCleanup

variable {ι Q Mem Mem' State State' Result Result' : Type} {A : Q → Type}

/-- The same place, with states and results told in another way. -/
def Progress.map (f : State → State') (g : Result → Result') :
    Progress State Result → Progress State' Result'
  | .running s => .running (f s)
  | .returned r => .returned (g r)
  | .panicked cause => .panicked cause

theorem Progress.isOver_map (f : State → State') (g : Result → Result')
    (c : Progress State Result) : (c.map f g).isOver = c.isOver := by
  cases c <;> rfl

namespace Move

def Beside (host : (q : Q) → A q)
    (R : Mem → Progress State Result → Mem' → Progress State' Result' → Prop) (mem : Mem)
    (mem' : Mem') : Move A Mem State Result → Move A Mem' State' Result' → Prop
  | .access m s _, .access m' s' _ => R m (.running s) m' (.running s')
  | .ask q resume _, .ask q' resume' _ =>
    R mem (.running (resume (host q))) mem' (.running (resume' (host q')))
  | .finish r, .finish r' => R mem (.returned r) mem' (.returned r')
  | .fail cause, .fail cause' => R mem (.panicked cause) mem' (.panicked cause')
  | .abort reason, .abort reason' => reason = reason'
  | _, _ => False

variable {host : (q : Q) → A q}

theorem Beside.refl (mem : Mem) (mv : Move A Mem State Result) :
    mv.Beside host (fun m c m' c' => m' = m ∧ c' = c) mem mem mv := by
  cases mv <;> first | exact ⟨rfl, rfl⟩ | exact rfl

/-- Two calls that go side by side do so inside other ones that take over side by side. -/
theorem Beside.lift {Sub Sub' SubState SubState' SubResult SubResult' : Type}
    {R : Mem → Progress State Result → Mem' → Progress State' Result' → Prop}
    {I : Sub → Progress SubState SubResult → Sub' → Progress SubState' SubResult' → Prop}
    {inner : Move A Sub SubState SubResult} {inner' : Move A Sub' SubState' SubResult'} {sub : Sub}
    {sub' : Sub'} {mem : Mem} {mem' : Mem'} (h : inner.Beside host I sub sub' inner')
    {put : Sub → Mem} {put' : Sub' → Mem'}
    (hput : put sub = mem) (hput' : put' sub' = mem') {wrap : SubState → State}
    {wrap' : SubState' → State'} {finished : SubResult → Move A Mem State Result}
    {finished' : SubResult' → Move A Mem' State' Result'} {rescue : Option (Panic → State)}
    {rescue' : Option (Panic → State')}
    (hrun : ∀ m s m' s', I m (.running s) m' (.running s') →
      R (put m) (.running (wrap s)) (put' m') (.running (wrap' s')))
    (hreturn : ∀ r r', I sub (.returned r) sub' (.returned r') →
      (finished r).Beside host R mem mem' (finished' r'))
    (hrescue : rescue.isSome = rescue'.isSome)
    (hpanic : ∀ cause cause', I sub (.panicked cause) sub' (.panicked cause') →
      R mem (rescued rescue cause) mem' (rescued rescue' cause')) :
    (inner.lift mem put wrap finished rescue).Beside host R mem mem'
      (inner'.lift mem' put' wrap' finished' rescue') := by
  subst hput hput'
  cases inner <;> cases inner'
  case access.access m s n m' s' n' => exact hrun _ _ _ _ h
  case ask.ask q resume own q' resume' own' => exact hrun _ _ _ _ h
  case finish.finish r r' => exact hreturn r r' h
  case fail.fail cause cause' =>
    cases rescue <;> cases rescue'
    · exact hpanic cause cause' h
    · cases hrescue
    · cases hrescue
    · exact hpanic cause cause' h
  case abort.abort reason reason' => exact h
  all_goals exact h.elim

end Move

namespace Pool

variable [DecidableEq ι] (move : ι → Mem → State → Move A Mem State Result)
  (move' : ι → Mem' → State' → Move A Mem' State' Result') {host : (q : Q) → A q}
  {R : Mem → Progress State Result → Mem' → Progress State' Result' → Prop}

theorem turn_beside (p : Pool ι A Mem State Result) (p' : Pool ι A Mem' State' Result')
    (ha : p.aborted = none) (ha' : p'.aborted = none) {answer : (q : Q) → Except Panic (A q)}
    (hcalm : ∀ q, answer q = .ok (host q)) {i : ι} (h : R p.mem (p.calls i) p'.mem (p'.calls i))
    (hover : (p'.calls i).isOver = (p.calls i).isOver)
    (hmove : ∀ s s', p.calls i = .running s → p'.calls i = .running s' →
      (move i p.mem s).Beside host R p.mem p'.mem (move' i p'.mem s')) :
    R (p.turn move ⟨i, answer⟩).mem ((p.turn move ⟨i, answer⟩).calls i)
      (p'.turn move' ⟨i, answer⟩).mem ((p'.turn move' ⟨i, answer⟩).calls i) := by
  by_cases hc : (p.calls i).isOver = true
  · rw [turn_of_over move p (t := ⟨i, answer⟩) hc,
      turn_of_over move' p' (t := ⟨i, answer⟩) (hover.trans hc)]
    exact h
  · cases hs : p.calls i with
    | running s =>
      cases hs' : p'.calls i with
      | running s' =>
        have hbeside := hmove s s' hs hs'
        rw [turn_of_running move p (t := ⟨i, answer⟩) ha hs,
          turn_of_running move' p' (t := ⟨i, answer⟩) ha' hs']
        rw [hs, hs'] at h
        cases hm : move i p.mem s <;> cases hm' : move' i p'.mem s' <;> rw [hm, hm'] at hbeside
        case access.access => simpa [apply, put, Move.Beside] using hbeside
        case ask.ask => simpa [apply, put, hcalm, resumed, Move.Beside] using hbeside
        case finish.finish => simpa [apply, put, Move.Beside] using hbeside
        case fail.fail => simpa [apply, put, Move.Beside] using hbeside
        case abort.abort => simpa [apply, hs, hs'] using h
        -- Two moves of different kinds are not beside one another.
        all_goals exact hbeside.elim
      | _ =>
        rw [hs, hs'] at hover
        cases hover
    | _ =>
      rw [hs] at hc
      exact absurd rfl hc

end Pool

end PauseCleanup
