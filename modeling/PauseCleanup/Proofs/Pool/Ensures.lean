import PauseCleanup.Pool
/-!
# What a move ensures

`Move.Ensures may P mem` says of a move on the memory `mem`: whatever the host answers, as long as
`may` allows it, `P` holds after it. It passes through `Move.lift` and to turns of a pool.
-/
namespace PauseCleanup

abbrev Reply {Q : Type} (A : Q → Type) := (q : Q) × Except Panic (A q)

section

variable {ι Q : Type} {A : Q → Type} {Sub SubState SubResult Mem State Result : Type}

def Asked.toReply (e : Asked ι A) : Reply A := ⟨e.question, e.reply⟩

def Turn.Within (may : Reply A → Prop) (t : Turn ι A) : Prop := ∀ q, may ⟨q, t.answer q⟩

theorem Turn.within_true (turns : List (Turn ι A)) : ∀ t ∈ turns, t.Within fun _ => True :=
  fun _ _ _ => trivial

/-- The replies of a host that answers as it always does. -/
def returning (host : (q : Q) → A q) (r : Reply A) : Prop := r.2 = .ok (host r.1)

/-- The replies of a host that answers as it always does, or panics. -/
def agreeing (host : (q : Q) → A q) (r : Reply A) : Prop :=
  r.2 = .ok (host r.1) ∨ ∃ cause, r.2 = .error cause

/-- A host that is allowed only one answer to each question, panics apart. -/
def Steady (host : (q : Q) → A q) (may : Reply A → Prop) : Prop :=
  ∀ q a, may ⟨q, .ok a⟩ → a = host q

def MayPanic (may : Reply A → Prop) : Prop := ∃ q cause, may ⟨q, .error cause⟩

theorem steady_returning (host : (q : Q) → A q) : Steady host (returning host) := by
  intro q a h
  exact Except.ok.inj h

theorem steady_agreeing (host : (q : Q) → A q) : Steady host (agreeing host) := by
  rintro q a (h | ⟨cause, h⟩)
  · exact Except.ok.inj h
  · cases h

theorem not_mayPanic_returning (host : (q : Q) → A q) : ¬MayPanic (returning host) := by
  intro hmay
  obtain ⟨q, cause, h⟩ := hmay
  cases h

namespace Move

def Ensures (may : Reply A → Prop) (P : Mem → Progress State Result → List (Reply A) → Prop)
    (mem : Mem) :
    Move A Mem State Result → Prop
  | .access m s _ => P m (.running s) []
  | .ask q resume rescue => ∀ a, may ⟨q, a⟩ → P mem (Pool.resumed resume rescue a) [⟨q, a⟩]
  | .finish r => P mem (.returned r) []
  | .fail cause => P mem (.panicked cause) []
  | .abort _ => True

variable {may : Reply A → Prop} {P P' : Mem → Progress State Result → List (Reply A) → Prop}
  {mem : Mem}

theorem Ensures.mono {mv : Move A Mem State Result} (h : mv.Ensures may P mem)
    (hP : ∀ m c l, P m c l → P' m c l) : mv.Ensures may P' mem := by
  cases mv with
  | access m s n => exact hP _ _ _ h
  | ask q resume rescue =>
    intro a ha
    exact hP _ _ _ (h a ha)
  | finish r => exact hP _ _ _ h
  | fail cause => exact hP _ _ _ h
  | abort reason => trivial

theorem Ensures.and {mv : Move A Mem State Result} (h : mv.Ensures may P mem)
    (h' : mv.Ensures may P' mem) : mv.Ensures may (fun m c l => P m c l ∧ P' m c l) mem := by
  cases mv with
  | access m s n => exact ⟨h, h'⟩
  | ask q resume rescue => exact fun a ha => ⟨h a ha, h' a ha⟩
  | finish r => exact ⟨h, h'⟩
  | fail cause => exact ⟨h, h'⟩
  | abort reason => trivial

theorem Ensures.all {κ : Sort _} {R : κ → Mem → Progress State Result → List (Reply A) → Prop}
    {mv : Move A Mem State Result} (h : ∀ k, mv.Ensures may (R k) mem) :
    mv.Ensures may (fun m c l => ∀ k, R k m c l) mem := by
  cases mv with
  | ask q resume rescue => exact fun a ha k => h k a ha
  | abort reason => trivial
  | _ => exact h

theorem Ensures.of_any {mv : Move A Mem State Result} (h : mv.Ensures (fun _ => True) P mem) :
    mv.Ensures may P mem := by
  cases mv with
  | ask q resume rescue => exact fun a _ => h a trivial
  | _ => exact h

theorem Ensures.of_may (mv : Move A Mem State Result) :
    mv.Ensures may (fun _ _ l => ∀ r ∈ l, may r) mem := by
  cases mv with
  | ask q resume rescue =>
    intro a ha r hr
    rwa [List.mem_singleton.1 hr]
  | abort reason => trivial
  | _ => exact fun r hr => absurd hr List.not_mem_nil

theorem Ensures.any (mv : Move A Mem State Result) (mem : Mem) :
    mv.Ensures may (fun _ _ _ => True) mem :=
  (Move.Ensures.of_may mv).mono fun _ _ _ _ => trivial

/-- Where the outer call goes on when the inner one has panicked. -/
def rescued (rescue : Option (Panic → State)) (cause : Panic) : Progress State Result :=
  rescue.elim (.panicked cause) fun k => .running (k cause)

/-- A machine ensures inside another what it ensures alone, if the outer machine takes over well:
`hrun` where the inner call goes on, `hreturn` from its result, `hpanic` from its panic. -/
theorem Ensures.lift {inner : Move A Sub SubState SubResult} {sub : Sub}
    {R : Sub → Progress SubState SubResult → List (Reply A) → Prop} {put : Sub → Mem}
    {wrap : SubState → State} {finished : SubResult → Move A Mem State Result}
    {rescue : Option (Panic → State)} (h : inner.Ensures may R sub) (hput : put sub = mem)
    (hrun : ∀ m s l, R m (.running s) l → P (put m) (.running (wrap s)) l)
    (hreturn : ∀ r, R sub (.returned r) [] → (finished r).Ensures may P mem)
    (hpanic : ∀ cause l, R sub (.panicked cause) l → P mem (rescued rescue cause) l) :
    (inner.lift mem put wrap finished rescue).Ensures may P mem := by
  subst hput
  cases inner with
  | access m s n => exact hrun _ _ _ h
  | ask q resume own =>
    intro a ha
    have hR := h a ha
    cases a with
    | ok a => exact hrun _ _ _ hR
    | error cause =>
      cases own with
      | none => exact hpanic _ _ hR
      | some k => exact hrun _ _ _ hR
  | finish r => exact hreturn r h
  | fail cause =>
    cases rescue with
    | none => exact hpanic _ _ h
    | some k => exact hpanic _ _ h
  | abort reason => trivial

end Move

namespace Pool

def after [DecidableEq ι] (p : Pool ι A Mem State Result) (i : ι) (m : Mem)
    (c : Progress State Result) (l : List (Reply A)) : Pool ι A Mem State Result :=
  { p with
    mem := m
    calls := Function.update p.calls i c
    asked := l.map (fun r => ⟨i, r.1, r.2⟩) ++ p.asked }

theorem AllOver.ne_running {p : Pool ι A Mem State Result} (h : p.AllOver) (i : ι) (s : State) :
    p.calls i ≠ .running s := by
  intro hc
  have hi := h i
  rw [hc] at hi
  exact Bool.false_ne_true hi

/-- All replies heard so far, earliest first. -/
def log (p : Pool ι A Mem State Result) : List (Reply A) := p.asked.reverse.map Asked.toReply

@[simp] theorem log_start (mem : Mem) (first : ι → State) :
    (start mem first : Pool ι A Mem State Result).log = [] := rfl

def times [DecidableEq Q] (p : Pool ι A Mem State Result) (q : Q) : Nat :=
  p.asked.countP fun e => e.question = q

theorem times_eq [DecidableEq Q] (p : Pool ι A Mem State Result) (q : Q) :
    p.times q = p.log.countP fun r => r.1 = q := by
  rw [times, log, List.countP_map, List.countP_reverse]
  rfl

variable [DecidableEq ι] {move : ι → Mem → State → Move A Mem State Result} {may : Reply A → Prop}

theorem log_after (p : Pool ι A Mem State Result) (i : ι) (m : Mem) (c : Progress State Result)
    (l : List (Reply A)) : (p.after i m c l).log = p.log ++ l.reverse := by
  simp [log, after, Asked.toReply, List.map_reverse, Function.comp_def]

/-- One turn makes no move, makes one move of a running call, or ends the process. -/
theorem turn_cases {P : State → Mem → Progress State Result → List (Reply A) → Prop}
    (p : Pool ι A Mem State Result) {t : Turn ι A} (ht : t.Within may)
    (h : ∀ s, p.calls t.caller = .running s → (move t.caller p.mem s).Ensures may (P s) p.mem) :
    (p.turn move t = p ∧ p.made move t = none) ∨
      (∃ s m c l, p.calls t.caller = .running s ∧ P s m c l ∧
        p.turn move t = p.after t.caller m c l ∧
        p.made move t = some ⟨t.caller, s, p.mem, m⟩) ∨
      ∃ s reason, p.calls t.caller = .running s ∧ move t.caller p.mem s = .abort reason ∧
        p.turn move t = { p with aborted := some reason } := by
  cases ha : p.aborted with
  | some reason => exact .inl (by simp [turn, made, ha])
  | none =>
    cases hc : p.calls t.caller with
    | returned r => exact .inl (by simp [turn, made, ha, hc])
    | panicked cause => exact .inl (by simp [turn, made, ha, hc])
    | running s =>
      right
      have hs := h s hc
      have hturn := turn_of_running move p ha hc
      have hmade : p.made move t = some ⟨t.caller, s, p.mem, (p.turn move t).mem⟩ := by
        simp [made, ha, hc]
      rw [hturn] at hmade ⊢
      cases hm : move t.caller p.mem s with
      | abort reason => exact .inr ⟨s, reason, rfl, hm, rfl⟩
      | access m s' n =>
        rw [hm] at hs hmade
        exact .inl ⟨s, m, _, [], rfl, hs, rfl, hmade⟩
      | ask q resume rescue =>
        rw [hm] at hs hmade
        exact .inl ⟨s, p.mem, _, _, rfl, hs _ (ht q), rfl, hmade⟩
      | finish r =>
        rw [hm] at hs hmade
        exact .inl ⟨s, p.mem, _, [], rfl, hs, rfl, hmade⟩
      | fail cause =>
        rw [hm] at hs hmade
        exact .inl ⟨s, p.mem, _, [], rfl, hs, rfl, hmade⟩

theorem isOver_of_made_eq_none {p : Pool ι A Mem State Result} {t : Turn ι A}
    (ha : p.aborted = none) (h : p.made move t = none) : (p.calls t.caller).isOver = true := by
  cases hc : p.calls t.caller with
  | running s => simp [made, ha, hc] at h
  | returned r => rfl
  | panicked cause => rfl

theorem aborted_turn (hlive : ∀ i m s reason, move i m s ≠ .abort reason)
    {p : Pool ι A Mem State Result} (ha : p.aborted = none) (t : Turn ι A) :
    (p.turn move t).aborted = none := by
  rcases p.turn_cases (Turn.within_true [t] t List.mem_cons_self)
    fun s _ => Move.Ensures.any (move t.caller p.mem s) p.mem with
    ⟨he, _⟩ | ⟨s, m, c, l, _, _, he, _⟩ | ⟨s, reason, _, habort, _⟩
  · rwa [he]
  · rwa [he]
  · exact absurd habort (hlive _ _ _ reason)

theorem aborted_run (hlive : ∀ i m s reason, move i m s ≠ .abort reason)
    (p : Pool ι A Mem State Result) (ha : p.aborted = none) (turns : List (Turn ι A)) :
    (p.run move turns).aborted = none :=
  p.run_induction move (P := fun q => q.aborted = none) ha fun _ hq t _ => aborted_turn hlive hq t

theorem calls_turn_of_ne (move : ι → Mem → State → Move A Mem State Result)
    (p : Pool ι A Mem State Result) {t : Turn ι A} {i : ι} (h : i ≠ t.caller) :
    (p.turn move t).calls i = p.calls i := by
  unfold turn
  split
  · unfold apply
    split <;> simp [put, Function.update_of_ne h]
  · rfl

theorem log_turn {asks : Reply A → Prop} (p : Pool ι A Mem State Result) {t : Turn ι A}
    (ht : t.Within may) (hstep : ∀ i m s, (move i m s).Ensures may (fun _ _ l => ∀ r ∈ l, asks r) m)
    (h : ∀ r ∈ p.log, asks r) : ∀ r ∈ (p.turn move t).log, asks r := by
  rcases p.turn_cases ht fun s _ => hstep t.caller p.mem s with
    ⟨he, _⟩ | ⟨s, m, c, l, _, hl, he, _⟩ | ⟨s, reason, _, _, he⟩
  · rwa [he]
  · intro r hr
    rw [he, log_after, List.mem_append, List.mem_reverse] at hr
    exact hr.elim (h r) (hl r)
  · rwa [he]

/-- What every move makes of the replies that it hears holds of all replies of a run. -/
theorem log_run {asks : Reply A → Prop} (p : Pool ι A Mem State Result) {turns : List (Turn ι A)}
    (ht : ∀ t ∈ turns, t.Within may)
    (hstep : ∀ i m s, (move i m s).Ensures may (fun _ _ l => ∀ r ∈ l, asks r) m)
    (h : ∀ r ∈ p.log, asks r) : ∀ r ∈ (p.run move turns).log, asks r :=
  p.run_induction move (P := fun q => ∀ r ∈ q.log, asks r) h fun q hq t hm =>
    q.log_turn (ht t hm) hstep hq

theorem log_run_may (p : Pool ι A Mem State Result) {turns : List (Turn ι A)}
    (ht : ∀ t ∈ turns, t.Within may) (h : ∀ r ∈ p.log, may r) :
    ∀ r ∈ (p.run move turns).log, may r :=
  p.log_run ht (fun _ _ _ => Move.Ensures.of_may _) h

end Pool

end

end PauseCleanup
