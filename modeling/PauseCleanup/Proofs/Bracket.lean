import PauseCleanup.Proofs.Phases
import PauseCleanup.Proofs.Pool.Alone
import Mathlib.Data.List.Induction
/-!
# The bracket around a table sweep

Reply by reply, a log is at one place of a bracket: unasked, the sweep due, no sweep, the sweep
open, or closed. A log that can be walked looks as `Bracketed` says.
-/
namespace PauseCleanup

open Host (Query Answer)

namespace Host.Query

/-- Whether the question is one of the sweep: its two hooks, and the shares between them. -/
def isSweep : Query → Bool
  | .beginSweep _ | .endSweep | .unlink .. => true
  | _ => false

def isTable : Query → Bool
  | .tableEnabled => true
  | q => q.isSweep

end Host.Query

/-- Where a log stands. -/
inductive Bracket
  | fresh
  | due
  | off
  | opened
  | closed

namespace Bracket

/-- Where one reply leads. -/
inductive Step : Bracket → Reply Answer → Bracket → Prop
  | quiet {b : Bracket} {r : Reply Answer} :
    r.1.isTable = false → (b = .closed → r.1 ≠ .checkCode) → Step b r b
  | inUse : Step .fresh ⟨.tableEnabled, .ok true⟩ .due
  | notInUse {a : Except Panic Bool} : a ≠ .ok true → Step .fresh ⟨.tableEnabled, a⟩ .off
  | begun {resize : Bool} : Step .due ⟨.beginSweep resize, .ok ()⟩ .opened
  | failed {resize : Bool} {cause : Panic} : Step .due ⟨.beginSweep resize, .error cause⟩ .off
  | share {id : UInt32} {keeps : Bool} {a : Except Panic Unit} :
    Step .opened ⟨.unlink id keeps, a⟩ .opened
  | ended {a : Except Panic Unit} : Step .opened ⟨.endSweep, a⟩ .closed

inductive Path : Bracket → List (Reply Answer) → Bracket → Prop
  | nil {b : Bracket} : Path b [] b
  | snoc {b b' b'' : Bracket} {l : List (Reply Answer)} {r : Reply Answer} :
    Path b l b' → Step b' r b'' → Path b (l ++ [r]) b''

theorem Path.append {b b' b'' : Bracket} {l l' : List (Reply Answer)} (h : Path b l b')
    (h' : Path b' l' b'') : Path b (l ++ l') b'' := by
  induction h' with
  | nil => rwa [List.append_nil]
  | snoc _ hs ih =>
    rw [← List.append_assoc]
    exact .snoc ih hs

theorem Path.single {b b' : Bracket} {r : Reply Answer} (h : Step b r b') : Path b [r] b' :=
  .snoc .nil h

theorem Path.stays {b : Bracket} {l : List (Reply Answer)} (h : ∀ r ∈ l, Step b r b) :
    Path b l b := by
  induction l using List.reverseRecOn with
  | nil => exact .nil
  | append_singleton l r ih => exact .snoc (ih fun r' hr => h r' (by simp [hr])) (h r (by simp))

section Follows

variable {Mem State Result : Type}

/-- The replies heard lead from `b` to where the call is `At` afterwards. -/
def Follows (At : Progress State Result → Bracket → Prop) (b : Bracket) (_ : Mem)
    (c : Progress State Result) (l : List (Reply Answer)) : Prop :=
  ∃ b', Path b l.reverse b' ∧ At c b'

theorem told_alone {move : Mem → State → HostMove Mem State Result}
    {At : Progress State Result → Bracket → Prop}
    (hstep : ∀ b m s, At (.running s) b → (move m s).Ensures (fun _ => True) (Follows At b) m)
    {m : Mem} {s : State} {b : Bracket} (h : At (.running s) b) (turns : List (Turn Unit Answer)) :
    (Pool.alone move m s turns).Told move fun log _ c => ∃ b', Path b log b' ∧ At c b' := by
  refine Pool.told_alone (fun log m s hs => ?_) ⟨b, .nil, h⟩ (Turn.within_true turns)
  obtain ⟨b', hpath, hat⟩ := hs
  refine (hstep b' m s hat).mono fun m' c l hl => ?_
  obtain ⟨b'', hpath', hat'⟩ := hl
  exact ⟨b'', hpath.append hpath', hat'⟩

end Follows

/-- Until a sweep is begun, nothing is asked about the table but whether it is in use. -/
def Unbegun (log : List (Reply Answer)) : Prop :=
  ∀ r ∈ log, r.1.isTable = true → r = ⟨.tableEnabled, .ok true⟩

/-- While a sweep is open, nothing is asked about the table but to unlink shares of it. -/
def Shares (log : List (Reply Answer)) : Prop :=
  ∀ r ∈ log, r.1.isTable = true → ∃ id keeps, r.1 = .unlink id keeps

/-- After a sweep is closed, nothing is asked about the table, and the code cache is not checked. -/
def Quiet (log : List (Reply Answer)) : Prop := ∀ r ∈ log, r.1.isTable = false ∧ r.1 ≠ .checkCode

def Shape : Bracket → List (Reply Answer) → Prop
  | .fresh, log => ∀ r ∈ log, r.1.isTable = false
  | .due, log => Unbegun log
  | .off, log => (∀ r ∈ log, r.1.isSweep = false) ∨ ∀ r ∈ log, r.1.isTable = true →
    r = ⟨.tableEnabled, .ok true⟩ ∨ ∃ resize cause, r = ⟨.beginSweep resize, .error cause⟩
  | .opened, log => ∃ before resize during, log = before ++ ⟨.beginSweep resize, .ok ()⟩ :: during ∧
    Unbegun before ∧ Shares during
  | .closed, log => ∃ before resize during a rest,
    log = before ++ ⟨.beginSweep resize, .ok ()⟩ :: (during ++ ⟨.endSweep, a⟩ :: rest) ∧
    Unbegun before ∧ Shares during ∧ Quiet rest

theorem isSweep_of_not_isTable {q : Query} (h : q.isTable = false) : q.isSweep = false := by
  cases q <;> first | rfl | exact h

theorem isTable_of_isSweep {q : Query} (h : q.isSweep = true) : q.isTable = true := by
  cases q <;> first | rfl | cases h

section Shape

variable {b b' : Bracket} {log : List (Reply Answer)} {r : Reply Answer}

theorem forall_mem_snoc {P : Reply Answer → Prop} (h : ∀ r ∈ log, P r) (hr : P r) :
    ∀ r' ∈ log ++ [r], P r' := by
  intro r' hr'
  rcases List.mem_append.1 hr' with hr' | hr'
  · exact h r' hr'
  · rwa [List.mem_singleton.1 hr']

theorem Shape.quiet (h : Shape b log) (hr : r.1.isTable = false)
    (hc : b = .closed → r.1 ≠ .checkCode) : Shape b (log ++ [r]) := by
  have hnot : ∀ {P : Prop}, r.1.isTable = true → P :=
    fun h => absurd (hr.symm.trans h) Bool.false_ne_true
  cases b with
  | fresh => exact forall_mem_snoc h hr
  | due => exact forall_mem_snoc h hnot
  | off =>
    rcases h with h | h
    · exact .inl (forall_mem_snoc h (isSweep_of_not_isTable hr))
    · exact .inr (forall_mem_snoc h hnot)
  | opened =>
    obtain ⟨before, resize, during, rfl, hb, hd⟩ := h
    exact ⟨before, resize, during ++ [r], by simp, hb, forall_mem_snoc hd hnot⟩
  | closed =>
    obtain ⟨before, resize, during, a, rest, rfl, hb, hd, hq⟩ := h
    exact ⟨before, resize, during, a, rest ++ [r], by simp, hb, hd, forall_mem_snoc hq ⟨hr, hc rfl⟩⟩

theorem Shape.step (h : Shape b log) (hs : Step b r b') : Shape b' (log ++ [r]) := by
  cases hs with
  | quiet hr hc => exact h.quiet hr hc
  | inUse =>
    exact forall_mem_snoc (fun r' hr' ht => absurd ((h r' hr').symm.trans ht) Bool.false_ne_true)
      fun _ => rfl
  | notInUse ha =>
    exact .inl (forall_mem_snoc (fun r' hr' => isSweep_of_not_isTable (h r' hr')) rfl)
  | @begun resize => exact ⟨log, resize, [], rfl, h, by simp [Shares]⟩
  | @failed resize cause =>
    exact .inr (forall_mem_snoc (fun r' hr' ht => .inl (h r' hr' ht))
      fun _ => .inr ⟨resize, cause, rfl⟩)
  | @share id keeps a =>
    obtain ⟨before, resize, during, rfl, hb, hd⟩ := h
    exact ⟨before, resize, during ++ [⟨.unlink id keeps, a⟩], by simp, hb,
      forall_mem_snoc hd fun _ => ⟨id, keeps, rfl⟩⟩
  | @ended a =>
    obtain ⟨before, resize, during, rfl, hb, hd⟩ := h
    exact ⟨before, resize, during, a, [], by simp, hb, hd, by simp [Quiet]⟩

theorem Path.shape (h : Path .fresh log b) : Shape b log := by
  generalize hf : Bracket.fresh = first at h
  induction h with
  | nil =>
    subst hf
    simp [Shape]
  | snoc _ hs ih => exact ih.step hs

end Shape

end Bracket

/-- What the log of a whole life says about its sweep, if the process was `aborted` in the end or
not. -/
structure Bracketed (log : List (Reply Answer)) (aborted : Option Abort) : Prop where
  disabled : (⟨.tableEnabled, .ok false⟩ : Reply Answer) ∈ log → ∀ r ∈ log, r.1.isSweep = false
  unbegun : (∀ resize, (⟨.beginSweep resize, .ok ()⟩ : Reply Answer) ∉ log) →
    ∀ r ∈ log, r.1.isSweep = true →
    ∃ resize cause, r = ⟨.beginSweep resize, .error cause⟩
  /-- A sweep that was begun is ended once, with all shares in between and the check of the code
  cache before. -/
  begun : (∀ v, aborted ≠ some (.violation v)) → ∀ resize,
    (⟨.beginSweep resize, .ok ()⟩ : Reply Answer) ∈ log →
    ∃ before during a rest,
      log = before ++ ⟨.beginSweep resize, .ok ()⟩ :: (during ++ ⟨.endSweep, a⟩ :: rest) ∧
      Bracket.Unbegun before ∧ Bracket.Shares during ∧ Bracket.Quiet rest
  /-- Only a violation that ends the process leaves a sweep open. -/
  violated : ∀ v, aborted = some (.violation v) → ∀ resize,
    (⟨.beginSweep resize, .ok ()⟩ : Reply Answer) ∈ log →
    ∃ before during, log = before ++ ⟨.beginSweep resize, .ok ()⟩ :: during ∧
      Bracket.Unbegun before ∧ Bracket.Shares during

namespace Bracketed

open PauseCleanup.Bracket

variable {b : Bracket} {log : List (Reply Answer)} {aborted : Option Abort} {resize resize' : Bool}

theorem not_disabled_mem {before during rest : List (Reply Answer)} (hb : Unbegun before)
    (hd : Shares during) (hr : ∀ r ∈ rest, r.1 ≠ .tableEnabled) :
    (⟨.tableEnabled, .ok false⟩ : Reply Answer) ∉
      before ++ ⟨.beginSweep resize, .ok ()⟩ :: (during ++ rest) := by
  intro h
  rw [List.mem_append, List.mem_cons, List.mem_append] at h
  rcases h with h | h | h | h
  · cases hb _ h rfl
  · cases h
  · obtain ⟨id, keeps, h⟩ := hd _ h rfl
    cases h
  · exact hr _ h rfl

theorem eq_of_begun_mem {before during rest : List (Reply Answer)} (hb : Unbegun before)
    (hd : Shares during) (hr : ∀ r ∈ rest, r.1 ≠ .beginSweep resize')
    (h : (⟨.beginSweep resize', .ok ()⟩ : Reply Answer) ∈
      before ++ ⟨.beginSweep resize, .ok ()⟩ :: (during ++ rest)) : resize' = resize := by
  rw [List.mem_append, List.mem_cons, List.mem_append] at h
  rcases h with h | h | h | h
  · cases hb _ h rfl
  · cases h
    rfl
  · obtain ⟨id, keeps, h⟩ := hd _ h rfl
    cases h
  · exact absurd rfl (hr _ h)

theorem of_none
    (hlog : ∀ r ∈ log, r.1.isSweep = true → ∃ resize cause, r = ⟨.beginSweep resize, .error cause⟩)
    (hdisabled : (⟨.tableEnabled, .ok false⟩ : Reply Answer) ∈ log →
      ∀ r ∈ log, r.1.isSweep = false) : Bracketed log aborted := by
  have hnone : ∀ resize, (⟨.beginSweep resize, .ok ()⟩ : Reply Answer) ∉ log := by
    intro resize h
    obtain ⟨resize', cause, he⟩ := hlog _ h rfl
    cases he
  exact ⟨hdisabled, fun _ => hlog, fun _ resize h => absurd h (hnone resize),
    fun _ _ resize h => absurd h (hnone resize)⟩

/-- A log that can be walked tells of a bracket, if it ends as it should: open only with a
violation, closed only without. -/
theorem of_path (h : Path .fresh log b)
    (hopened : (∀ v, aborted ≠ some (.violation v)) → b ≠ .opened)
    (hclosed : ∀ v, aborted = some (.violation v) → b ≠ .closed) : Bracketed log aborted := by
  have hshape := h.shape
  cases b with
  | fresh =>
    have hquiet : ∀ r ∈ log, r.1.isSweep = false := fun r hr => isSweep_of_not_isTable (hshape r hr)
    exact of_none (fun r hr hs => by simp [hquiet r hr] at hs) fun _ => hquiet
  | due =>
    have hquiet : ∀ r ∈ log, r.1.isSweep = false := by
      intro r hr
      by_cases ht : r.1.isTable = true
      · rw [hshape r hr ht]
        rfl
      · exact isSweep_of_not_isTable (Bool.eq_false_iff.2 ht)
    exact of_none (fun r hr hs => by simp [hquiet r hr] at hs) fun _ => hquiet
  | off =>
    rcases hshape with hquiet | hfailed
    · exact of_none (fun r hr hs => by simp [hquiet r hr] at hs) fun _ => hquiet
    · refine of_none (fun r hr hs => ?_) fun hmem => ?_
      · rcases hfailed r hr (isTable_of_isSweep hs) with rfl | he
        · cases hs
        · exact he
      · rcases hfailed _ hmem rfl with he | ⟨resize, cause, he⟩ <;> cases he
  | opened =>
    obtain ⟨before, resize, during, rfl, hb, hd⟩ := hshape
    have hmem : before ++ ⟨.beginSweep resize, .ok ()⟩ :: during =
        before ++ ⟨.beginSweep resize, .ok ()⟩ :: (during ++ []) := by rw [List.append_nil]
    constructor
    case disabled =>
      intro h
      rw [hmem] at h
      exact absurd h (not_disabled_mem hb hd (by simp))
    case unbegun => exact fun h => absurd (by simp) (h resize)
    case begun => exact fun h => absurd rfl (hopened h)
    case violated =>
      intro v _ resize' h
      rw [hmem] at h
      obtain rfl := eq_of_begun_mem hb hd (by simp) h
      exact ⟨before, during, rfl, hb, hd⟩
  | closed =>
    obtain ⟨before, resize, during, a, rest, rfl, hb, hd, hq⟩ := hshape
    have hend : ∀ q, q.isTable = true → q ≠ .endSweep →
      ∀ r ∈ (⟨.endSweep, a⟩ :: rest : List (Reply Answer)), r.1 ≠ q := by
      rintro q hq' hne r hr rfl
      rcases List.mem_cons.1 hr with rfl | hr
      · exact hne rfl
      · simp [(hq r hr).1] at hq'
    constructor
    case disabled => exact fun h => absurd h (not_disabled_mem hb hd (hend _ rfl (by simp)))
    case unbegun => exact fun h => absurd (by simp) (h resize)
    case begun =>
      intro _ resize' h
      obtain rfl := eq_of_begun_mem hb hd (hend _ rfl (by simp)) h
      exact ⟨before, during, a, rest, rfl, hb, hd, hq⟩
    case violated => exact fun v hv => absurd rfl (hclosed v hv)

end Bracketed

end PauseCleanup
