import PauseCleanup.Proofs.Descents
import PauseCleanup.Proofs.Frontier.Batches
import PauseCleanup.Proofs.Pool.Attempts
/-!
# What a claim tells of the races that it lost

Every exchange that goes through uses up some of the frontier, so no word ever comes back: a walk is
thrown away exactly if somebody else has moved the frontier since it began.
-/
namespace PauseCleanup.Frontier

open Attempts (beside during)
open Pool (Made)
open Unloading (Chain Stable)

/-- How many exchanges bring a frontier to its end, in batches of `k` units: one for each full batch
that there is still to be had, and one more. -/
def cuts (units : List UnitId) (k : ℕ) (f : Frontier) : ℕ :=
  if f.word = 0 then 0 else (f.rest units).length / k + 1

namespace Claim

def seen : Progress Claim Batch → Option Frontier
  | .running (.walk _ seen _ _ _) => some ⟨seen⟩
  | .running (.arrive _ seen _ _ _) => some ⟨seen⟩
  | .running (.exchange _ seen _ _) => some ⟨seen⟩
  | _ => none

def attempts : Attempts Frontier Frontier Claim Batch where
  view := id
  looks
    | .load .. => true
    | _ => false
  tries
    | .exchange .. => true
    | _ => false
  seen := seen

/-- The walks that a claim has thrown away so far. -/
def losses : Progress Claim Batch → ℕ
  | .running (.load lost _) => lost
  | .running (.walk lost _ _ _ _) => lost
  | .running (.arrive lost _ _ _ _) => lost
  | .running (.exchange lost _ _ _) => lost
  | .running (.done b) => b.lost
  | .returned b => b.lost
  | _ => 0

variable {may : Reply Host.Answer → Prop} {units : List UnitId} {max : BatchSize} {f : Frontier}

theorem cuts_exchange {lost : ℕ} {last : UInt64} {taken : List UnitId}
    (h : (Claim.exchange lost f.word last taken).Sound units max) :
    cuts units max.val.toNat ⟨last⟩ + 1 = cuts units max.val.toNat f := by
  have hmax : 0 < max.val.toNat := UInt64.lt_iff_toNat_lt.1 max.pos
  have hlen := congrArg List.length (Sound.exchange h).1
  obtain ⟨hseen, -, -, hle, hend⟩ := h
  rw [List.length_append, List.length_reverse] at hlen
  rw [cuts, cuts, if_neg hseen, hlen]
  by_cases hlast : last = 0
  · rw [if_pos hlast, rest_of_zero _ hlast, List.length_nil, add_zero,
      Nat.div_eq_of_lt (hend.1 hlast)]
  -- A batch that is not the last one is full, so it takes exactly one off the quotient.
  · have hfull : taken.length = max.val.toNat := by
      have := mt hend.2 hlast
      omega
    rw [if_neg hlast, hfull, Nat.add_div_left _ hmax]

theorem Yields.cuts_eq {c : Claim} {f' : Frontier} {c' : Progress Claim Batch}
    (h : Yields f c f' c') (hc : c.Sound units max) :
    f' = f ∨ cuts units max.val.toNat f' + 1 = cuts units max.val.toNat f := by
  cases h with
  | nothing _ _ => exact .inl rfl
  | batch => exact .inr (cuts_exchange hc)

theorem goes_on {c : Claim} {c' : Progress Claim Batch} (hlooks : attempts.looks c = false)
    (htries : attempts.tries c = false) (hseen : seen c' = none ∨ seen c' = seen (.running c)) :
    attempts.Goes (stock units) f c f c' := by
  refine .keep hlooks htries rfl fun v hv => ?_
  rcases hseen with hnone | hsame
  · exact absurd (hnone.symm.trans hv) (by simp)
  · exact hsame.symm.trans hv

theorem goes {c : Claim} (hc : c.Sound units max) : (c.move max f).Ensures may
    (fun f' c' _ => attempts.Goes (stock units) f c f' c') f := by
  cases c with
  | allocate =>
    simp only [move]
    split <;> exact goes_on rfl rfl (.inl rfl)
  | load lost stale =>
    simp only [move]
    split
    · exact .look rfl rfl rfl fun v hv => by cases hv
    · exact .look rfl rfl rfl fun v hv => (Option.some.inj hv).symm
  | walk lost seen mark taken room =>
    cases room with
    | zero => exact goes_on rfl rfl (.inr rfl)
    | succ room =>
      intro a _
      cases a with
      | error cause => exact goes_on rfl rfl (.inl rfl)
      | ok next => cases next <;> exact goes_on rfl rfl (.inr rfl)
  | arrive lost seen u taken room =>
    simp only [move]
    split
    · exact goes_on rfl rfl (.inl rfl)
    · exact goes_on rfl rfl (.inr rfl)
  | exchange lost seen last taken =>
    simp only [move]
    split
    · next h =>
      subst h
      exact .win rfl rfl rfl (stock_exchange hc) rfl
    · next h => exact .fail rfl rfl rfl (fun he => h (congrArg word he)) rfl rfl
  | done b => exact goes_on rfl rfl (.inl rfl)

theorem counts_losses {ι : Type} (i : ι) {c : Claim} (hc : c.Sound units max) :
    (c.move max f).Ensures may (fun f' c' _ => (∀ cause, c' ≠ .panicked cause) →
      losses c' = losses (.running c) + if attempts.fails ⟨i, c, f, f'⟩ then 1 else 0) f := by
  cases c with
  | allocate =>
    simp only [move]
    split
    · exact fun _ => rfl
    · exact fun h => absurd rfl (h _)
  | load lost stale =>
    simp only [move]
    split <;> exact fun _ => rfl
  | walk lost seen mark taken room =>
    cases room with
    | zero => exact fun _ => rfl
    | succ room =>
      intro a _ hcalm
      cases a with
      | error cause => exact absurd rfl (hcalm cause)
      | ok next => cases next <;> rfl
  | arrive lost seen u taken room =>
    simp only [move]
    split
    · exact fun h => absurd rfl (h _)
    · exact fun _ => rfl
  | exchange lost seen last taken =>
    simp only [move]
    split
    · next h =>
      subst h
      intro _
      have hdown := stock_exchange hc
      have hchanges : attempts.changes (⟨i, .exchange lost f.word last taken, f, ⟨last⟩⟩ :
          Made ι Frontier Claim) = true := Attempts.changes_of_down (stock units) hdown
      rw [Attempts.fails, hchanges]
      rfl
    -- The exchange was in vain, and the walk is counted as lost.
    · intro _
      have hchanges : attempts.changes (⟨i, .exchange lost seen last taken, f, f⟩ :
          Made ι Frontier Claim) = false := Attempts.changes_of_still rfl
      rw [Attempts.fails, hchanges]
      rfl
  | done b => exact fun _ => rfl

end Claim

variable {ι : Type} [DecidableEq ι] {may : Reply Host.Answer → Prop}
  {host : (q : Host.Query) → Host.Answer q} {here : Option UnitId} {units : List UnitId}
  {max : ι → BatchSize} {p : Pool ι Host.Answer Frontier Claim Batch}
  {turns : List (Turn ι Host.Answer)}

theorem losses_eq_failures (hmay : Steady host may)
    (hchain : Chain (fun u => host (.nextAlive u)) here units)
    (hp : (outline hmay hchain max).Holds p) (hfresh : ∀ i, Claim.losses (p.calls i) = 0)
    (hturns : ∀ t ∈ turns, t.Within may) (i : ι)
    (hcalm : ∀ cause, (p.run (claiming max) turns).calls i ≠ .panicked cause) :
    Claim.losses ((p.run (claiming max) turns).calls i) =
      Claim.attempts.failures i (p.history (claiming max) turns) := by
  refine hp.history_induction (fun i f c => c.move_ne_abort)
    (fun {i f c} _ hc => Claim.counts_losses i hc.sound)
    (P := fun q past => ∀ i, (∀ cause, q.calls i ≠ .panicked cause) →
      Claim.losses (q.calls i) = Claim.attempts.failures i past)
    (fun i _ => hfresh i) ?_ hturns i hcalm
  intro q past j c f c' l _ hq hj hloss i hcalm
  by_cases hij : j = i
  · subst hij
    have hcall : (q.after j f c' l).calls j = c' := by simp [Pool.after]
    rw [hcall] at hcalm ⊢
    have hbefore := hq j (by simp [hj])
    rw [hj] at hbefore
    rw [hloss hcalm, hbefore, Claim.attempts.failures_concat (e := ⟨j, c, q.mem, f⟩) rfl]
  · have hcall : (q.after j f c' l).calls i = q.calls i := by simp [Pool.after, Ne.symm hij]
    rw [hcall] at hcalm ⊢
    rw [hq i hcalm, Claim.attempts.failures_concat_of_ne (e := ⟨j, c, q.mem, f⟩) hij]

/-- What the count of a claim that has returned tells of the history around it. -/
structure Tells (h : List (Made ι Frontier Claim)) (i : ι) (lost : ℕ) : Prop where
  exact : lost = Claim.attempts.overtaken i h
  /-- Each of them cost somebody else a change while the claim was under way. -/
  bounded : lost ≤ (beside i (during i h)).countP Claim.attempts.changes
  undisturbed : (∀ e ∈ beside i (during i h), Claim.attempts.changes e = false) → lost = 0

/-- However many claims race for a frontier: the count of each is that of its overtaken attempts. -/
theorem returned_tells {f : Frontier} (hmay : Steady host may)
    (hchain : Chain (fun u => host (.nextAlive u)) here units) (hf : after here = some f)
    (max : ι → BatchSize) (stale : ι → List UnitId) (hturns : ∀ t ∈ turns, t.Within may) {i : ι}
    {b : Batch} :
    let p := Pool.start f fun i => Claim.start (stale i)
    (p.run (claiming max) turns).calls i = .returned b →
      Tells (p.history (claiming max) turns) i b.lost := by
  intro p hb
  have hp : (outline hmay hchain max).Holds p :=
    Outline.holds_start _ (after_spec hchain hf).1 fun _ => trivial
  have haccounted := hp.accounted (fun i f c => c.move_ne_abort) Claim.attempts (stock units)
    (fun {i f c} _ hc => Claim.goes hc.sound) (fun _ => rfl) hturns i
  have hlosses := losses_eq_failures hmay hchain hp (fun _ => rfl) hturns i (by simp [hb])
  rw [hb] at hlosses
  have hexact : b.lost = Claim.attempts.overtaken i (p.history (claiming max) turns) :=
    hlosses.trans haccounted.failures
  have hbounded := Claim.attempts.overtaken_le_during i (p.history (claiming max) turns)
  rw [← hexact] at hbounded
  refine ⟨hexact, hbounded, fun hquiet => ?_⟩
  rw [List.countP_eq_zero.2 fun e he => by simp [hquiet e he]] at hbounded
  exact Nat.le_zero.1 hbounded

end PauseCleanup.Frontier
