import PauseCleanup.Proofs.Frontier.Batches
import PauseCleanup.Proofs.Pool.OwnTurns
/-!
# When a frontier is used up

A frontier is used up by the first batch that is not a full one, be it empty. Until then its word
tells which unit was handed out last.
-/
namespace PauseCleanup.Frontier

open Pool (Made turnsOf)
open Unloading (Chain Stable)

variable {ι : Type}

def cut (e : Made ι Frontier Claim) : Option (List UnitId) :=
  match e.state with
  | .exchange _ seen _ taken => if e.before.word = seen then some taken.reverse else none
  | _ => none

/-- The units that were handed out, in the order of the exchanges. -/
def handedOut (h : List (Made ι Frontier Claim)) : List UnitId := (h.filterMap cut).flatten

/-- The move hands out fewer units than its caller asked for. -/
def Short (max : ι → BatchSize) (e : Made ι Frontier Claim) : Prop :=
  ∃ us, cut e = some us ∧ us.length < (max e.caller).val.toNat

def Claim.opening : Option (List UnitId) → Claim
  | none => .allocate
  | some stale => .start stale

theorem handedOut_concat (h : List (Made ι Frontier Claim)) (e : Made ι Frontier Claim) :
    handedOut (h ++ [e]) = handedOut h ++ (cut e).getD [] := by
  cases he : cut e <;> simp [handedOut, he]

theorem cut_of_not_wins {e : Made ι Frontier Claim} (h : e.state.wins e.before = false) :
    cut e = none := by
  unfold cut
  split
  · next hs => simpa [hs, Claim.wins] using h
  · rfl

theorem wordOf_unitOf {w : UInt64} (h : w ≠ 0) : wordOf (unitOf w) = some w := by
  unfold wordOf Word.succ?
  split
  · next hmax =>
    have hw : w = 18446744073709551615 + 1 := by
      rw [← hmax, unitOf, UInt64.sub_add_cancel]
    exact absurd hw h
  · rw [unitOf, UInt64.sub_add_cancel]

theorem exists_before {u : UnitId} {units : List UnitId} (hu : u ∈ units) :
    ∃ before, units = before ++ u :: behind units u := by
  induction units with
  | nil => cases hu
  | cons v units ih =>
    by_cases hv : v = u
    · subst hv
      exact ⟨[], by simp⟩
    · obtain ⟨before, he⟩ := ih ((List.mem_cons.1 hu).resolve_left fun h => hv h.symm)
      refine ⟨v :: before, ?_⟩
      rw [behind_cons_of_ne hv, List.cons_append, ← he]

theorem after_word {here : Option UnitId} {f : Frontier} (hf : after here = some f) :
    f.word = 0 ↔ here = none := by
  cases here with
  | none =>
    cases hf
    simp
  | some u =>
    obtain ⟨w, hw, rfl⟩ := Option.map_eq_some_iff.1 hf
    simpa using ne_zero_of_wordOf hw

section

variable {may : Reply Host.Answer → Prop} {host : (q : Host.Query) → Host.Answer q}
  {here : Option UnitId} {units : List UnitId} {max : ι → BatchSize}
  {q : Pool ι Host.Answer Frontier Claim Batch} {past : List (Made ι Frontier Claim)}

/-- How a frontier stands after the moves that were made on it. -/
structure Cuts (here : Option UnitId) (units : List UnitId) (max : ι → BatchSize)
    (q : Pool ι Host.Answer Frontier Claim Batch) (past : List (Made ι Frontier Claim)) : Prop where
  whole : handedOut past ++ q.mem.rest units = units.tail
  ends : q.mem.word = 0 ↔ here = none ∨ ∃ e ∈ past, Short max e
  brought : ∀ e ∈ past, ∀ us, cut e = some us → Claim.brings (q.calls e.caller) = some us

theorem Cuts.word_of_last (h : Cuts here units max q past) {next : UnitId → Option UnitId}
    (hchain : Chain next here units) (hvalid : q.mem.Valid units) (hw : q.mem.word ≠ 0) :
    ((handedOut past).getLast?.or here).bind wordOf = some q.mem.word := by
  obtain ⟨before, hbefore⟩ := exists_before (hvalid hw)
  have hwhole := h.whole
  rw [rest_of_ne_zero _ hw] at hwhole
  cases hchain with
  | nil => simp at hbefore
  | @cons u us hc =>
    have hunits : u :: handedOut past ++ behind (u :: us) (unitOf q.mem.word) =
        before ++ [unitOf q.mem.word] ++ behind (u :: us) (unitOf q.mem.word) := by
      rw [List.cons_append, hwhole, List.tail_cons, List.append_assoc, List.singleton_append]
      exact hbefore
    have hall : u :: handedOut past = before ++ [unitOf q.mem.word] :=
      List.append_cancel_right hunits
    have hlast : (handedOut past).getLast?.or (some u) = some (unitOf q.mem.word) := by
      have h := congrArg List.getLast? hall
      rw [List.getLast?_concat, List.getLast?_cons] at h
      rw [← h]
      cases (handedOut past).getLast? <;> rfl
    rw [hlast, Option.bind_some, wordOf_unitOf hw]

variable [DecidableEq ι]

theorem Cuts.after_nothing (h : Cuts here units max q past) {i : ι} {c : Claim}
    (hi : q.calls i = .running c) (hw : c.wins q.mem = false) {c' : Progress Claim Batch}
    (hb : Claim.brings c' = Claim.brings (.running c) ∨
      Claim.brings (.running c : Progress Claim Batch) = none ∧ Claim.brings c' = some [])
    (l : List (Reply Host.Answer)) :
    Cuts here units max (q.after i q.mem c' l) (past ++ [⟨i, c, q.mem, q.mem⟩]) := by
  have hcut : cut (⟨i, c, q.mem, q.mem⟩ : Made ι Frontier Claim) = none := cut_of_not_wins hw
  refine ⟨?_, ?_, ?_⟩
  · rw [handedOut_concat, hcut, Option.getD_none, List.append_nil]
    exact h.whole
  · have hshort : ¬Short max (⟨i, c, q.mem, q.mem⟩ : Made ι Frontier Claim) := by
      rintro ⟨us, hus, -⟩
      rw [hcut] at hus
      cases hus
    have hends : q.mem.word = 0 ↔ _ := h.ends
    simpa [Pool.after, hshort, or_and_right, exists_or] using hends
  · intro e he us hus
    rcases List.mem_append.1 he with he | he
    · have hbrought := h.brought e he us hus
      by_cases hcaller : e.caller = i
      · rw [hcaller, hi] at hbrought
        rw [hcaller]
        rcases hb with hb | ⟨hnone, -⟩
        · simpa [Pool.after, hb] using hbrought
        · rw [hnone] at hbrought
          cases hbrought
      · simpa [Pool.after, hcaller] using hbrought
    · rw [List.mem_singleton.1 he, hcut] at hus
      cases hus

theorem Cuts.after_batch (h : Cuts here units max q past) {i : ι} {lost : ℕ} {last : UInt64}
    {taken : List UnitId} (hi : q.calls i = .running (.exchange lost q.mem.word last taken))
    (hsound : (Claim.exchange lost q.mem.word last taken).Sound units (max i))
    (l : List (Reply Host.Answer)) :
    Cuts here units max (q.after i ⟨last⟩ (.running (.done ⟨taken.reverse, lost⟩)) l)
      (past ++ [⟨i, .exchange lost q.mem.word last taken, q.mem, ⟨last⟩⟩]) := by
  let e : Made ι Frontier Claim := ⟨i, .exchange lost q.mem.word last taken, q.mem, ⟨last⟩⟩
  have hcut : cut e = some taken.reverse := if_pos rfl
  obtain ⟨hrest, -, -⟩ := hsound.exchange
  obtain ⟨hseen, -, -, -, hend⟩ := hsound
  refine ⟨?_, ?_, ?_⟩
  · rw [handedOut_concat, hcut, Option.getD_some, List.append_assoc]
    exact (congrArg _ hrest.symm).trans h.whole
  · have hshort : Short max e ↔ taken.length < (max i).val.toNat := by
      simp [Short, hcut, e]
    -- No batch before this one was short, or the frontier would have been used up.
    obtain ⟨hhere, hpast⟩ := not_or.1 (mt h.ends.2 hseen)
    have hall : (∃ e' ∈ past ++ [e], Short max e') ↔ Short max e := by
      simp only [List.mem_append, List.mem_singleton, or_and_right, exists_or, hpast, false_or,
        exists_eq_left]
    rw [or_iff_right hhere, hall, hshort]
    exact hend
  · intro e' he us hus
    rcases List.mem_append.1 he with he | he
    · have hbrought := h.brought e' he us hus
      have hcaller : e'.caller ≠ i := by
        intro hcaller
        rw [hcaller, hi] at hbrought
        cases hbrought
      simpa [Pool.after, hcaller] using hbrought
    · obtain rfl := List.mem_singleton.1 he
      rw [← hus, hcut]
      simp [Pool.after, Claim.brings]

theorem Cuts.run (hmay : Steady host may) (hchain : Chain (fun u => host (.nextAlive u)) here units)
    {p : Pool ι Host.Answer Frontier Claim Batch} (hp : (outline hmay hchain max).Holds p)
    (h : Cuts here units max p []) {turns : List (Turn ι Host.Answer)}
    (hturns : ∀ t ∈ turns, t.Within may) :
    Cuts here units max (p.run (claiming max) turns) (p.history (claiming max) turns) := by
  refine hp.history_induction (fun _ _ c => c.move_ne_abort)
    (fun hf hc => (Claim.move_ensures hmay hchain hf hc).mono fun _ _ _ hm => hm.yields)
    h ?_ hturns
  intro q past i c f c' l hq hnow hi hy
  have hknows := hq.call i
  rw [hi] at hknows
  cases hy with
  | nothing hw hb => exact hnow.after_nothing hi hw hb l
  | batch => exact hnow.after_batch hi hknows l

end

/-- A claim of at most `k` units that finds the frontier `f`, which nobody else moves, with the
number of moves that it still has to make at most. -/
inductive Straight (units : List UnitId) (k : ℕ) (f : Frontier) :
    ℕ → Frontier → Progress Claim Batch → Prop
  | load {stale : List UnitId} : Straight units k f (2 * min k (f.rest units).length + 4) f
    (.running (.start stale))
  | walk {mark : UInt64} {taken : List UnitId} {room : ℕ} :
    Straight units k f (2 * min room (behind units (unitOf mark)).length + 3) f
      (.running (.walk 0 f.word mark taken room))
  | arrive {u : UnitId} {taken : List UnitId} {room : ℕ} :
    Straight units k f (2 * min room (behind units u).length + 4) f
      (.running (.arrive 0 f.word u taken room))
  | exchange {last : UInt64} {taken : List UnitId} :
    Straight units k f 2 f (.running (.exchange 0 f.word last taken))
  | done {f' : Frontier} : Straight units k f 1 f' (.running (.done ⟨(f.rest units).take k, 0⟩))
  | returned {f' : Frontier} : Straight units k f 0 f' (.returned ⟨(f.rest units).take k, 0⟩)

namespace Straight

variable {mine : Reply Host.Answer → Prop} {host : (q : Host.Query) → Host.Answer q}
  {here : Option UnitId} {units : List UnitId} {max : BatchSize} {f f' : Frontier}

/-- One move of such a claim. Whoever finds nothing left asks the host nothing. -/
theorem move (hmine : Steady host mine) (hstable : Stable (fun u => host (.nextAlive u)) here units)
    (hcalm : f.word = 0 ∨ ¬MayPanic mine) {n : ℕ} {c : Claim} (hc : c.Sound units max)
    (h : Straight units max.val.toNat f n f' (.running c)) : (c.move max f').Ensures mine
      (fun f'' c' _ => ∃ m < n, Straight units max.val.toNat f m f'' c') f' := by
  cases h with
  | load =>
    rw [Claim.start, Claim.move]
    split
    · next hw =>
      have hnil : ([] : List UnitId) = (f.rest units).take max.val.toNat := by
        rw [rest_of_zero _ hw, List.take_nil]
      refine ⟨1, by omega, ?_⟩
      rw [hnil]
      exact .done
    · next hw =>
      refine ⟨_, ?_, .walk⟩
      rw [rest_of_ne_zero _ hw]
      omega
  | @walk mark taken room =>
    obtain ⟨hseen, hmark, hu, hb, hlen⟩ := hc
    cases room with
    | zero => exact ⟨2, by omega, .exchange⟩
    | succ room =>
      intro a ha
      cases a with
      | error cause => exact absurd ⟨_, _, ha⟩ (hcalm.resolve_left hseen)
      | ok a =>
        have hnext := hmine _ _ ha
        cases a with
        | none => exact ⟨2, by omega, .exchange⟩
        | some v =>
          refine ⟨_, ?_, .arrive⟩
          rw [(behind_of_next_some hstable.chain hu hnext.symm).2, List.length_cons]
          omega
  | @arrive u taken room =>
    obtain ⟨-, hu, -⟩ := hc
    obtain ⟨mark, hmark, -⟩ := Word.exists_succ? (hstable.small u hu)
    have hword : wordOf u = some mark := hmark
    rw [Claim.move, hword]
    refine ⟨_, ?_, .walk⟩
    rw [unitOf_of_wordOf hword]
    omega
  -- Nobody else has moved the frontier, so the exchange goes through.
  | exchange =>
    rw [Claim.move, if_pos rfl, hc.exchange.2.1]
    exact ⟨1, by omega, .done⟩
  | done => exact ⟨0, by omega, .returned⟩

theorem beside {n : ℕ} {f'' : Frontier} {c : Progress Claim Batch} {k : ℕ}
    (hquiet : f.word = 0 ∨ f'' = f') (hlater : Later f' f'') (h : Straight units k f n f' c) :
    Straight units k f n f'' c := by
  have hsame : f' = f → f'' = f := by
    rintro rfl
    rcases hquiet with hw | rfl
    · rw [show f'' = ⟨f''.word⟩ from rfl, show f' = ⟨f'.word⟩ from rfl, hlater hw, hw]
    · rfl
  cases h with
  | load => exact hsame rfl ▸ .load
  | walk => exact hsame rfl ▸ .walk
  | arrive => exact hsame rfl ▸ .arrive
  | exchange => exact hsame rfl ▸ .exchange
  | done => exact .done
  | returned => exact .returned

theorem of_over {n k : ℕ} {c : Progress Claim Batch} (h : Straight units k f n f' c)
    (hover : c.isOver = true ∨ n = 0) : n = 0 ∧ c = .returned ⟨(f.rest units).take k, 0⟩ := by
  cases h with
  | returned => exact ⟨rfl, rfl⟩
  | _ =>
    rcases hover with hover | hover
    · cases hover
    · omega

end Straight

section

variable {ι : Type} {may mine : Reply Host.Answer → Prop} {host : (q : Host.Query) → Host.Answer q}
  {here : Option UnitId} {units : List UnitId} {max : ι → BatchSize}
  {q : Pool ι Host.Answer Frontier Claim Batch}

def straightPace (hmay : Steady host may) (hmine : Steady host mine)
    (hstable : Stable (fun u => host (.nextAlive u)) here units) (max : ι → BatchSize) (i : ι)
    (f : Frontier) (hcalm : f.word = 0 ∨ ¬MayPanic mine) :
    Pace (outline hmay hstable.chain max) mine i where
  place n f' c := ∃ m ≤ 2 * min (max i).val.toNat (f.rest units).length + 4 - n,
    Straight units (max i).val.toNat f m f' c
  quiet e := f.word = 0 ∨ e.after = e.before
  beside := by
    rintro n e c hquiet hlater ⟨m, hm, h⟩
    exact ⟨m, hm, h.beside hquiet hlater⟩
  step := by
    rintro n f' c _ hknows ⟨m, hm, h⟩
    refine (h.move hmine hstable hcalm (Claim.Knows.sound hknows)).mono ?_
    rintro f'' c' _ ⟨m', hlt, h'⟩
    exact ⟨m', by omega, h'⟩
  rests := by
    rintro n f' c hover ⟨m, hm, h⟩
    obtain ⟨rfl, -⟩ := h.of_over (.inl hover)
    exact ⟨0, Nat.zero_le _, h⟩

variable [DecidableEq ι]

theorem returned_of_straight (hmay : Steady host may) (hmine : Steady host mine)
    (hstable : Stable (fun u => host (.nextAlive u)) here units)
    (hq : (outline hmay hstable.chain max).Holds q) (hlive : q.aborted = none)
    (hcalm : q.mem.word = 0 ∨ ¬MayPanic mine) {i : ι} {stale : List UnitId}
    (hi : q.calls i = .running (.start stale)) {more : List (Turn ι Host.Answer)}
    (hmore : ∀ t ∈ more, t.Within may) (hown : ∀ t ∈ more, t.caller = i → t.Within mine)
    (hothers : q.mem.word = 0 ∨
      ∀ e ∈ q.history (claiming max) more, e.caller ≠ i → e.after = e.before)
    (hturns : 2 * min (max i).val.toNat (q.mem.rest units).length + 4 ≤ turnsOf i more) :
    (q.run (claiming max) more).calls i =
      .returned ⟨(q.mem.rest units).take (max i).val.toNat, 0⟩ := by
  have hstart :
      (straightPace hmay hmine hstable max i q.mem hcalm).place 0 q.mem (q.calls i) := by
    rw [hi]
    exact ⟨_, Nat.le_refl _, .load⟩
  obtain ⟨m, hm, h⟩ := Pace.run (fun _ _ c => c.move_ne_abort) hq hlive hstart hmore hown
    fun e he hne => hothers.imp_right fun h => h e he hne
  exact (h.of_over (.inr (by omega))).2

end

/-- How a frontier over `units` stands after the moves `h`, and what becomes of it. -/
structure Stands {ι : Type} [DecidableEq ι] (host : (q : Host.Query) → Host.Answer q)
    (here : Option UnitId) (units : List UnitId) (max : ι → BatchSize)
    (q : Pool ι Host.Answer Frontier Claim Batch) (h : List (Made ι Frontier Claim)) : Prop where
  ends : q.mem.isUsedUp = true ↔ here = none ∨ ∃ e ∈ h, Short max e
  order : handedOut h <+: units.tail
  brought : ∀ e ∈ h, ∀ us, cut e = some us → Claim.brings (q.calls e.caller) = some us
  /-- When the frontier is used up, there is nothing left, now and later. -/
  all : q.mem.isUsedUp = true → handedOut h = units.tail
  closed : q.mem.isUsedUp = true → ∀ more : List (Turn ι Host.Answer), (∀ t ∈ more, t.Agrees host) →
    (q.run (claiming max) more).mem.isUsedUp = true ∧
      ∀ i stale, q.calls i = .running (.start stale) → 4 ≤ turnsOf i more →
        (q.run (claiming max) more).calls i = .returned ⟨[], 0⟩
  last : q.mem.isUsedUp = false → ((handedOut h).getLast?.or here).bind wordOf = some q.mem.word
  /-- A claim that begins now has the units that come next, if nobody else moves the frontier. -/
  next : q.mem.isUsedUp = false → ∀ left, handedOut h ++ left = units.tail →
    ∀ more : List (Turn ι Host.Answer), (∀ t ∈ more, t.Agrees host) →
      ∀ i stale, q.calls i = .running (.start stale) →
        (∀ t ∈ more, t.caller = i → t.Returns host) →
        (∀ e ∈ q.history (claiming max) more, e.caller ≠ i → e.after = e.before) →
        2 * min (max i).val.toNat left.length + 4 ≤ turnsOf i more →
          (q.run (claiming max) more).calls i = .returned ⟨left.take (max i).val.toNat, 0⟩

section

variable {ι : Type} [DecidableEq ι] {host : (q : Host.Query) → Host.Answer q}
  {here : Option UnitId} {units : List UnitId} {f : Frontier} {turns : List (Turn ι Host.Answer)}

omit [DecidableEq ι] in
theorem outline_opening (hstable : Stable (fun u => host (.nextAlive u)) here units)
    (hf : after here = some f) (max : ι → BatchSize) (buffers : ι → Option (List UnitId)) :
    (outline (steady_agreeing host) hstable.chain max).Holds
      (Pool.start f fun i => Claim.opening (buffers i)) := by
  refine Outline.holds_start _ (after_spec hstable.chain hf).1 fun i => ?_
  cases buffers i <;> trivial

theorem cuts_opening (hstable : Stable (fun u => host (.nextAlive u)) here units)
    (hf : after here = some f) (max : ι → BatchSize) (buffers : ι → Option (List UnitId))
    (hturns : ∀ t ∈ turns, t.Agrees host) :
    let p := Pool.start f fun i => Claim.opening (buffers i)
    Cuts here units max (p.run (claiming max) turns) (p.history (claiming max) turns) := by
  intro p
  have hstart : Cuts here units max p [] :=
    ⟨(after_spec hstable.chain hf).2, by simpa [p, Pool.start] using after_word hf, by simp⟩
  exact hstart.run (steady_agreeing host) hstable.chain (outline_opening hstable hf max buffers)
    hturns

theorem used_up_later (hstable : Stable (fun u => host (.nextAlive u)) here units)
    (hf : after here = some f) (max : ι → BatchSize) (buffers : ι → Option (List UnitId))
    (hturns : ∀ t ∈ turns, t.Agrees host) {more : List (Turn ι Host.Answer)}
    (hmore : ∀ t ∈ more, t.Agrees host) :
    let p := Pool.start f fun i => Claim.opening (buffers i)
    (p.run (claiming max) turns).mem.word = 0 →
      ((p.run (claiming max) turns).run (claiming max) more).mem.word = 0 := by
  intro p hw
  have hall : ∀ t ∈ turns ++ more, t.Agrees host :=
    fun t ht => (List.mem_append.1 ht).elim (hturns t) (hmore t)
  have hnow := (cuts_opening hstable hf max buffers hturns).ends
  have hends := (cuts_opening hstable hf max buffers hall).ends
  rw [Pool.run_append, Pool.history_append] at hends
  refine hends.2 ((hnow.1 hw).imp_right ?_)
  rintro ⟨e, he, hshort⟩
  exact ⟨e, List.mem_append_left _ he, hshort⟩

/-- However many claims race for a frontier: it is used up by the first batch that is not a full
one. -/
theorem used_up_after_short_batch (hstable : Stable (fun u => host (.nextAlive u)) here units)
    (hf : after here = some f) (max : ι → BatchSize) (buffers : ι → Option (List UnitId))
    (hturns : ∀ t ∈ turns, t.Agrees host) :
    let p := Pool.start f fun i => Claim.opening (buffers i)
    Stands host here units max (p.run (claiming max) turns) (p.history (claiming max) turns) := by
  intro p
  have hmay := steady_agreeing host
  have hcuts : Cuts here units max (p.run (claiming max) turns) (p.history (claiming max) turns) :=
    cuts_opening hstable hf max buffers hturns
  have hq : (outline hmay hstable.chain max).Holds (p.run (claiming max) turns) :=
    (outline_opening hstable hf max buffers).run hturns
  have hlive : (p.run (claiming max) turns).aborted = none :=
    p.aborted_run (fun _ _ c => c.move_ne_abort) rfl turns
  have hlater : ∀ more : List (Turn ι Host.Answer), (∀ t ∈ more, t.Agrees host) →
      (p.run (claiming max) turns).mem.word = 0 →
        ((p.run (claiming max) turns).run (claiming max) more).mem.word = 0 :=
    fun _ hmore => used_up_later hstable hf max buffers hturns hmore
  generalize p.run (claiming max) turns = q at hcuts hq hlive hlater ⊢
  generalize p.history (claiming max) turns = h at hcuts ⊢
  have hword : q.mem.isUsedUp = true ↔ q.mem.word = 0 := beq_iff_eq
  constructor
  case ends => exact hword.trans hcuts.ends
  case order => exact ⟨_, hcuts.whole⟩
  case brought => exact hcuts.brought
  case all =>
    intro hw
    have hwhole := hcuts.whole
    rwa [rest_of_zero _ (hword.1 hw), List.append_nil] at hwhole
  case closed =>
    intro hw more hmore
    refine ⟨beq_iff_eq.2 (hlater more hmore (hword.1 hw)), fun i stale hi hcount => ?_⟩
    have hnil := rest_of_zero units (hword.1 hw)
    have hreturned := returned_of_straight hmay hmay hstable hq hlive (.inl (hword.1 hw)) hi hmore
      (fun t ht _ => hmore t ht) (.inl (hword.1 hw)) (by simpa [hnil] using hcount)
    simpa [hnil] using hreturned
  case last =>
    intro hw
    have hne : q.mem.word ≠ 0 := by
      intro h0
      rw [hword.2 h0] at hw
      cases hw
    exact hcuts.word_of_last hstable.chain hq.mem hne
  case next =>
    intro hw left hleft more hmore i stale hi hown hothers hcount
    obtain rfl : left = q.mem.rest units :=
      List.append_cancel_left (hleft.trans hcuts.whole.symm)
    exact returned_of_straight hmay (steady_returning host) hstable hq hlive
      (.inr (not_mayPanic_returning host)) hi hmore hown (.inr hothers) hcount

end

/-- Two callers that ask for one unit each have had both units that were left, and still the
frontier is not used up. -/
theorem used_up_after_short_batch_small :
    let max : Fin 3 → BatchSize := fun _ => ⟨1, by decide⟩
    let p : Pool (Fin 3) Host.Answer Frontier Claim Batch :=
      Pool.start ⟨6⟩ fun i => Claim.opening (if i = 0 then none else some [⟨7⟩])
    let turns := calmTurns smallHost (List.replicate 7 0 ++ List.replicate 6 1)
    ((p.run (claiming max) turns).mem.isUsedUp = false ∧
      handedOut (p.history (claiming max) turns) = [⟨2⟩, ⟨9⟩]) ∧
      Stands smallHost (some ⟨5⟩) smallUnits max (p.run (claiming max) turns)
        (p.history (claiming max) turns) := by
  refine ⟨⟨by decide +kernel, by decide +kernel⟩, ?_⟩
  refine used_up_after_short_batch smallUnits_stable rfl _ _ ?_
  intro t ht
  exact (calmTurns_returns smallHost _ t ht).agrees

end PauseCleanup.Frontier
