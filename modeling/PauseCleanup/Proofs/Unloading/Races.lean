import PauseCleanup.Proofs.Frontier.Races
import PauseCleanup.Proofs.NoRescue
import PauseCleanup.Proofs.Pool.Fair
import PauseCleanup.Proofs.Unloading.Containment
/-!
# What the races between workers cost

How often the frontier moves depends on the units and on the size of the batches alone, and each of
its moves can make each of the other workers walk once more.
-/
namespace PauseCleanup.Unloading

open Attempts (own)
open Frontier (Batch Claim)
open Host (Query Answer)
open Pool (Made)
open scoped UInt64.CommRing

namespace Worker

/-- A worker attempts to move the frontier in its claims. -/
def attempts : Attempts Frontier (Tallied Shared) Worker ℕ where
  view t := t.own.frontier
  looks
    | .claim _ c => Claim.attempts.looks c
    | _ => false
  tries
    | .claim _ c => Claim.attempts.tries c
    | _ => false
  seen
    | .running (.claim _ c) => Claim.seen (.running c)
    | _ => none

/-- The walks that a worker has thrown away and not entered into the tally yet. -/
def losses : Progress Worker ℕ → ℕ
  | .running (.claim _ c) => Claim.losses (.running c)
  | _ => 0

variable {may : Reply Answer → Prop} {units : List UnitId} {p : Plan} {id : UInt32}
  {t t' : Tallied Shared} {s : Worker} {c : Progress Worker ℕ}

def claims : Worker → Bool
  | .claim .. => true
  | _ => false

/-- A move outside of the claims: no walk begins or is thrown away. -/
structure Elsewhere (t t' : Tallied Shared) (c : Progress Worker ℕ) : Prop where
  frontier : t'.own.frontier = t.own.frontier
  retries : t'.tally.retries = t.tally.retries
  unseen : attempts.seen c = none
  lossless : losses c = 0

theorem move_elsewhere (p : Plan) (t : Tallied Shared) (hs : s.claims = false) :
    (s.move p t).Ensures may (fun t' c _ => Elsewhere t t' c) t := by
  cases s with
  | start id' =>
    simp only [move]
    split <;> exact ⟨rfl, rfl, rfl, rfl⟩
  | enter id' =>
    show Elsewhere t _ (.running (afterEnter p id'))
    unfold afterEnter
    split
    · split <;> exact ⟨rfl, rfl, rfl, rfl⟩
    · exact ⟨rfl, rfl, rfl, rfl⟩
  | first u attempt =>
    cases attempt with
    | look => exact ⟨rfl, rfl, rfl, rfl⟩
    | exchange => exact ⟨rfl, rfl, rfl, rfl⟩
    | done won => cases won <;> exact ⟨rfl, rfl, rfl, rfl⟩
  | buffer total =>
    simp only [move]
    split <;> exact ⟨rfl, rfl, rfl, rfl⟩
  | claim total c => cases hs
  | unload total us opened =>
    cases us with
    | nil => cases opened <;> exact ⟨rfl, rfl, rfl, rfl⟩
    | cons u us =>
      intro a _
      cases a <;> exact ⟨rfl, rfl, rfl, rfl⟩
  | _ => exact ⟨rfl, rfl, rfl, rfl⟩

theorem attempts_elsewhere (hs : s.claims = false) :
    attempts.looks s = false ∧ attempts.tries s = false ∧ losses (.running s) = 0 := by
  cases s with
  | claim total c => cases hs
  | _ => exact ⟨rfl, rfl, rfl⟩

theorem goes (hs : Knows may units p id t.own (.running s)) : (s.move p t).Ensures may
    (fun t' c _ => attempts.Goes (Frontier.stock units) t s t' c) t := by
  cases hclaims : s.claims with
  | false =>
    obtain ⟨hlooks, htries, -⟩ := attempts_elsewhere hclaims
    refine (move_elsewhere p t hclaims).mono fun t' c _ h => ?_
    exact .keep hlooks htries h.frontier fun v hv => absurd (h.unseen.symm.trans hv) (by simp)
  | true =>
    cases s with
    | claim total c =>
      refine (Claim.goes hs.2.sound).lift rfl ?_ ?_ ?_
      · exact fun f c' l hg => hg.lift rfl rfl rfl rfl rfl fun v hv => hv
      · intro b hg
        refine hg.lift rfl rfl rfl rfl rfl fun v hv => ?_
        split at hv <;> cases hv
      · exact fun cause l hg => hg.lift rfl rfl rfl rfl rfl fun v hv => by cases hv
    | _ => cases hclaims

/-- A move of the frontier leaves one less to be made. -/
theorem move_cuts {host : (q : Query) → Answer q} {here : Option UnitId} (hmay : Steady host may)
    (hchain : Chain (fun u => host (.nextAlive u)) here units) (hf : t.own.frontier.Valid units)
    (hs : Knows may units p id t.own (.running s)) : (s.move p t).Ensures may
      (fun t' _ _ => t'.own.frontier = t.own.frontier ∨
        t'.own.frontier.cuts units p.batch.val.toNat + 1 =
          t.own.frontier.cuts units p.batch.val.toNat) t := by
  cases hclaims : s.claims with
  | false => exact (move_elsewhere p t hclaims).mono fun _ _ _ h => .inl h.frontier
  | true =>
    cases s with
    | claim total c =>
      refine (Claim.move_ensures hmay hchain hf hs.2).lift rfl ?_ ?_ ?_
      · exact fun f c' l h => h.yields.cuts_eq hs.2.sound
      · exact fun b h => .inl rfl
      · exact fun cause l h => .inl rfl
    | _ => cases hclaims

theorem counts_losses {ι : Type} (i : ι) (hs : Knows may units p id t.own (.running s)) :
    (s.move p t).Ensures may (fun t' c _ => (∀ cause, c ≠ .panicked cause) →
      t'.tally.retries + .ofNat (losses c) = t.tally.retries + .ofNat (losses (.running s)) +
        if attempts.fails ⟨i, s, t, t'⟩ then 1 else 0) t := by
  cases hclaims : s.claims with
  | false =>
    obtain ⟨-, htries, hnone⟩ := attempts_elsewhere hclaims
    refine (move_elsewhere p t hclaims).mono fun t' c _ h _ => ?_
    have hfails : attempts.fails (⟨i, s, t, t'⟩ : Made ι (Tallied Shared) Worker) = false := by
      simp [Attempts.fails, htries]
    rw [h.retries, h.lossless, hnone, hfails]
    simp
  | true =>
    cases s with
    | claim total c =>
      have hword : ∀ {n : ℕ} {b : Bool}, n = Claim.losses (.running c) + (if b then 1 else 0) →
          t.tally.retries + .ofNat n =
            t.tally.retries + .ofNat (losses (.running (.claim total c))) + if b then 1 else 0 := by
        rintro _ b rfl
        cases b <;> simp [losses, UInt64.ofNat_add, add_assoc]
      refine (Claim.counts_losses i hs.2.sound).lift rfl ?_ ?_ ?_
      · exact fun f c' l h _ => hword (h (by simp))
      · intro b h _
        have hnone : losses (.running (if b.units = [] then .done total else .batch total b.units))
            = 0 := by
          split <;> rfl
        rw [hnone]
        exact (add_zero _).trans (hword (h (by simp)))
      · exact fun cause l h hcalm => absurd rfl (hcalm cause)
    | _ => cases hclaims

end Worker

/-- How often the frontier moves until an unloading of `n` units is done. -/
def Plan.cuts (p : Plan) (n : ℕ) : ℕ := if n = 0 then 0 else (n - 1) / p.batch.val.toNat + 1

theorem Opened.cuts {host : (q : Query) → Answer q} {units : List UnitId} {r : Request}
    {plan : Plan} {shared : Shared} (h : Opened host units r plan shared)
    (hchain : Chain (fun u => host (.nextAlive u)) (host .firstAlive) units) :
    shared.frontier.cuts units plan.batch.val.toNat = plan.cuts units.length := by
  obtain ⟨-, f, hf, rfl⟩ := h
  have hrest := (Frontier.after_spec hchain hf).2
  generalize host .firstAlive = here at hchain hf
  cases hchain with
  | nil =>
    cases hf
    rfl
  | @cons u us _ =>
    obtain ⟨w, hw, rfl⟩ := Option.map_eq_some_iff.1 hf
    show Frontier.cuts _ _ ⟨w⟩ = _
    rw [Frontier.cuts, if_neg (Frontier.ne_zero_of_wordOf hw), hrest, Plan.cuts,
      if_neg (by simp), List.length_tail]

theorem sum_map_word {α : Type} (p : α → Bool) (l : List α) :
    (l.map fun x => if p x then (1 : UInt64) else 0).sum = .ofNat (l.countP p) := by
  induction l with
  | nil => rfl
  | cons x l ih =>
    rw [List.map_cons, List.sum_cons, ih, List.countP_cons, UInt64.ofNat_add, add_comm]
    split <;> rfl

section

variable {ι : Type} [DecidableEq ι] {may : Reply Answer → Prop} {host : (q : Query) → Answer q}
  {here : Option UnitId} {units : List UnitId} {plan : Plan} {ids : ι → UInt32}
  {t : Tallied Shared} {turns : List (Turn ι Answer)}

def workHistory (p : Plan) (t : Tallied Shared) (ids : ι → UInt32) (turns : List (Turn ι Answer)) :
    List (Made ι (Tallied Shared) Worker) :=
  (Pool.start t fun i => Worker.start (ids i)).history (fun _ => Worker.move p) turns

/-- Each move of the frontier was one of those that there were to be made. -/
theorem changes_add_cuts (plan : Plan) (ids : ι → UInt32) (hmay : Steady host may)
    (hchain : Chain (fun u => host (.nextAlive u)) here units) (hvalid : t.own.frontier.Valid units)
    (hturns : ∀ t ∈ turns, t.Within may) :
    (workHistory plan t ids turns).countP Worker.attempts.changes +
        (work plan t ids turns).mem.own.frontier.cuts units plan.batch.val.toNat =
      t.own.frontier.cuts units plan.batch.val.toNat := by
  have hstart := workers_start plan ids t hmay hchain hvalid
  refine hstart.history_induction (fun _ m s => (s.plain plan m).ne_abort)
    (fun hm hs => Worker.move_cuts hmay hchain hm hs.1.1)
    (P := fun q past => past.countP Worker.attempts.changes +
      q.mem.own.frontier.cuts units plan.batch.val.toNat =
        t.own.frontier.cuts units plan.batch.val.toNat) (Nat.zero_add _) ?_ hturns
  intro q past i s m c l _ hq _ hcuts
  let e : Made ι (Tallied Shared) Worker := ⟨i, s, q.mem, m⟩
  rw [List.countP_append, List.countP_singleton]
  show _ + m.own.frontier.cuts units _ = _
  rcases hcuts with hsame | hless
  · have hchanges : Worker.attempts.changes e = false := Attempts.changes_of_still hsame
    rw [hchanges, hsame]
    exact hq
  · have hchanges : Worker.attempts.changes e = true :=
      Attempts.changes_of_down (Frontier.cuts units plan.batch.val.toNat)
        (hless ▸ Nat.lt_succ_self _)
    rw [hchanges, if_pos rfl, add_assoc, add_comm 1, hless]
    exact hq

theorem work_accounted (hmay : Steady host may)
    (hchain : Chain (fun u => host (.nextAlive u)) here units) (hvalid : t.own.frontier.Valid units)
    (hturns : ∀ t ∈ turns, t.Within may) (i : ι) :
    Worker.attempts.Accounted (Frontier.stock units) i (workHistory plan t ids turns)
      (work plan t ids turns).mem ((work plan t ids turns).calls i) :=
  (workers_start plan ids t hmay hchain hvalid).accounted
    (fun _ m s => (s.plain plan m).ne_abort) Worker.attempts (Frontier.stock units)
    (fun _ hs => Worker.goes hs.1.1) (fun _ => rfl) hturns i

variable [Fintype ι]

/-- The exchanges in vain that were entered, together with those that are still to be. -/
def retryWeights : Weights Answer (Tallied Shared) Worker ℕ UInt64 where
  mem t := t.tally.retries
  call c := .ofNat (Worker.losses c)
  reply _ := 0

theorem retries_eq (hmay : Steady host may)
    (hchain : Chain (fun u => host (.nextAlive u)) here units) (hvalid : t.own.frontier.Valid units)
    (hturns : ∀ t ∈ turns, t.Within may)
    (hreturned : ∀ i, ∃ total, (work plan t ids turns).calls i = .returned total) :
    (work plan t ids turns).mem.tally.retries = t.tally.retries +
      .ofNat (∑ i, Worker.attempts.overtaken i (workHistory plan t ids turns)) := by
  have hstart := workers_start plan ids t hmay hchain hvalid
  have hcalm : ∀ i cause, (work plan t ids turns).calls i ≠ .panicked cause := by
    intro i cause hc
    obtain ⟨total, hi⟩ := hreturned i
    rw [hi] at hc
    cases hc
  have htotal := retryWeights.total_history
    (fun e => if Worker.attempts.fails e then 1 else 0) hstart
    (fun _ m s => (s.plain plan m).ne_abort) (fun {i m s} _ hs => by
      refine (Worker.counts_losses i hs.1.1).mono fun m' c l h hcalm => ?_
      simpa [retryWeights] using h hcalm) hturns hcalm
  have hbefore :
      retryWeights.total (Pool.start t fun i => Worker.start (ids i)) = t.tally.retries := by
    rw [Weights.total_start]
    exact (congrArg _ (Finset.sum_eq_zero fun i _ => rfl)).trans (add_zero _)
  have hafter : retryWeights.total (work plan t ids turns) =
      (work plan t ids turns).mem.tally.retries := by
    have hcalls : ∑ i, retryWeights.call ((work plan t ids turns).calls i) = 0 :=
      Finset.sum_eq_zero fun i _ => by
        obtain ⟨total, hi⟩ := hreturned i
        rw [hi]
        rfl
    have hreplies : ((work plan t ids turns).log.map retryWeights.reply).sum = 0 :=
      List.sum_map_zero
    -- Whoever has returned has entered its losses, so all of them stand in the tally.
    rw [Weights.total, hcalls, hreplies, add_zero, add_zero]
    rfl
  have hfails : (workHistory plan t ids turns).countP Worker.attempts.fails =
      ∑ i, Worker.attempts.overtaken i (workHistory plan t ids turns) := by
    rw [← Attempts.sum_countP_own]
    exact Finset.sum_congr rfl fun i _ => (work_accounted hmay hchain hvalid hturns i).failures
  rw [← hafter, ← hbefore, ← hfails, ← sum_map_word]
  exact htotal

/-- What the races between workers have cost once all of them have returned: `h` are the moves by
which they unloaded `n` units. -/
structure Cost (p : Plan) (n : ℕ) (before after : Tally)
    (h : List (Made ι (Tallied Shared) Worker)) : Prop where
  changes : h.countP Worker.attempts.changes = p.cuts n
  exchanges : ∀ i, Worker.attempts.exchanges i h ≤ p.cuts n
  retries : after.retries = before.retries + .ofNat (∑ i, Worker.attempts.overtaken i h)
  bounded : ∑ i, Worker.attempts.overtaken i h ≤ (Fintype.card ι - 1) * p.cuts n

variable {r : Request} {shared : Shared}

theorem returned_cost [Nonempty ι] (hmay : Steady host may)
    (hchain : Chain (fun u => host (.nextAlive u)) (host .firstAlive) units)
    (hopened : Opened host units r plan shared) (tally : Tally) (hturns : ∀ t ∈ turns, t.Within may)
    (hreturned : ∀ i, ∃ total, (work plan ⟨shared, tally⟩ ids turns).calls i = .returned total) :
    Cost plan units.length tally (work plan ⟨shared, tally⟩ ids turns).mem.tally
      (workHistory plan ⟨shared, tally⟩ ids turns) := by
  have hvalid := (hopened.owes hchain).1
  have hword : (work plan ⟨shared, tally⟩ ids turns).mem.own.frontier.word = 0 := by
    obtain ⟨i⟩ := ‹Nonempty ι›
    obtain ⟨total, hi⟩ := hreturned i
    have hcall := ((workers_start plan ids ⟨shared, tally⟩ hmay hchain hvalid).run hturns).call i
    rw [← work, hi] at hcall
    exact hcall.1.1.2
  have hchanges : (workHistory plan ⟨shared, tally⟩ ids turns).countP Worker.attempts.changes =
      plan.cuts units.length := by
    have hall := changes_add_cuts plan ids hmay hchain (t := ⟨shared, tally⟩) hvalid hturns
    rwa [hopened.cuts hchain, Frontier.cuts, if_pos hword, add_zero] at hall
  refine ⟨hchanges, fun i => ?_, retries_eq hmay hchain hvalid hturns hreturned, ?_⟩
  · rw [← hchanges]
    exact (work_accounted hmay hchain hvalid hturns i).exchanges_le
  · rw [← hchanges]
    exact Worker.attempts.sum_overtaken_le _

theorem workers_end (hmay : Steady host may)
    (hchain : Chain (fun u => host (.nextAlive u)) here units) (hvalid : t.own.frontier.Valid units)
    {schedule : ℕ → Turn ι Answer} (hfair : Pool.Fair schedule)
    (hturns : ∀ n, (schedule n).Within may) :
    ∃ n, (work plan t ids (Pool.upTo schedule n)).AllOver := by
  have hsuits : (Worker.descent units plan).Suits (workers hmay hchain plan ids) :=
    fun _ _ _ _ hs => Worker.descends hs.1.1
  exact Pool.ends_of_fair hsuits (workers_start plan ids t hmay hchain hvalid) rfl hturns hfair

end

/-- Races that were lost are accounted for. The count of a claim is the number of its attempts that
others have overtaken; the workers of an unloading move its frontier a fixed number of times, and
what they enter for walks in vain is bounded by it; and all of them come to their ends. -/
theorem lost_races_are_accounted_for {host : (q : Query) → Answer q} {units : List UnitId}
    (hunits : Stable (fun u => host (.nextAlive u)) (host .firstAlive) units) :
    (∀ {κ : Type} [DecidableEq κ] {f : Frontier}, Frontier.after (host .firstAlive) = some f →
      ∀ (max : κ → BatchSize) (stale : κ → List UnitId) (turns : List (Turn κ Answer)),
        (∀ t ∈ turns, t.Agrees host) →
        let p := Pool.start f fun i => Claim.start (stale i)
        ∀ i b, (p.run (Frontier.claiming max) turns).calls i = .returned b →
          Frontier.Tells (p.history (Frontier.claiming max) turns) i b.lost) ∧
    ∀ (r : Request) {plan : Plan} {shared : Shared} {opening : List (Turn Unit Answer)},
      (∀ t ∈ opening, t.Agrees host) →
      (Pool.alone (fun _ => Opening.move r) () .start opening).calls () =
        .returned (plan, shared) →
      ∀ {ι : Type} [DecidableEq ι] [Fintype ι] [Nonempty ι] (ids : ι → UInt32) (tally : Tally),
        (∀ turns : List (Turn ι Answer), (∀ t ∈ turns, t.Agrees host) →
          (∀ i, ∃ total, (work plan ⟨shared, tally⟩ ids turns).calls i = .returned total) →
          Cost plan units.length tally (work plan ⟨shared, tally⟩ ids turns).mem.tally
            (workHistory plan ⟨shared, tally⟩ ids turns)) ∧
        ∀ schedule : ℕ → Turn ι Answer, Pool.Fair schedule → (∀ n, (schedule n).Agrees host) →
          ∃ n, (work plan ⟨shared, tally⟩ ids (Pool.upTo schedule n)).AllOver := by
  have hmay := steady_agreeing host
  refine ⟨fun hf max stale turns hturns i b hb => ?_,
    fun r _ _ _ hopening hopen _ _ _ _ ids tally => ?_⟩
  · exact Frontier.returned_tells hmay hunits.chain hf max stale hturns hb
  · have hopened := Opening.returned_opened hmay hunits.chain hopening hopen
    refine ⟨fun turns hturns hreturned => ?_, fun schedule hfair hturns => ?_⟩
    · exact returned_cost hmay hunits.chain hopened tally hturns hreturned
    · exact workers_end hmay hunits.chain (hopened.owes hunits.chain).1 hfair hturns

theorem lost_races_are_accounted_for_small :
    (let max : Fin 2 → BatchSize := fun i => if i = 0 then .ofWord 1 else .ofWord 2
      let p : Pool (Fin 2) Answer Frontier Claim Batch :=
        Pool.start ⟨6⟩ fun _ => Claim.start []
      let turns := calmTurns smallHost [0, 0, 0, 0, 1, 1, 1, 1, 1, 1, 1, 1, 0, 0, 0, 0, 0]
      Frontier.Tells (p.history (Frontier.claiming max) turns) 0 1) ∧
    (let turns := calmTurns smallHost (List.replicate 4 0 ++ (List.replicate 30 [0, 1]).flatten)
      let after := (work smallPlan ⟨{ frontier := ⟨6⟩ }, {}⟩ ![0, 1] turns).mem.tally
      after.retries = 2 ∧ Cost smallPlan 3 {} after
        (workHistory smallPlan ⟨{ frontier := ⟨6⟩ }, {}⟩ ![0, 1] turns)) ∧
    ∃ n, (work smallPlan ⟨{ frontier := ⟨6⟩ }, {}⟩ ![0, 1]
      (Pool.upTo (fun n => ⟨Fin.ofNat 2 n, fun q => .ok (smallHost q)⟩) n)).AllOver := by
  obtain ⟨hclaims, hworkers⟩ := lost_races_are_accounted_for smallUnits_stable
  obtain ⟨hcost, hends⟩ := hworkers smallRequest
    (fun t ht => (calmTurns_returns smallHost (List.replicate 8 ()) t ht).agrees) rfl ![0, 1] {}
  refine ⟨?_, ⟨by decide +kernel, ?_⟩, ?_⟩
  · refine hclaims rfl _ _ _ (fun t ht => (calmTurns_returns smallHost _ t ht).agrees) 0 ⟨[], 1⟩ ?_
    rfl
  · refine hcost _ (fun t ht => (calmTurns_returns smallHost _ t ht).agrees) ?_
    exact Fin.forall_fin_two.2 ⟨⟨_, rfl⟩, ⟨_, rfl⟩⟩
  · refine hends _ (fun i n => ⟨2 * n + i, by omega, ?_⟩) fun n q => .inl rfl
    show Fin.ofNat 2 (2 * n + i) = i
    ext
    simp only [Fin.ofNat]
    omega

end PauseCleanup.Unloading
