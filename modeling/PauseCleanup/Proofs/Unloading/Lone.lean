import PauseCleanup.Proofs.SequenceOrder
import PauseCleanup.Proofs.Descents
import PauseCleanup.Proofs.Pass.Subtotals
import PauseCleanup.Proofs.Pool.Fair
import PauseCleanup.Proofs.Pool.Heard
import PauseCleanup.Proofs.Unloading.Containment
/-!
# A lone worker beside the plain loop

A worker that is alone unloads the units of the plain loop in the same order, whatever the size of
its batches; but a buffer for too many units cannot be had.
-/
namespace PauseCleanup.Unloading

open Host (Query Answer)
open Frontier (Claim)

def unloadCalls (l : List (Reply Answer)) : List Query := (l.map (·.1)).filter (·.isUnload)

theorem unloadCalls_append (l l' : List (Reply Answer)) :
    unloadCalls (l ++ l') = unloadCalls l ++ unloadCalls l' := by
  simp [unloadCalls]

theorem unloadCalls_of_next {l : List (Reply Answer)} (h : ∀ r ∈ l, ∃ u, r.1 = .nextAlive u) :
    unloadCalls l = [] := by
  rw [unloadCalls, List.filter_eq_nil_iff]
  intro q hq
  obtain ⟨r, hr, rfl⟩ := List.mem_map.1 hq
  obtain ⟨u, hu⟩ := h r hr
  simp [hu, Query.isUnload]

/-- The plain loop over the alive units. -/
inductive Traversal
  | start
  | visit (here : Option UnitId)
  | visited (unit : UnitId)

namespace Traversal

def move (pass : PassId) (unloading : Bool) : Traversal → HostMove Unit Traversal Unit
  | .start => .ask .firstAlive .visit
  | .visit (some u) => .ask (.unload u pass unloading) fun _ => .visited u
  | .visited u => .ask (.nextAlive u) .visit
  | .visit none => .finish ()

variable {host : (q : Query) → Answer q} {pass : PassId} {unloading : Bool}
  {p : Pool Unit Answer Unit Traversal Unit}

theorem turn_of_ask (pass : PassId) (unloading : Bool) {s : Traversal} {q : Query}
    {resume : Answer q → Traversal} (hmove : s.move pass unloading = .ask q resume)
    (ha : p.aborted = none) (hs : p.calls () = .running s) {t : Turn Unit Answer}
    (ht : t.Returns host) :
    let p' := p.turn (fun _ _ => move pass unloading) t
    p'.aborted = none ∧ p'.calls () = .running (resume (host q)) ∧
      p'.log = p.log ++ [⟨q, .ok (host q)⟩] := by
  have hturn := Pool.turn_of_running (fun _ _ => move pass unloading) p (t := t) ha hs
  rw [hmove] at hturn
  intro p'
  rw [show p' = _ from hturn]
  exact ⟨ha, by simp [Pool.apply, Pool.put, ht q, Pool.resumed],
    by simp [Pool.apply, Pool.log, ht q, Asked.toReply]⟩

theorem visit_unloads {here : Option UnitId} {units : List UnitId}
    (hchain : Chain (fun u => host (.nextAlive u)) here units) (ha : p.aborted = none)
    (hp : p.calls () = .running (.visit here)) {turns : List (Turn Unit Answer)}
    (hturns : ∀ t ∈ turns, t.Returns host) (hlen : 2 * units.length < turns.length) :
    (p.run (fun _ _ => move pass unloading) turns).calls () = .returned () ∧
      unloadCalls (p.run (fun _ _ => move pass unloading) turns).log =
        unloadCalls p.log ++ units.map fun u => .unload u pass unloading := by
  induction hchain generalizing p turns with
  | nil =>
    obtain ⟨t, turns, rfl⟩ := List.exists_cons_of_length_pos (Nat.zero_lt_of_lt hlen)
    have hturn : p.turn (fun _ _ => move pass unloading) t = p.put () (.returned ()) :=
      Pool.turn_of_running _ p ha hp
    have hover : (p.put () (.returned ())).AllOver := fun _ => by simp [Pool.put, Progress.isOver]
    rw [Pool.run_cons, hturn, Pool.Ended.run (.inr hover)]
    simp [Pool.put, Pool.log]
  | @cons u us _ ih =>
    rw [List.length_cons] at hlen
    obtain ⟨t, turns, rfl⟩ := List.exists_cons_of_length_pos (Nat.zero_lt_of_lt hlen)
    rw [List.length_cons] at hlen
    obtain ⟨t', turns, rfl⟩ : ∃ t' more, turns = t' :: more :=
      List.exists_cons_of_length_pos (by omega)
    obtain ⟨ha, hp, hlog⟩ := turn_of_ask pass unloading rfl ha hp (hturns t (by simp))
    obtain ⟨ha', hp', hlog'⟩ := turn_of_ask pass unloading rfl ha hp (hturns t' (by simp))
    have hrest : ∀ t ∈ turns, t.Returns host := fun t ht => hturns t (by simp [ht])
    rw [List.length_cons] at hlen
    rw [Pool.run_cons, Pool.run_cons]
    obtain ⟨hover, hcalls⟩ := ih ha' hp' hrest (by omega)
    refine ⟨hover, ?_⟩
    rw [hcalls, hlog', hlog]
    simp [unloadCalls, Query.isUnload]

/-- The loop unloads the whole sequence in its order. -/
theorem alone_unloads {units : List UnitId} (pass : PassId) (unloading : Bool)
    (hchain : Chain (fun u => host (.nextAlive u)) (host .firstAlive) units)
    {turns : List (Turn Unit Answer)} (hturns : ∀ t ∈ turns, t.Returns host)
    (hlen : 2 * units.length + 1 < turns.length) :
    let p := Pool.alone (fun _ => move pass unloading) () .start turns
    p.calls () = .returned () ∧
      unloadCalls p.log = units.map fun u => .unload u pass unloading := by
  obtain ⟨t, turns, rfl⟩ := List.exists_cons_of_length_pos (Nat.zero_lt_of_lt hlen)
  have hstart : (Pool.start () fun _ => Traversal.start : Pool Unit Answer _ _ Unit).calls () =
      .running .start := rfl
  obtain ⟨ha, hp, hlog⟩ := turn_of_ask pass unloading rfl rfl hstart (hturns t (by simp))
  have hrest : ∀ t ∈ turns, t.Returns host := fun t ht => hturns t (by simp [ht])
  rw [List.length_cons] at hlen
  obtain ⟨hover, hcalls⟩ := visit_unloads hchain ha hp hrest (by omega)
  refine ⟨hover, hcalls.trans ?_⟩
  rw [hlog]
  simp [unloadCalls, Query.isUnload]

end Traversal

def Plan.calls (p : Plan) (us : List UnitId) : List Query :=
  us.map fun u => .unload u p.pass p.unloading

namespace Worker

/-- While a worker is about to win the first unit, nobody has it. -/
def Unspent (m : Shared) : Progress Worker ℕ → Prop
  | .running (.start _) | .running (.enter _) => m.first.taken = false
  | .running (.first _ (.done won)) => won = true
  | .running (.first _ _) => m.first.taken = false
  | _ => True

def Buffered : Progress Worker ℕ → Prop
  | .running (.claim ..) | .running (.batch ..) | .running (.done _) | .returned _ => True
  | .running (.unload _ _ opened) => opened = true
  | .running (.count _ _ opened) => opened = true
  | .running (.tally _ _ opened) => opened = true
  | _ => False

variable {host : (q : Query) → Answer q} {here : Option UnitId} {units : List UnitId} {p : Plan}
  {t t' : Tallied Shared} {s : Worker} {c : Progress Worker ℕ} {l : List (Reply Answer)}

/-- One move of a worker that is alone: the units it has ahead of it stay in line, and it only
panics for want of a buffer. -/
structure Proceeds (units : List UnitId) (p : Plan) (t : Tallied Shared) (s : Worker)
    (t' : Tallied Shared) (c : Progress Worker ℕ) (l : List (Reply Answer)) : Prop where
  unspent : Unspent t'.own c
  line : unloadCalls l ++ p.calls (ahead p c ++ t'.own.frontier.rest units) =
    p.calls (ahead p (.running s) ++ t.own.frontier.rest units)
  buffered : Buffered c → Buffered (.running s) ∨ p.batch.fitsMemory = true
  unbuffered : ¬Buffered c → ¬Buffered (.running s) ∧ t'.own.frontier = t.own.frontier
  cause : ∀ cause, c = .panicked cause →
    cause = .fault .bufferTooLarge ∧ p.batch.fitsMemory = false

theorem Proceeds.still (hfrontier : t'.own.frontier = t.own.frontier) (hc : Unspent t'.own c)
    (hahead : ahead p c = ahead p (.running s)) (hbuffer : Buffered c ↔ Buffered (.running s))
    (hcalm : ∀ cause, c ≠ .panicked cause) : Proceeds units p t s t' c [] where
  unspent := hc
  line := by
    rw [hfrontier, hahead]
    rfl
  buffered h := .inl (hbuffer.1 h)
  unbuffered h := ⟨fun hs => h (hbuffer.2 hs), hfrontier⟩
  cause cause h := absurd h (hcalm cause)

/-- A worker that has its buffer keeps it. -/
theorem Proceeds.of_buffered (hs : Buffered (.running s)) (hc : Buffered c)
    (hunspent : Unspent t'.own c)
    (hline : unloadCalls l ++ p.calls (ahead p c ++ t'.own.frontier.rest units) =
      p.calls (ahead p (.running s) ++ t.own.frontier.rest units))
    (hcalm : ∀ cause, c ≠ .panicked cause) : Proceeds units p t s t' c l where
  unspent := hunspent
  line := hline
  buffered _ := .inl hs
  unbuffered h := absurd hc h
  cause cause h := absurd h (hcalm cause)

theorem claim_proceeds (hchain : Chain (fun u => host (.nextAlive u)) here units)
    (hsmall : ∀ u ∈ units, u.index.toNat < 18446744073709551615)
    (hf : t.own.frontier.Valid units) (hfits : p.batch.fitsMemory = true) {total : ℕ} {c : Claim}
    (hc : Claim.Knows (returning host) units p.batch t.own.frontier (.running c)) :
    ((Worker.claim total c).move p t).Ensures (returning host)
      (fun t' c' l => Proceeds units p t (.claim total c) t' c' l) t := by
  have hmove := (Claim.move_ensures (steady_returning host) hchain hf hc).and (c.asks_next _ _)
  refine hmove.lift rfl ?_ ?_ ?_
  · intro f next l h
    have hnothing : unloadCalls l = [] := unloadCalls_of_next h.2
    have hrest := h.1.yields.rest_eq hc.sound
    refine .of_buffered trivial trivial trivial ?_ (by simp)
    rw [hnothing]
    exact congrArg p.calls hrest
  · intro b h
    have hline := congrArg p.calls (h.1.yields.rest_eq hc.sound)
    by_cases hb : b.units = []
    · -- The worker is done, and the batch that it brought home has nothing to be unloaded.
      rw [Claim.held, Claim.brings, Option.getD_some, hb] at hline
      simp only [hb, if_true]
      exact .of_buffered trivial trivial trivial hline (by simp)
    · simp only [hb, if_false]
      exact .of_buffered trivial trivial trivial hline (by simp)
  · intro cause l h
    rcases h.1.knows with hpanic | hnone | ⟨u, hu, hword⟩
    · exact absurd hpanic (not_mayPanic_returning host)
    · rw [hfits] at hnone
      cases hnone
    · have hlast := Word.succ?_eq_none_iff.1 hword
      exact absurd (hsmall u hu) (by omega)

theorem move_proceeds (hchain : Chain (fun u => host (.nextAlive u)) here units)
    (hsmall : ∀ u ∈ units, u.index.toNat < 18446744073709551615)
    (hf : t.own.frontier.Valid units) (hworkers : 0 < p.workers)
    (hs : Knows (returning host) units p 0 t.own (.running s)) (hspent : Unspent t.own (.running s))
    (hbuffer : Buffered (.running s) → p.batch.fitsMemory = true) :
    (s.move p t).Ensures (returning host) (fun t' c l => Proceeds units p t s t' c l) t := by
  cases s with
  | start id =>
    obtain rfl : id = 0 := hs
    simp only [move, if_pos hworkers]
    exact .still rfl hspent rfl .rfl (by simp)
  | enter id =>
    obtain rfl : id = 0 := hs
    cases hp : p.first with
    | none =>
      have he : afterEnter p 0 = .buffer 0 := by simp [afterEnter, hp]
      simp only [move, he]
      exact .still rfl trivial (by simp [ahead, hp]) .rfl (by simp)
    | some u =>
      have he : afterEnter p 0 = .first u .look := by simp [afterEnter, hp]
      simp only [move, he]
      exact .still rfl hspent (by simp [ahead, hp]) .rfl (by simp)
  | first u attempt =>
    cases attempt with
    | look =>
      have hfree : t.own.first.taken = false := hspent
      simp only [move, OneShot.Try.move_look, hfree, Bool.false_eq_true, if_false]
      exact .still rfl hspent rfl .rfl (by simp)
    | exchange =>
      have hfree : t.own.first.taken = false := hspent
      simp only [move, OneShot.Try.move_exchange, hfree]
      exact .still rfl rfl rfl .rfl (by simp)
    | done won =>
      obtain rfl : won = true := hspent
      exact .still rfl trivial rfl ⟨Bool.false_ne_true, False.elim⟩ (by simp)
  | buffer total =>
    cases hfits : p.batch.fitsMemory with
    | true =>
      simp only [move, hfits, if_true]
      have hbuffered : Buffered (.running (.claim total .start)) := trivial
      exact {
        unspent := trivial
        line := rfl
        buffered := fun _ => .inr hfits
        unbuffered := fun h => absurd hbuffered h
        cause := by simp }
    | false =>
      simp only [move, hfits, Bool.false_eq_true, if_false]
      have hunbuffered : ¬Buffered (.running (.buffer total)) := id
      exact {
        unspent := trivial
        line := rfl
        buffered := False.elim
        unbuffered := fun _ => ⟨hunbuffered, rfl⟩
        cause := fun _ h => ⟨(Progress.panicked.inj h).symm, hfits⟩ }
  | claim total c => exact claim_proceeds hchain hsmall hf (hbuffer trivial) hs.2
  | unload total us opened =>
    cases us with
    | nil =>
      simp only [move]
      cases opened with
      | true => exact .still rfl trivial rfl ⟨fun _ => rfl, fun _ => trivial⟩ (by simp)
      | false => exact .still rfl trivial rfl ⟨False.elim, Bool.false_ne_true⟩ (by simp)
    | cons u us =>
      intro a ha
      obtain rfl : a = .ok () := ha
      exact {
        unspent := trivial
        line := rfl
        buffered := .inl
        unbuffered := fun h => ⟨h, rfl⟩
        cause := fun _ hc => by cases hc }
  | batch total us => exact .still rfl trivial rfl ⟨fun _ => trivial, fun _ => rfl⟩ (by simp)
  | count total us opened => exact .still rfl trivial rfl .rfl (by simp)
  | tally total us opened => exact .still rfl trivial rfl .rfl (by simp)
  | done total => exact .still rfl trivial rfl .rfl (by simp)

/-- The story of a worker that is alone. -/
structure Story (host : (q : Query) → Answer q) (units : List UnitId) (p : Plan)
    (log : List (Reply Answer)) (t : Tallied Shared) (c : Progress Worker ℕ) : Prop where
  valid : t.own.frontier.Valid units
  knows : Knows (returning host) units p 0 t.own c
  unspent : Unspent t.own c
  line : unloadCalls log ++ p.calls (ahead p c ++ t.own.frontier.rest units) = p.calls units
  total : (∀ cause, c ≠ .panicked cause) → subtotal c = (unloadCalls log).length
  buffered : Buffered c → p.batch.fitsMemory = true
  unbuffered : ¬Buffered c → t.own.frontier.rest units = units.tail
  cause : ∀ cause, c = .panicked cause →
    cause = .fault .bufferTooLarge ∧ p.batch.fitsMemory = false

theorem unloadings_eq_length (h : ∀ r ∈ l, returning host r) :
    unloadings l = (unloadCalls l).length := by
  rw [unloadings, unloadCalls, ← List.countP_eq_length_filter, List.countP_map]
  refine List.countP_congr ?_
  rintro ⟨q, a⟩ hr
  obtain rfl : a = .ok (host q) := h _ hr
  cases q <;> simp [isUnloaded, Query.isUnload]

theorem Story.step (hchain : Chain (fun u => host (.nextAlive u)) here units)
    (hsmall : ∀ u ∈ units, u.index.toNat < 18446744073709551615) (hworkers : 0 < p.workers)
    {log : List (Reply Answer)} (h : Story host units p log t (.running s)) :
    (s.move p t).Ensures (returning host)
      (fun t' c l => Story host units p (log ++ l.reverse) t' c) t := by
  have hmove := ((move_ensures (steady_returning host) hchain h.valid h.knows).and
    (move_proceeds hchain hsmall h.valid hworkers h.knows h.unspent h.buffered)).and
      ((move_subtotals (returning host) p t s).and
        ((Move.Ensures.of_may _).and (Move.Ensures.length_le_one _)))
  refine hmove.mono fun t' c l hm => ?_
  obtain ⟨⟨hmoved, hgoes⟩, htotal, hreplies, hone⟩ := hm
  rw [reverse_of_length_le_one hone]
  have hline : unloadCalls (log ++ l) ++ p.calls (ahead p c ++ t'.own.frontier.rest units) =
      p.calls units := by
    rw [unloadCalls_append, List.append_assoc, hgoes.line, h.line]
  have hcount : (∀ cause, c ≠ .panicked cause) → subtotal c = (unloadCalls (log ++ l)).length := by
    intro hcalm
    rw [htotal hcalm, h.total (by simp), unloadings_eq_length hreplies, unloadCalls_append,
      List.length_append]
  have hbuffered : Buffered c → p.batch.fitsMemory = true := fun hc =>
    (hgoes.buffered hc).elim h.buffered id
  have hunbuffered : ¬Buffered c → t'.own.frontier.rest units = units.tail := by
    intro hc
    obtain ⟨hs, hsame⟩ := hgoes.unbuffered hc
    rw [hsame, h.unbuffered hs]
  exact {
    valid := hmoved.valid
    knows := hmoved.knows
    unspent := hgoes.unspent
    line := hline
    total := hcount
    buffered := hbuffered
    unbuffered := hunbuffered
    cause := hgoes.cause }

variable {log : List (Reply Answer)}

theorem Story.of_returned {total : ℕ} (h : Story host units p log t (.returned total)) :
    p.batch.fitsMemory = true ∧ total = units.length ∧ unloadCalls log = p.calls units := by
  have hline := h.line
  rw [Frontier.rest_of_zero _ h.knows.2] at hline
  have hcalls : unloadCalls log = p.calls units := by
    simpa [ahead, Plan.calls] using hline
  have htotal : total = (unloadCalls log).length := h.total (by simp)
  rw [hcalls, Plan.calls, List.length_map] at htotal
  exact ⟨h.buffered trivial, htotal, hcalls⟩

theorem Story.of_panicked {cause : Panic} (h : Story host units p log t (.panicked cause)) :
    p.batch.fitsMemory = false ∧ cause = .fault .bufferTooLarge ∧
      unloadCalls log = (p.calls units).take 1 := by
  obtain ⟨hcause, hlarge⟩ := h.cause cause rfl
  refine ⟨hlarge, hcause, ?_⟩
  have hline := h.line
  -- Without a buffer, only the first unit has been gone to.
  rw [h.unbuffered id] at hline
  cases units with
  | nil => simpa [ahead, Plan.calls] using hline
  | cons u us =>
    have hsplit : unloadCalls log ++ p.calls us = p.calls [u] ++ p.calls us := hline
    exact List.append_cancel_right hsplit

end Worker

variable {host : (q : Query) → Answer q} {units : List UnitId} {r : Request} {plan : Plan}
  {shared : Shared}

theorem Opened.story (hunits : Stable (fun u => host (.nextAlive u)) (host .firstAlive) units)
    (hopened : Opened host units r plan shared) (tally : Tally) :
    Worker.Story host units plan [] (⟨shared, tally⟩ : Tallied Shared) (.running (.start 0)) := by
  obtain ⟨hplan, f, hf, rfl⟩ := hopened
  obtain ⟨hvalid, hrest⟩ := Frontier.after_spec hunits.chain hf
  have hfirst : (host .firstAlive).toList ++ units.tail = units := by
    have hchain := hunits.chain
    generalize host .firstAlive = here at hchain
    cases hchain with
    | nil => rfl
    | cons _ => rfl
  have hline : plan.calls (plan.first.toList ++ f.rest units) = plan.calls units := by
    rw [hrest, hplan, hfirst]
  exact {
    valid := hvalid
    knows := rfl
    unspent := rfl
    line := hline
    total := fun _ => rfl
    buffered := False.elim
    unbuffered := fun _ => hrest
    cause := by simp }

theorem lone_worker_over (hunits : Stable (fun u => host (.nextAlive u)) (host .firstAlive) units)
    (hworkers : r.workers = 1) (hopened : Opened host units r plan shared) (tally : Tally)
    {turns : List (Turn Unit Answer)} (hturns : ∀ t ∈ turns, t.Returns host) :
    let p := Pool.alone (Worker.move plan) ⟨shared, tally⟩ (.start 0) turns
    p.AllOver → (r.batch.fitsMemory = true →
      p.calls () = .returned units.length ∧ unloadCalls p.log = plan.calls units) ∧
    (r.batch.fitsMemory = false →
      p.calls () = .panicked (.fault .bufferTooLarge) ∧
        unloadCalls p.log = (plan.calls units).take 1) := by
  intro p hover
  have hbatch : plan.batch = r.batch := by rw [hopened.plan]
  have hone : 0 < plan.workers := by
    rw [hopened.plan]
    show 0 < r.workers
    rw [hworkers]
    decide
  have hwithin : ∀ t ∈ turns, t.Within (returning host) := hturns
  have htold : Pool.Told (Worker.move plan) (Worker.Story host units plan) p :=
    Pool.told_alone (fun _ _ _ h => h.step hunits.chain hunits.small hone)
      (hopened.story hunits tally) hwithin
  have hstory := htold.story
  rw [← hbatch]
  cases hc : p.calls () with
  | running s => exact absurd hc (hover.ne_running () s)
  | returned total =>
    rw [hc] at hstory
    obtain ⟨hfits, rfl, hcalls⟩ := hstory.of_returned
    exact ⟨fun _ => ⟨rfl, hcalls⟩, fun h => absurd hfits (by simp [h])⟩
  | panicked cause =>
    rw [hc] at hstory
    obtain ⟨hlarge, rfl, hcalls⟩ := hstory.of_panicked
    exact ⟨fun h => absurd hlarge (by simp [h]), fun _ => ⟨rfl, hcalls⟩⟩

/-- Whatever its batches, a lone worker unloads what the plain loop unloads, in the same order, and
returns how much that is; unless no buffer for its batches can be had, when it panics after the
first unit. -/
theorem lone_worker_follows_loop
    (hunits : Stable (fun u => host (.nextAlive u)) (host .firstAlive) units)
    (hworkers : r.workers = 1) {opening : List (Turn Unit Answer)}
    (hopening : ∀ t ∈ opening, t.Agrees host)
    (hopen : (Pool.alone (fun _ => Opening.move r) () .start opening).calls () =
      .returned (plan, shared)) (tally : Tally) :
    ∃ n, ∀ turns : List (Turn Unit Answer), n ≤ turns.length → (∀ t ∈ turns, t.Returns host) →
      let loop := Pool.alone (fun _ => Traversal.move r.pass r.unloading) () .start turns
      let p := Pool.alone (Worker.move plan) ⟨shared, tally⟩ (.start 0) turns
      loop.calls () = .returned () ∧
        (r.batch.fitsMemory = true →
          p.calls () = .returned units.length ∧ unloadCalls p.log = unloadCalls loop.log) ∧
        (r.batch.fitsMemory = false →
          p.calls () = .panicked (.fault .bufferTooLarge) ∧
            unloadCalls p.log = (unloadCalls loop.log).take 1) := by
  have hopened := Opening.returned_opened (steady_agreeing host) hunits.chain hopening hopen
  have hcalls : plan.calls units = units.map fun u => .unload u r.pass r.unloading := by
    rw [hopened.plan]
    rfl
  have hstart := workers_start plan (fun _ : Unit => 0) ⟨shared, tally⟩ (steady_returning host)
    hunits.chain (hopened.owes hunits.chain).1
  have hsuits : (Worker.descent units plan).Suits
      (workers (steady_returning host) hunits.chain plan fun _ : Unit => 0) :=
    fun _ _ _ _ hs => Worker.descends hs.1.1
  obtain ⟨n, hn⟩ := Pool.alone_ends hsuits hstart
  refine ⟨max n (2 * units.length + 2), fun turns hlen hturns => ?_⟩
  obtain ⟨hloop, hall⟩ := Traversal.alone_unloads r.pass r.unloading hunits.chain hturns
    (Nat.lt_of_lt_of_le (by omega) ((Nat.le_max_right _ _).trans hlen))
  have hover := hn turns ((Nat.le_max_left _ _).trans hlen) hturns
  have hdone := lone_worker_over hunits hworkers hopened tally hturns hover
  rw [hcalls, ← hall] at hdone
  exact ⟨hloop, hdone⟩

def loneRequest (batch : BatchSize) : Request where
  pass := ⟨1⟩
  unloading := true
  workers := 1
  batch := batch
  verify := false

def lonePlan (batch : BatchSize) : Plan where
  pass := ⟨1⟩
  unloading := true
  workers := 1
  batch := batch
  first := some ⟨5⟩

/-- The small host is opened for one worker whatever its batches. -/
theorem lone_opening (batch : BatchSize) :
    (Pool.alone (fun _ => Opening.move (loneRequest batch)) () .start
      (calmTurns smallHost (List.replicate 4 ()))).calls () =
        .returned (lonePlan batch, { frontier := ⟨6⟩ }) := rfl

theorem lone_worker_follows_loop_small :
    ∃ n, ∀ turns : List (Turn Unit Answer), n ≤ turns.length → (∀ t ∈ turns, t.Returns smallHost) →
      let loop := Pool.alone (fun _ => Traversal.move ⟨1⟩ true) () .start turns
      let p := Pool.alone (Worker.move (lonePlan (.ofWord 2))) ⟨{ frontier := ⟨6⟩ }, {}⟩ (.start 0)
        turns
      loop.calls () = .returned () ∧ p.calls () = .returned 3 ∧
        unloadCalls p.log = unloadCalls loop.log := by
  obtain ⟨n, hn⟩ := lone_worker_follows_loop smallUnits_stable rfl
    (fun t ht => (calmTurns_returns smallHost (List.replicate 4 ()) t ht).agrees)
    (lone_opening (.ofWord 2)) {}
  refine ⟨n, fun turns hlen hturns => ?_⟩
  obtain ⟨hloop, hfits, -⟩ := hn turns hlen hturns
  exact ⟨hloop, hfits rfl⟩

/-- Not every batch size is one that a worker can work with. -/
theorem not_every_batch_size_works : ¬∀ (host : (q : Query) → Answer q) (units : List UnitId)
    (r : Request) (opening : List (Turn Unit Answer)) (plan : Plan) (shared : Shared),
    Stable (fun u => host (.nextAlive u)) (host .firstAlive) units → r.workers = 1 →
      (∀ t ∈ opening, t.Returns host) →
      (Pool.alone (fun _ => Opening.move r) () .start opening).calls () =
        .returned (plan, shared) →
      ∃ n, ∀ turns : List (Turn Unit Answer), n ≤ turns.length → (∀ t ∈ turns, t.Returns host) →
        let loop := Pool.alone (fun _ => Traversal.move r.pass r.unloading) () .start turns
        let p := Pool.alone (Worker.move plan) ⟨shared, {}⟩ (.start 0) turns
        p.calls () = .returned units.length ∧ unloadCalls p.log = unloadCalls loop.log := by
  intro h
  let large : BatchSize := .ofWord 18446744073709551615
  obtain ⟨n, hn⟩ := h smallHost smallUnits (loneRequest large) _ (lonePlan large) _
    smallUnits_stable rfl (calmTurns_returns _ _) (lone_opening large)
  have hturns := calmTurns_returns smallHost (List.replicate n ())
  obtain ⟨hreturned, -⟩ := hn _ (by simp [calmTurns]) hturns
  have hover : (Pool.alone (Worker.move (lonePlan large))
      (⟨{ frontier := ⟨6⟩ }, {}⟩ : Tallied Shared) (.start 0)
      (calmTurns smallHost (List.replicate n ()))).AllOver := fun _ => by
    rw [hreturned]
    rfl
  have hopened := Opening.returned_opened (steady_returning smallHost) smallUnits_stable.chain
    (calmTurns_returns _ _) (lone_opening large)
  obtain ⟨-, hlarge⟩ := lone_worker_over smallUnits_stable rfl hopened {} hturns hover
  have hpanicked := (hlarge (by decide)).1
  rw [hreturned] at hpanicked
  cases hpanicked

end PauseCleanup.Unloading
