import PauseCleanup.Proofs.Pool.History
import Mathlib.Algebra.BigOperators.Ring.Finset
import Mathlib.Algebra.Order.BigOperators.Group.Finset
import Mathlib.Data.List.DropRight
/-!
# Attempts that others may overtake

A call that changes the memory by compare-and-exchange looks first, and exchanges later. If no seen
memory ever comes back, an exchange fails exactly if the attempt was overtaken; and one change
overtakes at most one attempt of each other call.
-/
namespace PauseCleanup

open Pool (Made)

/-- How calls attempt to change a memory: `view` is what the memory shows of itself, an attempt
begins with a move that `looks`, and a move that `tries` is an exchange of what was `seen`. -/
structure Attempts (V Mem State Result : Type) where
  view : Mem → V
  looks : State → Bool
  tries : State → Bool
  seen : Progress State Result → Option V

namespace Attempts

variable {ι Q V Mem State Result : Type} {A : Q → Type}

section Watch

variable [DecidableEq ι]

def own (i : ι) (h : List (Made ι Mem State)) : List (Made ι Mem State) :=
  h.filter fun e => e.caller = i

def beside (i : ι) (h : List (Made ι Mem State)) : List (Made ι Mem State) :=
  h.filter fun e => e.caller ≠ i

/-- All moves from the first one of a call to its last one. -/
def during (i : ι) (h : List (Made ι Mem State)) : List (Made ι Mem State) :=
  (h.dropWhile fun e => e.caller ≠ i).rdropWhile fun e => e.caller ≠ i

/-- What an observer of one call has noted. -/
structure Watch (ι Mem State : Type) where
  /-- What the others have done since the call has looked, if it has not come to its exchange. -/
  since : Option (List (Made ι Mem State)) := none
  /-- What the others did between look and exchange, for each attempt that came to its exchange. -/
  past : List (List (Made ι Mem State)) := []

def watch (a : Attempts V Mem State Result) (i : ι) (w : Watch ι Mem State)
    (e : Made ι Mem State) : Watch ι Mem State :=
  if e.caller = i then
    if a.looks e.state then { w with since := some [] }
    else if a.tries e.state then ⟨none, w.past ++ w.since.toList⟩
    else w
  else { w with since := w.since.map (· ++ [e]) }

def watched (a : Attempts V Mem State Result) (i : ι) (h : List (Made ι Mem State)) :
    Watch ι Mem State :=
  h.foldl (a.watch i) {}

def exchanges (a : Attempts V Mem State Result) (i : ι) (h : List (Made ι Mem State)) : ℕ :=
  (own i h).countP fun e => a.tries e.state

variable (a : Attempts V Mem State Result) {i : ι} {e : Made ι Mem State}
  {h : List (Made ι Mem State)}

theorem own_concat_self (he : e.caller = i) : own i (h ++ [e]) = own i h ++ [e] := by
  simp [own, he]

theorem own_concat_of_ne (he : e.caller ≠ i) : own i (h ++ [e]) = own i h := by
  simp [own, he]

theorem countP_own_concat (he : e.caller = i) (h : List (Made ι Mem State))
    (p : Made ι Mem State → Bool) :
    (own i (h ++ [e])).countP p = (own i h).countP p + if p e then 1 else 0 := by
  rw [own_concat_self he, List.countP_append, List.countP_singleton]

theorem exchanges_concat (he : e.caller = i) (h : List (Made ι Mem State)) :
    a.exchanges i (h ++ [e]) = a.exchanges i h + if a.tries e.state then 1 else 0 :=
  countP_own_concat he h _

theorem beside_concat_self (he : e.caller = i) : beside i (h ++ [e]) = beside i h := by
  simp [beside, he]

theorem beside_concat_of_ne (he : e.caller ≠ i) : beside i (h ++ [e]) = beside i h ++ [e] := by
  simp [beside, he]

theorem watched_concat (h : List (Made ι Mem State)) (e : Made ι Mem State) :
    a.watched i (h ++ [e]) = a.watch i (a.watched i h) e := by
  rw [watched, List.foldl_append]
  rfl

theorem watch_of_ne (he : e.caller ≠ i) (w : Watch ι Mem State) :
    a.watch i w e = { w with since := w.since.map (· ++ [e]) } := if_neg he

theorem watch_of_looks (he : e.caller = i) (hlooks : a.looks e.state = true)
    (w : Watch ι Mem State) : a.watch i w e = { w with since := some [] } := by
  rw [watch, if_pos he, if_pos hlooks]

theorem watch_of_tries (he : e.caller = i) (hlooks : a.looks e.state = false)
    (htries : a.tries e.state = true) (w : Watch ι Mem State) :
    a.watch i w e = ⟨none, w.past ++ w.since.toList⟩ := by
  rw [watch, if_pos he, if_neg (by simp [hlooks]), if_pos htries]

theorem watch_of_rest (he : e.caller = i) (hlooks : a.looks e.state = false)
    (htries : a.tries e.state = false) (w : Watch ι Mem State) : a.watch i w e = w := by
  rw [watch, if_pos he, if_neg (by simp [hlooks]), if_neg (by simp [htries])]

theorem watched_sublist (h : List (Made ι Mem State)) :
    ((a.watched i h).past.flatten ++ (a.watched i h).since.getD []).Sublist (beside i h) := by
  induction h using List.reverseRecOn with
  | nil => exact List.Sublist.refl _
  | append_singleton h e ih =>
    rw [watched_concat]
    generalize a.watched i h = w at ih ⊢
    by_cases he : e.caller = i
    · rw [beside_concat_self he]
      cases hlooks : a.looks e.state with
      | true =>
        -- Whatever was noted since an earlier look is given up.
        rw [a.watch_of_looks he hlooks]
        simpa using (List.sublist_append_left _ _).trans ih
      | false =>
        cases htries : a.tries e.state with
        | true =>
          rw [a.watch_of_tries he hlooks htries]
          cases hs : w.since <;> simpa [hs] using ih
        | false => rwa [a.watch_of_rest he hlooks htries]
    · rw [beside_concat_of_ne he, a.watch_of_ne he]
      cases hs : w.since with
      | none =>
        rw [hs] at ih
        exact ih.trans (List.sublist_append_left _ _)
      | some es =>
        rw [hs] at ih
        simpa using ih.append (List.Sublist.refl [e])

theorem foldl_watch_of_before (hpast : ∀ e ∈ h, e.caller ≠ i) : h.foldl (a.watch i) {} = {} := by
  induction h with
  | nil => rfl
  | cons e h ih =>
    have he : e.caller ≠ i := hpast e (by simp)
    rw [List.foldl_cons, a.watch_of_ne he]
    exact ih fun e' he' => hpast e' (by simp [he'])

theorem foldl_watch_past (hfuture : ∀ e ∈ h, e.caller ≠ i) (w : Watch ι Mem State) :
    (h.foldl (a.watch i) w).past = w.past := by
  induction h generalizing w with
  | nil => rfl
  | cons e h ih =>
    have he : e.caller ≠ i := hfuture e (by simp)
    rw [List.foldl_cons, a.watch_of_ne he, ih fun e' he' => hfuture e' (by simp [he'])]

end Watch

section Changes

variable [DecidableEq V] (a : Attempts V Mem State Result)

/-- Whether a move has changed what the memory shows. -/
def changes (e : Made ι Mem State) : Bool := a.view e.before ≠ a.view e.after

def fails (e : Made ι Mem State) : Bool := a.tries e.state && !a.changes e

variable [DecidableEq ι] (i : ι)

/-- How many attempts of a call were overtaken: somebody else changed the memory between the look
and the exchange. -/
def overtaken (h : List (Made ι Mem State)) : ℕ :=
  (a.watched i h).past.countP fun es => es.any a.changes

/-- How many exchanges of a call were in vain. -/
def failures (h : List (Made ι Mem State)) : ℕ := (own i h).countP a.fails

variable {i} {e : Made ι Mem State}

theorem failures_concat (he : e.caller = i) (h : List (Made ι Mem State)) :
    a.failures i (h ++ [e]) = a.failures i h + if a.fails e then 1 else 0 :=
  countP_own_concat he h _

theorem failures_concat_of_ne (he : e.caller ≠ i) (h : List (Made ι Mem State)) :
    a.failures i (h ++ [e]) = a.failures i h := by
  rw [failures, own_concat_of_ne he]
  rfl

theorem countP_any_le {α : Type} (p : α → Bool) (ls : List (List α)) :
    ls.countP (fun l => l.any p) ≤ ls.flatten.countP p := by
  induction ls with
  | nil => exact Nat.zero_le _
  | cons l ls ih =>
    rw [List.flatten_cons, List.countP_append, List.countP_cons, add_comm]
    refine Nat.add_le_add ?_ ih
    split
    · next hany => exact List.countP_pos_iff.2 (List.any_eq_true.1 hany)
    · exact Nat.zero_le _

/-- Every attempt that was overtaken cost somebody else a change. -/
theorem overtaken_le (i : ι) (h : List (Made ι Mem State)) :
    a.overtaken i h ≤ (beside i h).countP a.changes :=
  (countP_any_le _ _).trans (((List.sublist_append_left _ _).trans (a.watched_sublist h)).countP_le)

theorem overtaken_during (i : ι) (h : List (Made ι Mem State)) :
    a.overtaken i (during i h) = a.overtaken i h := by
  let other : Made ι Mem State → Bool := fun e => e.caller ≠ i
  have hbefore : ∀ e ∈ h.takeWhile other, e.caller ≠ i := by
    intro e he
    have hother : other e = true := List.mem_takeWhile_imp he
    exact of_decide_eq_true hother
  have hafter : ∀ e ∈ (h.dropWhile other).rtakeWhile other, e.caller ≠ i := by
    intro e he
    have hother : other e = true := List.mem_rtakeWhile_imp he
    exact of_decide_eq_true hother
  have hsplit : h = h.takeWhile other ++ (during i h ++ (h.dropWhile other).rtakeWhile other) := by
    rw [during, List.rdropWhile_append_rtakeWhile, List.takeWhile_append_dropWhile]
  have hwatched : (a.watched i h).past = (a.watched i (during i h)).past := by
    conv_lhs => rw [hsplit, watched, List.foldl_append, a.foldl_watch_of_before hbefore,
      List.foldl_append, a.foldl_watch_past hafter]
    rfl
  rw [overtaken, overtaken, hwatched]

theorem overtaken_le_during (i : ι) (h : List (Made ι Mem State)) :
    a.overtaken i h ≤ (beside i (during i h)).countP a.changes :=
  a.overtaken_during i h ▸ a.overtaken_le i (during i h)

theorem countP_own_add_beside (i : ι) (h : List (Made ι Mem State)) :
    (own i h).countP a.changes + (beside i h).countP a.changes = h.countP a.changes := by
  rw [List.countP_eq_countP_filter_add h a.changes fun e => e.caller = i]
  simp [own, beside]

variable [Fintype ι]

theorem sum_countP_own (p : Made ι Mem State → Bool) (h : List (Made ι Mem State)) :
    ∑ i, (own i h).countP p = h.countP p :=
  sum_countP_filter (·.caller) p h

theorem sum_countP_beside (h : List (Made ι Mem State)) :
    ∑ i, (beside i h).countP a.changes = (Fintype.card ι - 1) * h.countP a.changes := by
  have hall : ∑ i, ((own i h).countP a.changes + (beside i h).countP a.changes) =
      Fintype.card ι * h.countP a.changes := by
    simp [countP_own_add_beside]
  rw [Finset.sum_add_distrib, sum_countP_own] at hall
  rw [Nat.sub_one_mul]
  omega

theorem sum_overtaken_le (h : List (Made ι Mem State)) :
    ∑ i, a.overtaken i h ≤ (Fintype.card ι - 1) * h.countP a.changes :=
  a.sum_countP_beside h ▸ Finset.sum_le_sum fun i _ => a.overtaken_le i h

end Changes

section Moves

variable (a : Attempts V Mem State Result) (stock : V → ℕ)

/-- How one move carries on the attempt of its call. -/
inductive Goes (m : Mem) (s : State) (m' : Mem) (c : Progress State Result) : Prop
  | look (looks : a.looks s = true) (tries : a.tries s = false) (still : a.view m' = a.view m)
    (seen : ∀ v, a.seen c = some v → v = a.view m)
  | keep (looks : a.looks s = false) (tries : a.tries s = false) (still : a.view m' = a.view m)
    (seen : ∀ v, a.seen c = some v → a.seen (.running s) = some v)
  | win (looks : a.looks s = false) (tries : a.tries s = true)
    (same : a.seen (.running s) = some (a.view m))
    (down : stock (a.view m') < stock (a.view m)) (seen : a.seen c = none)
  | fail {v : V} (looks : a.looks s = false) (tries : a.tries s = true)
    (same : a.seen (.running s) = some v) (gone : a.view m ≠ v) (still : a.view m' = a.view m)
    (seen : a.seen c = none)

variable {a stock} {m m' : Mem} {s : State} {c : Progress State Result}

theorem Goes.lift {Sub SubState SubResult : Type} {inner : Attempts V Sub SubState SubResult}
    {sub sub' : Sub} {t : SubState} {d : Progress SubState SubResult}
    (hg : inner.Goes stock sub t sub' d) (hlooks : a.looks s = inner.looks t)
    (htries : a.tries s = inner.tries t) (hview : a.view m = inner.view sub)
    (hview' : a.view m' = inner.view sub') (hbefore : a.seen (.running s) = inner.seen (.running t))
    (hafter : ∀ v, a.seen c = some v → inner.seen d = some v) : a.Goes stock m s m' c := by
  have hnone : inner.seen d = none → a.seen c = none := fun hd =>
    Option.eq_none_iff_forall_ne_some.2 fun v hv => by simp [hafter v hv] at hd
  have hstill : inner.view sub' = inner.view sub → a.view m' = a.view m := fun h => by
    rw [hview, hview', h]
  cases hg with
  | look looks tries still seen =>
    refine .look (hlooks.trans looks) (htries.trans tries) (hstill still) fun v hv => ?_
    rw [hview]
    exact seen v (hafter v hv)
  | keep looks tries still seen =>
    refine .keep (hlooks.trans looks) (htries.trans tries) (hstill still) fun v hv => ?_
    rw [hbefore]
    exact seen v (hafter v hv)
  | win looks tries same down seen =>
    refine .win (hlooks.trans looks) (htries.trans tries) ?_ ?_ (hnone seen)
    · rw [hbefore, hview, same]
    · rwa [hview, hview']
  | fail looks tries same gone still seen =>
    refine .fail (hlooks.trans looks) (htries.trans tries) (hbefore.trans same) ?_ (hstill still)
      (hnone seen)
    rwa [hview]

theorem Goes.still_or_down (hg : a.Goes stock m s m' c) :
    a.view m' = a.view m ∨ stock (a.view m') < stock (a.view m) := by
  cases hg with
  | look _ _ still _ => exact .inl still
  | keep _ _ still _ => exact .inl still
  | win _ _ _ down _ => exact .inr down
  | fail _ _ _ _ still _ => exact .inl still

variable [DecidableEq V]

/-- What a call has seen is still there, or some of the stock was used up since. -/
def Stands (a : Attempts V Mem State Result) (stock : V → ℕ)
    (since : Option (List (Made ι Mem State))) (m : Mem) (c : Progress State Result) : Prop :=
  ∀ v, a.seen c = some v → ∃ es, since = some es ∧
    if es.any a.changes then stock (a.view m) < stock v else a.view m = v

variable {i : ι} {h es : List (Made ι Mem State)} {e : Made ι Mem State}

theorem changes_of_still (hstill : a.view e.after = a.view e.before) : a.changes e = false := by
  simp [changes, hstill]

theorem changes_of_down (stock : V → ℕ) (hdown : stock (a.view e.after) < stock (a.view e.before)) :
    a.changes e = true := by
  refine decide_eq_true fun hsame => ?_
  rw [hsame] at hdown
  exact Nat.lt_irrefl _ hdown

theorem Stands.quiet (hs : a.Stands stock (some es) m c) (hseen : a.seen c = some (a.view m)) :
    es.any a.changes = false := by
  obtain ⟨_, he, hstands⟩ := hs _ hseen
  obtain rfl := Option.some.inj he
  split at hstands
  · exact absurd hstands (Nat.lt_irrefl _)
  · next hquiet => exact Bool.eq_false_iff.2 hquiet

theorem Stands.overtaken {v : V} (hs : a.Stands stock (some es) m c) (hseen : a.seen c = some v)
    (hgone : a.view m ≠ v) : es.any a.changes = true := by
  obtain ⟨_, he, hstands⟩ := hs _ hseen
  obtain rfl := Option.some.inj he
  split at hstands
  · next hany => exact hany
  · exact absurd hstands hgone

variable [DecidableEq ι]

/-- The exchanges of a call: those that failed are those that were overtaken, all others were
changes. -/
structure Accounted (a : Attempts V Mem State Result) (stock : V → ℕ) (i : ι)
    (h : List (Made ι Mem State)) (m : Mem) (c : Progress State Result) : Prop where
  stands : a.Stands stock (a.watched i h).since m c
  failures : a.failures i h = a.overtaken i h
  exchanges : a.exchanges i h = a.failures i h + (own i h).countP a.changes

theorem Accounted.beside {c' : Progress State Result} (hi : a.Accounted stock i h e.before c')
    (he : e.caller ≠ i) (hg : a.Goes stock e.before e.state e.after c) :
    a.Accounted stock i (h ++ [e]) e.after c' := by
  have hwatched : a.watched i (h ++ [e]) =
      { a.watched i h with since := (a.watched i h).since.map (· ++ [e]) } := by
    rw [watched_concat, a.watch_of_ne he]
  refine ⟨fun v hv => ?_, ?_, ?_⟩
  · obtain ⟨es, hes, hstands⟩ := hi.stands v hv
    refine ⟨es ++ [e], by rw [hwatched, hes]; rfl, ?_⟩
    rw [List.any_append, List.any_cons, List.any_nil, Bool.or_false]
    rcases hg.still_or_down with hstill | hdown
    · rwa [changes_of_still hstill, Bool.or_false, hstill]
    -- The stock is below that of what was seen, whether or not this is the first change since.
    · rw [changes_of_down stock hdown, Bool.or_true, if_pos rfl]
      split at hstands
      · exact hdown.trans hstands
      · rwa [hstands] at hdown
  · rw [a.failures_concat_of_ne he, Attempts.overtaken, hwatched]
    exact hi.failures
  · rw [Attempts.exchanges, a.failures_concat_of_ne he, own_concat_of_ne he]
    exact hi.exchanges

theorem Accounted.untried (hi : a.Accounted stock i h e.before (.running e.state))
    (he : e.caller = i) (htries : a.tries e.state = false)
    (hstill : a.view e.after = a.view e.before) {w : Watch ι Mem State}
    (hwatched : a.watched i (h ++ [e]) = w) (hpast : w.past = (a.watched i h).past)
    (hstands : a.Stands stock w.since e.after c) : a.Accounted stock i (h ++ [e]) e.after c := by
  have hchanges := changes_of_still hstill
  refine ⟨hwatched ▸ hstands, ?_, ?_⟩
  · rw [a.failures_concat he, Attempts.overtaken, hwatched, hpast]
    simpa [fails, htries, Attempts.overtaken] using hi.failures
  · rw [a.exchanges_concat he, a.failures_concat he, countP_own_concat he]
    simpa [fails, htries, hchanges] using hi.exchanges

theorem Accounted.tried (hi : a.Accounted stock i h e.before (.running e.state))
    (he : e.caller = i) (hlooks : a.looks e.state = false) (htries : a.tries e.state = true)
    (hes : (a.watched i h).since = some es) (hfails : es.any a.changes = !a.changes e)
    (hseen : a.seen c = none) : a.Accounted stock i (h ++ [e]) e.after c := by
  have hwatched : a.watched i (h ++ [e]) = ⟨none, (a.watched i h).past ++ [es]⟩ := by
    rw [watched_concat, a.watch_of_tries he hlooks htries, hes]
    rfl
  refine ⟨fun v hv => by simp [hseen] at hv, ?_, ?_⟩
  · rw [a.failures_concat he, Attempts.overtaken, hwatched, List.countP_append,
      List.countP_singleton, fails, hfails, htries, Bool.true_and]
    exact congrArg (· + _) hi.failures
  · rw [a.exchanges_concat he, a.failures_concat he, countP_own_concat he, hi.exchanges, fails,
      htries]
    cases a.changes e with
    | true => exact add_assoc _ _ _
    | false => exact add_right_comm _ _ _

theorem Accounted.own (hi : a.Accounted stock i h e.before (.running e.state))
    (he : e.caller = i) (hg : a.Goes stock e.before e.state e.after c) :
    a.Accounted stock i (h ++ [e]) e.after c := by
  have hwatched := a.watched_concat (i := i) h e
  cases hg with
  | look hlooks htries hstill hseen =>
    rw [a.watch_of_looks he hlooks] at hwatched
    refine hi.untried he htries hstill hwatched rfl fun v hv => ⟨[], rfl, ?_⟩
    rw [hstill]
    exact (hseen v hv).symm
  | keep hlooks htries hstill hseen =>
    rw [a.watch_of_rest he hlooks htries] at hwatched
    refine hi.untried he htries hstill hwatched rfl fun v hv => ?_
    rw [hstill]
    exact hi.stands v (hseen v hv)
  | win hlooks htries hsame hdown hseen =>
    obtain ⟨es, hes, -⟩ := hi.stands _ hsame
    have hquiet := (hes ▸ hi.stands).quiet hsame
    exact hi.tried he hlooks htries hes (by rw [hquiet, changes_of_down stock hdown]; rfl) hseen
  | fail hlooks htries hsame hgone hstill hseen =>
    obtain ⟨es, hes, -⟩ := hi.stands _ hsame
    have hany := (hes ▸ hi.stands).overtaken hsame hgone
    exact hi.tried he hlooks htries hes (by rw [hany, changes_of_still hstill]; rfl) hseen

theorem Accounted.exchanges_le (hi : a.Accounted stock i h m c) :
    a.exchanges i h ≤ h.countP a.changes := by
  calc a.exchanges i h = a.overtaken i h + (Attempts.own i h).countP a.changes := by
        rw [hi.exchanges, hi.failures]
    _ ≤ (Attempts.beside i h).countP a.changes + (Attempts.own i h).countP a.changes :=
        Nat.add_le_add_right (a.overtaken_le i h) _
    _ = h.countP a.changes := by rw [add_comm, a.countP_own_add_beside]

theorem accounted_nil (hseen : a.seen c = none) : a.Accounted stock i [] m c :=
  ⟨fun v hv => by simp [hseen] at hv, rfl, rfl⟩

end Moves

end Attempts

/-- However the calls of a pool interleave: the exchanges of each call that failed are its attempts
that were overtaken, and all others changed the memory. -/
theorem Outline.Holds.accounted {ι Q V Mem State Result : Type} {A : Q → Type} [DecidableEq ι]
    [DecidableEq V] {may : Reply A → Prop} {move : ι → Mem → State → Move A Mem State Result}
    {o : Outline may move} {p : Pool ι A Mem State Result} (hp : o.Holds p)
    (hlive : ∀ i m s reason, move i m s ≠ .abort reason) (a : Attempts V Mem State Result)
    (stock : V → ℕ) (hgoes : ∀ {i m s}, o.mem m → o.call i m (.running s) →
      (move i m s).Ensures may (fun m' c _ => a.Goes stock m s m' c) m)
    (hseen : ∀ i, a.seen (p.calls i) = none) {turns : List (Turn ι A)}
    (hturns : ∀ t ∈ turns, t.Within may) (i : ι) :
    a.Accounted stock i (p.history move turns) (p.run move turns).mem
      ((p.run move turns).calls i) := by
  refine hp.history_induction hlive hgoes
    (P := fun q past => ∀ i, a.Accounted stock i past q.mem (q.calls i))
    (fun i => Attempts.accounted_nil (hseen i)) ?_ hturns i
  intro q past j s m c l _ hq hj hg i
  by_cases hij : i = j
  · subst hij
    have hown := Attempts.Accounted.own (e := ⟨i, s, q.mem, m⟩) (hj ▸ hq i) rfl hg
    simpa [Pool.after] using hown
  · have hbeside := Attempts.Accounted.beside (e := ⟨j, s, q.mem, m⟩) (hq i) (Ne.symm hij) hg
    simpa [Pool.after, hij] using hbeside

end PauseCleanup
