import PauseCleanup.Proofs.Ledger.Record
import PauseCleanup.Proofs.Pool.History
import PauseCleanup.Proofs.Pool.OwnTurns
import PauseCleanup.Proofs.Process.Books
/-!
# Threads that record their passes

Each of some threads records one pass after the other, and their moves come in any order. Between
two records, a thread's last pass and the totals agree with the history.
-/
namespace PauseCleanup

open scoped UInt64.CommRing

instance : IsRightCancelAdd Totals where
  add_right_cancel s t u h := by
    simp only [Totals.add_def, Totals.mk.injEq, add_left_inj] at h
    obtain ⟨hp, hw, hu, hc, hr⟩ := h
    cases t
    cases u
    simp_all

namespace Ledger

variable {Q : Type} {A : Q → Type}

/-- A thread with passes to record, one after the other. -/
inductive Scribe
  | next (todo : List Metrics)
  /-- Entering `m`; the passes `todo` come after it. -/
  | enter (m : Metrics) (s : Record) (todo : List Metrics)

namespace Scribe

def move (t : Thread) (l : Ledger) : Scribe → Move A Ledger Scribe Unit
  | .next [] => .finish ()
  | .next (m :: todo) => .access l (.enter m .last todo)
  | .enter m s todo =>
    (s.move t m l).lift l id (fun s => .enter m s todo) fun _ => .access l (.next todo)

def posts : Scribe → Option Metrics
  | .enter m .history _ => some m
  | _ => none

/-- The pass that the thread has for its last one, while the history has no entry of it yet. -/
def ahead : Progress Scribe Unit → List Metrics
  | .running (.enter _ .last _) | .running (.enter _ .done _) => []
  | .running (.enter m _ _) => [m]
  | _ => []

def left : Progress Scribe Unit → List Metrics
  | .running (.next todo) => todo
  | .running (.enter m .last todo) => m :: todo
  | .running (.enter _ _ todo) => todo
  | _ => []

/-- What the thread is still to add to the totals. -/
def owed : Progress Scribe Unit → Totals
  | .running (.next todo) => (todo.map Metrics.share).sum
  | .running (.enter m s todo) => s.owed m + (todo.map Metrics.share).sum
  | _ => 0

def Rests : Progress Scribe Unit → Prop
  | .running (.enter ..) => False
  | _ => True

theorem Rests.ahead_eq {c : Progress Scribe Unit} (h : Rests c) : ahead c = [] := by
  cases c with
  | running s =>
    cases s with
    | next todo => rfl
    | enter m s todo => exact h.elim
  | _ => rfl

theorem Rests.owed_eq {c : Progress Scribe Unit} (h : Rests c) :
    owed c = ((left c).map Metrics.share).sum := by
  cases c with
  | running s =>
    cases s with
    | next todo => rfl
    | enter m s todo => exact h.elim
  | _ => rfl

end Scribe

/-- The entries that were made in the history, in this order, with the threads that made them. -/
def entries {threads : Finset Thread} (past : List (Pool.Made threads Ledger Scribe)) :
    List (Thread × Metrics) :=
  past.filterMap fun e => e.state.posts.map fun m => (e.caller, m)

def recordedBy (t : Thread) (es : List (Thread × Metrics)) : List Metrics :=
  (es.filter fun e => e.1 = t).map (·.2)

theorem recordedBy_append (t : Thread) (es more : List (Thread × Metrics)) :
    recordedBy t (es ++ more) = recordedBy t es ++ recordedBy t more := by
  simp [recordedBy]

/-- One move of a thread, as the ledger, the history and the thread's own list see it. -/
structure Scribe.Writes (t : Thread) (l : Ledger) (s : Scribe) (l' : Ledger)
    (c : Progress Scribe Unit) : Prop where
  history : l'.history = s.posts.elim l.history fun m => (l.remember m).history
  order : s.posts.toList ++ ahead c ++ left c = ahead (.running s) ++ left (.running s)
  others : ∀ u, u ≠ t → l'.lastOf u = l.lastOf u
  last : (l'.lastOf t = l.lastOf t ∧ s.posts.toList ++ ahead c = ahead (.running s)) ∨
    ∃ m, l'.lastOf t = m ∧ s.posts.toList ++ ahead c = ahead (.running s) ++ [m]

theorem Scribe.Writes.still {t : Thread} {l l' : Ledger} {s : Scribe} {c : Progress Scribe Unit}
    (hposts : s.posts = none) (hahead : ahead c = ahead (.running s))
    (hleft : left c = left (.running s)) (hhistory : l'.history = l.history)
    (hlast : ∀ u, l'.lastOf u = l.lastOf u) : s.Writes t l l' c where
  history := by rw [hposts]; exact hhistory
  order := by rw [hposts, hahead, hleft]; rfl
  others u _ := hlast u
  last := .inl ⟨hlast t, by rw [hposts, hahead]; rfl⟩

theorem Scribe.move_writes (may : Reply A → Prop) (t : Thread) (l : Ledger) (s : Scribe) :
    (s.move t l).Ensures may (fun l' c _ => s.Writes t l l' c) l := by
  cases s with
  | next todo => cases todo <;> exact .still rfl rfl rfl rfl fun _ => rfl
  | enter m s todo =>
    cases s with
    | last =>
      have hset : (l.setLast t m).lastOf t = m := lastOf_setLast l t m
      have hothers : ∀ u, u ≠ t → (l.setLast t m).lastOf u = l.lastOf u :=
        fun _ hu => lastOf_setLast_of_ne l m hu
      exact ⟨rfl, rfl, hothers, .inr ⟨m, hset, rfl⟩⟩
    | history =>
      have hkept : ∀ u, (l.remember m).lastOf u = l.lastOf u := fun _ => rfl
      exact ⟨rfl, rfl, fun u _ => hkept u, .inl ⟨hkept t, rfl⟩⟩
    | passes =>
      show Writes t l _ _
        (.running (.enter m (if m.unloading then .withUnloading else .units) todo))
      split <;> exact .still rfl rfl rfl rfl fun _ => rfl
    | _ => exact .still rfl rfl rfl rfl fun _ => rfl

variable {threads : Finset Thread}

def recording (t : threads) (l : Ledger) (s : Scribe) : Move A Ledger Scribe Unit := s.move t l

theorem recording_ne_abort (t : threads) (l : Ledger) (s : Scribe) (reason : Abort) :
    (recording t l s : Move A Ledger Scribe Unit) ≠ .abort reason := by
  cases s with
  | next todo => cases todo <;> exact fun h => by cases h
  | enter m s todo => cases s <;> exact fun h => by cases h

/-- How many moves are left of a record that is being made before the one that ends it. -/
def Scribe.toEnd : Scribe → ℕ
  | .next _ => 0
  | .enter _ s _ => s.rank

def Scribe.toGo : Scribe → ℕ
  | .next todo => 9 * todo.length
  | .enter _ s todo => 9 * todo.length + s.rank + 1

theorem Scribe.enter_step (may : Reply A → Prop) (t : Thread) (l : Ledger) (m : Metrics)
    (s : Record) (todo : List Metrics) :
    ((Scribe.enter m s todo).move t l).Ensures may (fun _ c _ => c = .running (.next todo) ∨
      ∃ s' : Record, c = .running (.enter m s' todo) ∧ s'.rank < s.rank) l := by
  refine ((s.rank_step may t m l).and (s.quiet may t m l)).lift rfl ?_ ?_ ?_
  · intro _ s' _ h
    exact .inr ⟨s', rfl, h.1 s' rfl⟩
  · intro _ _
    exact .inl rfl
  · intro cause _ h
    exact absurd rfl (h.2.2 cause)

theorem recording_step (t : threads) (l : Ledger) (s : Scribe) :
    (recording t l s).Ensures (fun _ : Reply A => True) (fun _ c _ => c = .returned () ∨
      ∃ s' : Scribe, c = .running s' ∧ True ∧ s'.toGo < s.toGo) l := by
  cases s with
  | next todo =>
    cases todo with
    | nil => exact .inl rfl
    | cons m todo =>
      refine .inr ⟨.enter m .last todo, rfl, trivial, ?_⟩
      simp only [Scribe.toGo, Record.rank, List.length_cons]
      omega
  | enter m s todo =>
    refine (Scribe.enter_step _ t l m s todo).mono fun _ c _ h => .inr ?_
    rcases h with rfl | ⟨s', rfl, hlt⟩
    · refine ⟨.next todo, rfl, trivial, ?_⟩
      simp only [Scribe.toGo]
      omega
    · refine ⟨.enter m s' todo, rfl, trivial, ?_⟩
      simp only [Scribe.toGo]
      omega

/-- A thread that has begun a record has made it after some of its next eight turns. -/
theorem record_ends {p : Pool threads A Ledger Scribe Unit} (ha : p.aborted = none) {i : threads}
    {m : Metrics} {s : Record} {rest : List Metrics} (hs : p.calls i = .running (.enter m s rest))
    {more : List (Turn threads A)} (hmore : 8 ≤ Pool.turnsOf i more) :
    ∃ first, first <+: more ∧ (p.run recording first).calls i = .running (.next rest) := by
  have hmove : ∀ l c, (∃ s, c = Scribe.enter m s rest) →
      (recording i l c : Move A Ledger Scribe Unit).Ensures (fun _ => True) (fun _ c' _ =>
        c' = .running (.next rest) ∨ ∃ c'', c' = .running c'' ∧
          (∃ s, c'' = Scribe.enter m s rest) ∧ c''.toEnd < c.toEnd) l := by
    rintro l _ ⟨s, rfl⟩
    refine (Scribe.enter_step _ i l m s rest).mono fun _ c _ h => h.imp_right ?_
    rintro ⟨s', rfl, hlt⟩
    exact ⟨_, rfl, ⟨s', rfl⟩, hlt⟩
  have hlt : (Scribe.enter m s rest).toEnd < Pool.turnsOf i more :=
    Nat.lt_of_le_of_lt s.rank_le hmore
  exact Pool.reaches_of_rank recording_ne_abort Scribe.toEnd hmove ha hs ⟨s, rfl⟩ hlt

theorem recording_returns {l : Ledger} {first : threads → Scribe} {i : threads}
    {turns : List (Turn threads A)} (h : (first i).toGo < Pool.turnsOf i turns) :
    ((((Pool.start l first).run recording turns).calls i) : Progress Scribe Unit) =
      .returned () := by
  obtain ⟨before, ⟨later, rfl⟩, hreturned⟩ := Pool.reaches_of_rank recording_ne_abort Scribe.toGo
    (fun l s _ => recording_step i l s) (p := Pool.start l first) rfl rfl trivial h
  rw [Pool.run_append, Pool.calls_run_of_over (by rw [hreturned]; rfl), hreturned]

theorem entries_concat (past : List (Pool.Made threads Ledger Scribe)) (i : threads) (s : Scribe)
    (l l' : Ledger) : entries (past ++ [⟨i, s, l, l'⟩]) =
      entries past ++ s.posts.toList.map fun m => (i.val, m) := by
  cases h : s.posts <;> simp [entries, h]

theorem recordedBy_own (t : Thread) (ms : List Metrics) :
    recordedBy t (ms.map fun m => (t, m)) = ms := by
  simp [recordedBy, List.filter_map, Function.comp_def]

theorem recordedBy_other {t u : Thread} (h : u ≠ t) (ms : List Metrics) :
    recordedBy u (ms.map fun m => (t, m)) = [] := by
  simp [recordedBy, List.filter_map, Function.comp_def, h.symm]

/-- How the ledger and the calls of the threads go together with the entries made so far. -/
structure Written (todo : threads → List Metrics) (p : Pool threads A Ledger Scribe Unit)
    (past : List (Pool.Made threads Ledger Scribe)) : Prop where
  history : p.mem.history = latest ((entries past).map (·.2))
  order : ∀ i : threads, recordedBy i (entries past) ++
    (Scribe.ahead (p.calls i) ++ Scribe.left (p.calls i)) = todo i
  last : ∀ i : threads, p.mem.lastOf i =
    (recordedBy i (entries past) ++ Scribe.ahead (p.calls i)).getLast?.getD Metrics.zero
  strangers : ∀ t, t ∉ threads →
    p.mem.lastOf t = Metrics.zero ∧ recordedBy t (entries past) = []

namespace Written

variable {todo : threads → List Metrics} {p : Pool threads A Ledger Scribe Unit}
  {past : List (Pool.Made threads Ledger Scribe)}

theorem start (todo : threads → List Metrics) :
    Written todo (Pool.start {} fun i => .next (todo i) : Pool threads A Ledger Scribe Unit)
      [] where
  history := rfl
  order _ := rfl
  last _ := rfl
  strangers _ _ := ⟨rfl, rfl⟩

theorem after (h : Written todo p past) {i : threads} {s : Scribe} (hs : p.calls i = .running s)
    {l' : Ledger} {c : Progress Scribe Unit} (hw : s.Writes i p.mem l' c) (l : List (Reply A)) :
    Written todo (p.after i l' c l) (past ++ [⟨i, s, p.mem, l'⟩]) := by
  have hcall : (p.after i l' c l).calls i = c := by simp [Pool.after]
  have hcalls : ∀ j, j ≠ i → (p.after i l' c l).calls j = p.calls j := fun j hj => by
    simp [Pool.after, hj]
  have hown : recordedBy i (entries (past ++ [⟨i, s, p.mem, l'⟩])) =
      recordedBy i (entries past) ++ s.posts.toList := by
    rw [entries_concat, recordedBy_append, recordedBy_own]
  have hother : ∀ t : Thread, t ≠ i → recordedBy t (entries (past ++ [⟨i, s, p.mem, l'⟩])) =
      recordedBy t (entries past) := fun t ht => by
    rw [entries_concat, recordedBy_append, recordedBy_other ht, List.append_nil]
  constructor
  case history =>
    show l'.history = _
    rw [entries_concat, hw.history]
    cases hposts : s.posts with
    | none => simpa using h.history
    | some m => simpa using remember_latest h.history m
  case order =>
    intro j
    by_cases hj : j = i
    · subst hj
      rw [hcall, hown, ← h.order j, hs, List.append_assoc, ← List.append_assoc, ← hw.order]
      simp only [List.append_assoc]
    · rw [hcalls j hj, hother j fun e => hj (Subtype.ext e), h.order j]
  case last =>
    intro j
    show l'.lastOf j = _
    by_cases hj : j = i
    · subst hj
      rw [hcall, hown, List.append_assoc]
      -- Only where the thread takes its next pass does its own record change.
      rcases hw.last with ⟨hsame, hahead⟩ | ⟨m, hm, hahead⟩
      · rw [hsame, hahead, h.last j, hs]
      · rw [hm, hahead, ← List.append_assoc, List.getLast?_concat, Option.getD_some]
    · have hne : j.val ≠ i := fun e => hj (Subtype.ext e)
      rw [hcalls j hj, hother j hne, hw.others j hne, h.last j]
  case strangers =>
    intro t ht
    have hne : t ≠ i := fun e => ht (e ▸ i.property)
    rw [hother t hne]
    exact ⟨(hw.others t hne).trans (h.strangers t ht).1, (h.strangers t ht).2⟩

theorem run (todo : threads → List Metrics) (turns : List (Turn threads A)) :
    let p : Pool threads A Ledger Scribe Unit := Pool.start {} fun i => .next (todo i)
    Written todo (p.run recording turns) (p.history recording turns) := by
  intro p
  have hp : (Outline.blank (fun _ => True) recording).Holds p := Outline.holds_blank p
  refine hp.history_induction recording_ne_abort (fun _ _ => Scribe.move_writes _ _ _ _)
    (start todo) ?_ (Turn.within_true turns)
  intro q past i s l' c l _ hq hs hw
  exact hq.after hs hw l

end Written

/-- The totals together with what all threads are still to add. -/
def dues : Weights A Ledger Scribe Unit Totals where
  mem l := l.totals
  call := Scribe.owed
  reply _ := 0

theorem recording_keeps_dues (t : threads) (l : Ledger) (s : Scribe) :
    (recording t l s).Ensures (fun _ => True) ((dues (A := A)).Related Eq l (.running s)) l := by
  cases s with
  | next todo =>
    cases todo with
    | nil => simp [recording, Scribe.move, Move.Ensures, Weights.Related, dues, Scribe.owed]
    | cons m todo =>
      simp [recording, Scribe.move, Move.Ensures, Weights.Related, dues, Scribe.owed, Record.owed]
  | enter m s todo =>
    simp only [recording, Scribe.move]
    cases s with
    | passes =>
      cases hu : m.unloading <;>
        simp [Record.move, Move.Ensures, Weights.Related, dues, Scribe.owed, Record.owed, hu,
          Metrics.share, Totals.add_def, add_assoc]
    | _ =>
      simp [Record.move, Move.Ensures, Weights.Related, dues, Scribe.owed, Record.owed, setLast,
        remember, Totals.add_def, add_assoc]

theorem totals_run (todo : threads → List Metrics) (turns : List (Turn threads A)) :
    let p : Pool threads A Ledger Scribe Unit := Pool.start {} fun i => .next (todo i)
    let q := p.run recording turns
    q.mem.totals + ∑ i, Scribe.owed (q.calls i) = ∑ i, ((todo i).map Metrics.share).sum := by
  intro p q
  have h : dues.total q = dues.total p := dues.total_run_eq recording_keeps_dues p turns
  have hstart : dues.total p = (0 : Totals) + ∑ i, ((todo i).map Metrics.share).sum :=
    dues.total_start _ _
  have hnow : dues.total q = q.mem.totals + ∑ i, Scribe.owed (q.calls i) := by
    simp [Weights.total, dues]
  rw [← hnow, h, hstart, zero_add]

/-- What the threads enter together is what the entries come to, if only they made entries. -/
theorem sum_recordedBy (es : List (Thread × Metrics)) (h : ∀ e ∈ es, e.1 ∈ threads) :
    ∑ t : threads, ((recordedBy t es).map Metrics.share).sum =
      ((es.map (·.2)).map Metrics.share).sum := by
  induction es with
  | nil => simp [recordedBy]
  | cons e es ih =>
    have hhead : ∀ t : threads, ((recordedBy t (e :: es)).map Metrics.share).sum =
        (if t = ⟨e.1, h e (by simp)⟩ then e.2.share else 0) +
          ((recordedBy t es).map Metrics.share).sum := by
      intro t
      by_cases ht : e.1 = t.val
      · simp [recordedBy, ht]
      · have hne : t ≠ ⟨e.1, h e (by simp)⟩ := fun heq => ht (congrArg Subtype.val heq).symm
        simp [recordedBy, ht, hne]
    rw [Finset.sum_congr rfl fun t _ => hhead t, Finset.sum_add_distrib,
      ih fun e he => h e (by simp [he]), Finset.sum_ite_eq' Finset.univ]
    simp

/-- The totals are the sums over these passes, each kept in one word. -/
structure Sums (t : Totals) (ms : List Metrics) : Prop where
  passes : t.passes = .ofNat ms.length
  withUnloading : t.withUnloading = .ofNat (ms.countP (·.unloading))
  units : t.units.toNat = (ms.map (·.counts.units.toNat)).sum % 2 ^ 64
  cleaned : t.cleaned.toNat = (ms.map (·.counts.cleaned.toNat)).sum % 2 ^ 64
  retries : t.retries.toNat = (ms.map (·.counts.retries.toNat)).sum % 2 ^ 64

theorem sums_share (ms : List Metrics) : Sums (ms.map Metrics.share).sum ms := by
  induction ms with
  | nil => exact ⟨rfl, rfl, rfl, rfl, rfl⟩
  | cons m ms ih =>
    have hword : ∀ (a b : UInt64) (n : ℕ), b.toNat = n % 2 ^ 64 →
        (a + b).toNat = (a.toNat + n) % 2 ^ 64 := fun a b n h => by
      rw [UInt64.toNat_add, h, Nat.add_mod_mod]
    rw [List.map_cons, List.sum_cons, Totals.add_def]
    constructor
    case passes =>
      rw [ih.passes, List.length_cons, Nat.add_comm, UInt64.ofNat_add]
      rfl
    case withUnloading =>
      rw [ih.withUnloading, List.countP_cons, Nat.add_comm, UInt64.ofNat_add]
      cases hu : m.unloading <;> simp [Metrics.share, hu]
    case units => exact hword _ _ _ ih.units
    case cleaned => exact hword _ _ _ ih.cleaned
    case retries => exact hword _ _ _ ih.retries

/-- What a ledger shows, if `es` are the entries in the order in which the history took them. -/
structure Reflects (todo : threads → List Metrics) (q : Pool threads A Ledger Scribe Unit)
    (es : List (Thread × Metrics)) : Prop where
  order : ∀ i : threads, Scribe.Rests (q.calls i) →
    recordedBy i es ++ Scribe.left (q.calls i) = todo i
  /-- The newest come first, and nothing is missing between them. -/
  recent : ∀ n, q.mem.recent n = (es.map (·.2)).reverse.take (min n 64)
  length : ∀ n, (q.mem.recent n).length = min n (min es.length 64)
  bounded : q.mem.history.length ≤ 64
  /-- Whatever other threads are about. -/
  last : ∀ t, (∀ h : t ∈ threads, Scribe.Rests (q.calls ⟨t, h⟩)) →
    q.mem.lastOf t = (recordedBy t es).getLast?.getD Metrics.zero
  totals : (∀ i, Scribe.Rests (q.calls i)) → Sums q.mem.totals (es.map (·.2))

/-- How far the threads come with their own turns, whatever the others do in between: a record that
was begun ends within eight of them, and its pass is entered by then; with nine for each pass and
one more, a thread has entered all of its passes. -/
structure Advances (todo : threads → List Metrics) (turns : List (Turn threads A))
    (q : Pool threads A Ledger Scribe Unit) (es : List (Thread × Metrics)) : Prop where
  ends : ∀ (i : threads) (m : Metrics) (rest : List Metrics),
    q.calls i = .running (.enter m .last rest) →
    ∀ more : List (Turn threads A), Pool.turnsOf i more = 8 → ∃ first, first <+: more ∧
      (q.run recording first).calls i = .running (.next rest) ∧
      recordedBy i (entries (q.history recording first)) = [m]
  all : ∀ i, 9 * (todo i).length < Pool.turnsOf i turns →
    q.calls i = .returned () ∧ recordedBy i es = todo i

theorem recent_of_latest {l : Ledger} {ms : List Metrics} (h : l.history = latest ms) (n : ℕ) :
    l.recent n = ms.reverse.take (min n historySize) := by
  rw [recent, h, latest, List.reverse_drop, List.take_take, List.take_eq_take_iff,
    List.length_reverse]
  omega

theorem reflects_run (todo : threads → List Metrics) (turns : List (Turn threads A)) :
    let p : Pool threads A Ledger Scribe Unit := Pool.start {} fun i => .next (todo i)
    Reflects todo (p.run recording turns) (entries (p.history recording turns)) := by
  intro p
  have hwritten : Written todo (p.run recording turns) (p.history recording turns) :=
    Written.run todo turns
  have htotals := totals_run todo turns
  change (p.run recording turns).mem.totals + ∑ i, Scribe.owed ((p.run recording turns).calls i) = _
    at htotals
  generalize p.run recording turns = q at hwritten htotals ⊢
  generalize p.history recording turns = past at hwritten ⊢
  have horder : ∀ i : threads, Scribe.Rests (q.calls i) →
      recordedBy i (entries past) ++ Scribe.left (q.calls i) = todo i := fun i hi => by
    rw [← hwritten.order i, hi.ahead_eq, List.nil_append]
  have hrecent : ∀ n, q.mem.recent n = ((entries past).map (·.2)).reverse.take (min n 64) :=
    recent_of_latest hwritten.history
  constructor
  case order => exact horder
  case recent => exact hrecent
  case length =>
    intro n
    rw [hrecent, List.length_take, List.length_reverse, List.length_map, Nat.min_assoc,
      Nat.min_comm 64]
  case bounded =>
    have hall := congrArg List.length hwritten.history
    rw [latest, List.length_drop, historySize] at hall
    omega
  case last =>
    intro t ht
    by_cases hin : t ∈ threads
    · rw [hwritten.last ⟨t, hin⟩, (ht hin).ahead_eq, List.append_nil]
    · obtain ⟨hzero, hnone⟩ := hwritten.strangers t hin
      rw [hzero, hnone]
      rfl
  case totals =>
    intro hrest
    have hmem : ∀ e ∈ entries past, e.1 ∈ threads := fun e he => by
      by_contra hout
      have hnone := (hwritten.strangers e.1 hout).2
      have hsome : e.2 ∈ recordedBy e.1 (entries past) :=
        List.mem_map.2 ⟨e, List.mem_filter.2 ⟨he, by simp⟩, rfl⟩
      rw [hnone] at hsome
      exact absurd hsome List.not_mem_nil
    have hdone : ∑ i, Scribe.owed (q.calls i) =
        ∑ i, ((Scribe.left (q.calls i)).map Metrics.share).sum :=
      Finset.sum_congr rfl fun i _ => (hrest i).owed_eq
    have hsplit : ∑ i, ((todo i).map Metrics.share).sum =
        ∑ i : threads, ((recordedBy i (entries past)).map Metrics.share).sum +
          ∑ i, ((Scribe.left (q.calls i)).map Metrics.share).sum := by
      rw [← Finset.sum_add_distrib]
      refine Finset.sum_congr rfl fun i _ => ?_
      rw [← horder i (hrest i), List.map_append, List.sum_append]
    -- What no thread has begun stands on both sides.
    rw [hdone, hsplit, sum_recordedBy _ hmem] at htotals
    rw [add_right_cancel htotals]
    exact sums_share _

theorem advances_run (todo : threads → List Metrics) (turns : List (Turn threads A)) :
    let p : Pool threads A Ledger Scribe Unit := Pool.start {} fun i => .next (todo i)
    Advances todo turns (p.run recording turns) (entries (p.history recording turns)) := by
  intro p
  have hwritten : Written todo (p.run recording turns) (p.history recording turns) :=
    Written.run todo turns
  refine ⟨fun i m rest hs more hmore => ?_, fun i hturns => ?_⟩
  · have ha : (p.run recording turns).aborted = none :=
      Pool.aborted_run recording_ne_abort p rfl turns
    obtain ⟨first, hfirst, hnext⟩ := record_ends ha hs (Nat.le_of_eq hmore.symm)
    refine ⟨first, hfirst, hnext, ?_⟩
    have hbefore := hwritten.order i
    have hafter := (Written.run todo (turns ++ first)).order i
    -- What the thread has entered since is what it was to enter before and is not to enter now.
    rw [hs] at hbefore
    rw [Pool.run_append, Pool.history_append, hnext, entries, List.filterMap_append,
      recordedBy_append, ← hbefore, List.append_assoc] at hafter
    exact List.append_cancel_right (List.append_cancel_left hafter)
  · have hreturned : (p.run recording turns).calls i = .returned () := recording_returns hturns
    have horder := hwritten.order i
    rw [hreturned] at horder
    exact ⟨hreturned, by simpa [Scribe.ahead, Scribe.left] using horder⟩

/-- However many passes are recorded, by whatever threads and however their moves interleave: the
history has the latest ones, each thread its own last one, and the totals are those of all. Every
record that is begun comes to its end. -/
theorem ledger_reflects_all_records (threads : Finset Thread) (todo : threads → List Metrics)
    (turns : List (Turn threads A)) :
    let p : Pool threads A Ledger Scribe Unit := Pool.start {} fun i => .next (todo i)
    let q := p.run recording turns
    let es := entries (p.history recording turns)
    Reflects todo q es ∧ Advances todo turns q es :=
  ⟨reflects_run todo turns, advances_run todo turns⟩

/-- Two threads record a pass each; the second one overtakes the first on the way to the history. -/
theorem ledger_reflects_all_records_two :
    let todo : ({⟨1⟩, ⟨2⟩} : Finset Thread) → List Metrics := fun t =>
      [⟨⟨t.val.id.toUInt64⟩, t.val.id = 1, { units := 3 }⟩]
    let p : Pool _ Host.Answer Ledger Scribe Unit := Pool.start {} fun i => .next (todo i)
    let turns := calmTurns smallHost
      (List.replicate 4 ⟨⟨1⟩, by decide⟩ ++ List.replicate 10 ⟨⟨2⟩, by decide⟩ ++
        List.replicate 6 ⟨⟨1⟩, by decide⟩)
    let q := p.run recording turns
    let es := entries (p.history recording turns)
    es = [(⟨2⟩, ⟨⟨2⟩, false, { units := 3 }⟩), (⟨1⟩, ⟨⟨1⟩, true, { units := 3 }⟩)] ∧
      (∀ i, 9 * (todo i).length < Pool.turnsOf i turns) ∧
      (∀ i, q.calls i = .returned () ∧ recordedBy i es = todo i) ∧
      (∀ n, q.mem.recent n = (es.map (·.2)).reverse.take (min n 64)) ∧
      (∀ t, q.mem.lastOf t = (recordedBy t es).getLast?.getD Metrics.zero) ∧
      Sums q.mem.totals (es.map (·.2)) := by
  intro todo p turns q es
  have hentries :
      es = [(⟨2⟩, ⟨⟨2⟩, false, { units := 3 }⟩), (⟨1⟩, ⟨⟨1⟩, true, { units := 3 }⟩)] := by
    decide +kernel
  have hturns : ∀ i, 9 * (todo i).length < Pool.turnsOf i turns := by decide +kernel
  have hrecorded : Reflects todo q es ∧ Advances todo turns q es :=
    ledger_reflects_all_records _ todo turns
  clear_value q es turns
  obtain ⟨hreflects, hadvances⟩ := hrecorded
  have hall : ∀ i, q.calls i = .returned () ∧ recordedBy i es = todo i :=
    fun i => hadvances.all i (hturns i)
  have hrests : ∀ i, Scribe.Rests (q.calls i) := by
    intro i
    rw [(hall i).1]
    trivial
  exact ⟨hentries, hturns, hall, hreflects.recent, fun t => hreflects.last t fun h => hrests ⟨t, h⟩,
    hreflects.totals hrests⟩

end Ledger

end PauseCleanup
