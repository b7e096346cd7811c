import PauseCleanup.Proofs.Process.Sound
import Mathlib.Algebra.BigOperators.Group.Finset.Basic
import Mathlib.Data.UInt
/-!
# The books of a process

An `Account` says how a pass stands with the ledger: what it enters in all, and what of it is still
owed. Totals and debts together are what there was at first and what all passes enter.
-/
namespace PauseCleanup

open Host (Query Answer)
open scoped UInt64.CommRing

namespace Totals

instance : Zero Totals := ⟨{}⟩

instance : Add Totals where
  add s t :=
    { passes := s.passes + t.passes
      withUnloading := s.withUnloading + t.withUnloading
      units := s.units + t.units
      cleaned := s.cleaned + t.cleaned
      retries := s.retries + t.retries }

theorem zero_def : (0 : Totals) = {} := rfl

theorem add_def (s t : Totals) : s + t =
    { passes := s.passes + t.passes
      withUnloading := s.withUnloading + t.withUnloading
      units := s.units + t.units
      cleaned := s.cleaned + t.cleaned
      retries := s.retries + t.retries } := rfl

instance : AddCommMonoid Totals where
  add_assoc s t u := by simp only [add_def, add_assoc]
  zero_add t := by simp only [add_def, zero_def, zero_add]
  add_zero t := by simp only [add_def, zero_def, add_zero]
  add_comm s t := by simp only [add_def, add_comm]
  nsmul := nsmulRec

end Totals

/-- What a pass with these numbers adds to the totals. -/
def Metrics.share (m : Metrics) : Totals where
  passes := 1
  withUnloading := if m.unloading then 1 else 0
  units := m.counts.units
  cleaned := m.counts.cleaned
  retries := m.counts.retries

namespace Ledger

/-- What is still to be added at this step. -/
def Record.owed (m : Metrics) : Record → Totals
  | .last | .passes => m.share
  | .withUnloading =>
    { withUnloading := 1, units := m.counts.units, cleaned := m.counts.cleaned
      retries := m.counts.retries }
  | .units =>
    { units := m.counts.units, cleaned := m.counts.cleaned, retries := m.counts.retries }
  | .cleaned => { cleaned := m.counts.cleaned, retries := m.counts.retries }
  | .retries => { retries := m.counts.retries }
  | .history | .done => 0

def latest (entries : List Metrics) : List Metrics := entries.drop (entries.length - historySize)

theorem latest_of_le {entries : List Metrics} (h : entries.length ≤ historySize) :
    latest entries = entries := by
  rw [latest, Nat.sub_eq_zero_of_le h, List.drop_zero]

theorem remember_latest {l : Ledger} {entries : List Metrics} (h : l.history = latest entries)
    (m : Metrics) : (l.remember m).history = latest (entries ++ [m]) := by
  have hlength : l.history.length = entries.length - (entries.length - historySize) := by
    rw [h, latest, List.length_drop]
  have hpos : 0 < historySize := by decide
  rw [remember]
  by_cases hfull : historySize ≤ entries.length
  · have hdrop : (entries ++ [m]).length - historySize = entries.length - historySize + 1 := by
      simp only [List.length_append, List.length_singleton]
      omega
    rw [if_pos (by omega), h, latest, latest, hdrop, List.drop_drop,
      List.drop_append_of_le_length (by omega)]
  · rw [if_neg (by omega), h, latest_of_le (by omega), latest_of_le (by simp; omega)]

end Ledger

namespace Pass

/-- How a pass stands with the ledger. -/
structure Account where
  share : Totals := 0
  owed : Totals := 0
  posted : Option Metrics := none

structure Account.Posts (a : Account) (l : Ledger) (b : Account) (l' : Ledger) : Prop where
  totals : ∃ d, l'.totals + b.owed = l.totals + a.owed + d ∧ b.share = a.share + d
  history : (l'.history = l.history ∧ b.posted = a.posted) ∨
    ∃ m, a.posted = none ∧ b.posted = some m ∧ l'.history = (l.remember m).history

theorem Account.Posts.of_eq {a : Account} {l l' : Ledger} (htotals : l'.totals = l.totals)
    (hhistory : l'.history = l.history) : a.Posts l a l' :=
  ⟨⟨0, by rw [htotals, add_zero], (add_zero _).symm⟩, .inl ⟨hhistory, rfl⟩⟩

/-- The totals and the history are left to those that close their passes. -/
theorem Opening.move_books (may : Reply Answer → Prop) (r : Request) (l : Ledger) (s : Opening) :
    (s.move r l).Ensures may (fun l' _ _ => l'.totals = l.totals ∧ l'.history = l.history) l := by
  cases s with
  | start => exact ⟨rfl, rfl⟩
  | sweep pass s =>
    exact (Move.Ensures.any _ ()).lift rfl (fun _ _ _ _ => ⟨rfl, rfl⟩) (fun _ _ => ⟨rfl, rfl⟩)
      (fun _ _ _ => ⟨rfl, rfl⟩)
  | code pass opened s =>
    exact (Move.Ensures.any _ ()).lift rfl (fun _ _ _ _ => ⟨rfl, rfl⟩) (fun _ _ => ⟨rfl, rfl⟩)
      (fun _ _ _ => ⟨rfl, rfl⟩)
  | classes pass opened plan shared => exact fun _ _ => ⟨rfl, rfl⟩
  | built plan shared => exact ⟨rfl, rfl⟩
  | abandon opened s cause =>
    exact (Move.Ensures.any _ ()).lift rfl (fun _ _ _ _ => ⟨rfl, rfl⟩) (fun _ _ => ⟨rfl, rfl⟩)
      (fun _ _ _ => ⟨rfl, rfl⟩)
  | done plan shared => exact ⟨rfl, rfl⟩

namespace Closing

def account (numbers : Metrics) : Progress Closing Unit → Account
  | .running .start => { share := numbers.share, owed := numbers.share }
  | .running (.record _ s) =>
    { share := numbers.share, owed := s.owed numbers
      posted := if s = .done then some numbers else none }
  | _ => { share := numbers.share, posted := some numbers }

theorem record_posts (may : Reply Answer → Prop) (p : Plan) (t : Thread) (o : Occasion)
    (e : Estate) (numbers : Metrics) (s : Ledger.Record) :
    ((Closing.record numbers s).move p t o e).Ensures may (fun e' c _ =>
      (account numbers (.running (.record numbers s))).Posts e.ledger (account numbers c)
        e'.ledger) e := by
  have hkeeps : ∀ {b c : Totals} {l' : Ledger}, l'.totals + c = e.ledger.totals + b →
      ∃ d, l'.totals + c = e.ledger.totals + b + d ∧ numbers.share = numbers.share + d :=
    fun h => ⟨0, by rw [h, add_zero], (add_zero _).symm⟩
  cases s with
  | last => exact ⟨hkeeps rfl, .inl ⟨rfl, rfl⟩⟩
  | passes =>
    show Account.Posts _ _ (account numbers (.running (.record numbers
      (if numbers.unloading then .withUnloading else .units)))) _
    cases hu : numbers.unloading
    all_goals
      refine ⟨hkeeps ?_, .inl ⟨rfl, rfl⟩⟩
      simp [Totals.add_def, Ledger.Record.owed, Metrics.share, account, hu, add_comm]
  | history => exact ⟨hkeeps rfl, .inr ⟨numbers, rfl, rfl, rfl⟩⟩
  | done => exact ⟨hkeeps rfl, .inl ⟨rfl, rfl⟩⟩
  | _ =>
    refine ⟨hkeeps ?_, .inl ⟨rfl, rfl⟩⟩
    simp [Totals.add_def, Ledger.Record.owed, account, add_comm]

theorem move_posts (may : Reply Answer → Prop) (p : Plan) (t : Thread) (o : Occasion) (e : Estate)
    {s : Closing} (hs : Records (metrics p e.shared) (.running s)) :
    (s.move p t o e).Ensures may (fun e' c _ =>
      (account (metrics p e.shared) (.running s)).Posts e.ledger (account (metrics p e.shared) c)
        e'.ledger) e := by
  cases s with
  | start => exact .of_eq rfl rfl
  | record numbers s =>
    obtain rfl : numbers = metrics p e.shared := hs
    exact record_posts may p t o e _ s
  | check s =>
    exact (Move.Ensures.any _ _).lift rfl (fun _ _ _ _ => .of_eq rfl rfl)
      (fun _ _ => .of_eq rfl rfl) (fun _ _ _ => .of_eq rfl rfl)
  | sweep s raised =>
    exact (Move.Ensures.any _ ()).lift rfl (fun _ _ _ _ => .of_eq rfl rfl)
      (fun _ _ => .of_eq rfl rfl) (fun _ _ _ => .of_eq rfl rfl)
  | leave raised => exact .of_eq rfl rfl
  | done raised => cases raised <;> exact .of_eq rfl rfl

end Closing

namespace Stage

variable {ι : Type}

def numbers? : Stage ι → Option Metrics
  | .closing plan crew _ => some (metrics plan crew.mem)
  | _ => none

def account : Stage ι → Account
  | .closing plan crew call => Closing.account (metrics plan crew.mem) (call.calls ())
  | _ => {}

theorem account_opened (c : Commission ι)
    (call : Pool Unit Answer Ledger Opening (Plan × Shared)) : (opened c call).account = {} := by
  unfold opened
  split <;> rfl

theorem account_share (s : Stage ι) : s.account.share = s.numbers?.elim 0 Metrics.share := by
  cases s with
  | closing plan crew call =>
    show (Closing.account _ (call.calls ())).share = _
    unfold Closing.account
    split <;> rfl
  | _ => rfl

/-- The pass is not being closed, or its closing is over. -/
def AtRest : Stage ι → Prop
  | .closing _ _ call => (call.calls ()).isOver = true
  | _ => True

instance (s : Stage ι) : Decidable s.AtRest :=
  match s with
  | .opening _ => inferInstanceAs (Decidable True)
  | .working .. => inferInstanceAs (Decidable True)
  | .closing _ _ call => inferInstanceAs (Decidable ((call.calls ()).isOver = true))

theorem AtRest.account {s : Stage ι} (h : s.AtRest) :
    s.account.owed = 0 ∧ s.account.posted = s.numbers? := by
  cases s with
  | closing plan crew call =>
    show (Closing.account _ (call.calls ())).owed = 0 ∧
      (Closing.account _ (call.calls ())).posted = some (metrics plan crew.mem)
    cases hcall : call.calls () with
    | running s =>
      have hover : (call.calls ()).isOver = true := h
      rw [hcall] at hover
      cases hover
    | _ => exact ⟨rfl, rfl⟩
  | _ => exact ⟨rfl, rfl⟩

variable [DecidableEq ι] [Fintype ι] {host : (q : Query) → Answer q} {units : List UnitId}
  {c : Commission ι} {l : Ledger} {answer : (q : Query) → Except Panic (Answer q)}

theorem Sound.posts {s : Stage ι} (h : s.Sound host units c)
    (hcalm : ∀ q, answer q = .ok (host q)) (a : Actor ι) :
    s.account.Posts l (s.turn c l a answer).stage.account (s.turn c l a answer).ledger := by
  cases s with
  | opening call =>
    cases a with
    | opener =>
      show Account.Posts {} l (opened c _).account _
      rw [account_opened]
      have hbooks := (opener_keeps hcalm h
        (P := fun l' _ => l'.totals = l.totals ∧ l'.history = l.history) (fun _ => ⟨rfl, rfl⟩)
        fun s _ _ _ => Opening.move_books _ c.request l s).1
      exact .of_eq hbooks.1 hbooks.2
    | _ => exact .of_eq rfl rfl
  | working plan crew =>
    cases a with
    | closer =>
      simp only [turn]
      split
      · have hopen : l.totals + (metrics plan crew.mem).share =
            l.totals + 0 + (metrics plan crew.mem).share := by rw [add_zero]
        exact ⟨⟨_, hopen, (zero_add _).symm⟩, .inl ⟨rfl, rfl⟩⟩
      · exact .of_eq rfl rfl
    | _ => exact .of_eq rfl rfl
  | closing plan crew call =>
    cases a with
    | closer =>
      refine (closer_keeps hcalm h (P := fun e c' =>
        (Closing.account (metrics plan crew.mem) (call.calls ())).Posts l
          (Closing.account (metrics plan crew.mem) c') e.ledger) (fun _ => .of_eq rfl rfl)
        fun s hcall _ hrecords => ?_).1
      rw [hcall]
      exact Closing.move_posts (returning host) plan c.thread .calm ⟨crew.mem, l⟩ hrecords
    | _ => exact .of_eq rfl rfl

end Stage

namespace Process

variable {κ : Type} {ι : κ → Type} [Fintype κ]

/-- The totals and what is owed come to what there was at first and what the passes enter; the
history has the latest entries, those of each pass once. -/
structure Balanced (l : Ledger) (p : Process κ ι) : Prop where
  totals : p.ledger.totals + ∑ k, (p.stages k).account.owed =
    l.totals + ∑ k, (p.stages k).account.share
  history : ∃ order : List κ, order.Nodup ∧
    (∀ k, k ∈ order ↔ (p.stages k).account.posted.isSome = true) ∧
      p.ledger.history =
        Ledger.latest (l.history ++ order.filterMap fun k => (p.stages k).account.posted)

theorem balanced_start {l : Ledger} (hsize : l.history.length ≤ Ledger.historySize) :
    (start l : Process κ ι).Balanced l := by
  refine ⟨?_, [], List.nodup_nil, fun k => ?_, ?_⟩
  · show l.totals + ∑ k : κ, (0 : Totals) = l.totals + ∑ k : κ, (0 : Totals)
    rfl
  · simp [start, Stage.account]
  · rw [List.filterMap_nil, List.append_nil, Ledger.latest_of_le hsize]
    rfl

variable [DecidableEq κ]

theorem balanced_of_posts {l : Ledger} {p q : Process κ ι} {j : κ} (h : p.Balanced l)
    (hposts : (p.stages j).account.Posts p.ledger (q.stages j).account q.ledger)
    (hothers : ∀ k, k ≠ j → q.stages k = p.stages k) : q.Balanced l := by
  obtain ⟨⟨d, howed, hshare⟩, hentry⟩ := hposts
  obtain ⟨htotals, order, hnodup, hmem, hhistory⟩ := h
  have hrest : ∀ f : Account → Totals, ∑ k ∈ Finset.univ.erase j, f (q.stages k).account =
      ∑ k ∈ Finset.univ.erase j, f (p.stages k).account := fun f =>
    Finset.sum_congr rfl fun k hk => by rw [hothers k (Finset.ne_of_mem_erase hk)]
  refine ⟨?_, ?_⟩
  -- What `j` adds to the totals it owes no more, and what it is to owe is in its share.
  · rw [← Finset.add_sum_erase _ _ (Finset.mem_univ j),
      ← Finset.add_sum_erase _ _ (Finset.mem_univ j)] at htotals ⊢
    rw [hrest Account.owed, hrest Account.share]
    set owed := ∑ k ∈ Finset.univ.erase j, (p.stages k).account.owed
    set share := ∑ k ∈ Finset.univ.erase j, (p.stages k).account.share
    calc q.ledger.totals + ((q.stages j).account.owed + owed)
      _ = p.ledger.totals + (p.stages j).account.owed + d + owed := by rw [← add_assoc, howed]
      _ = p.ledger.totals + ((p.stages j).account.owed + owed) + d := by ac_rfl
      _ = l.totals + ((p.stages j).account.share + share) + d := by rw [htotals]
      _ = l.totals + ((p.stages j).account.share + d + share) := by ac_rfl
      _ = l.totals + ((q.stages j).account.share + share) := by rw [hshare]
  · rcases hentry with ⟨hsame, hj⟩ | ⟨m, hnone, hm, hnew⟩
    · have hall : ∀ k, (q.stages k).account.posted = (p.stages k).account.posted := fun k => by
        by_cases hk : k = j
        · rw [hk, hj]
        · rw [hothers k hk]
      exact ⟨order, hnodup, by simpa only [hall] using hmem, by simp only [hall, hsame, hhistory]⟩
    -- Only a pass without an entry makes one, so `j` stands nowhere in the order yet.
    · have hout : j ∉ order := fun hin => by simpa [hnone] using (hmem j).1 hin
      have hold : order.filterMap (fun k => (q.stages k).account.posted) =
          order.filterMap fun k => (p.stages k).account.posted :=
        List.filterMap_congr fun k hk => by rw [hothers k fun hkj => hout (hkj ▸ hk)]
      refine ⟨order ++ [j], ?_, fun k => ?_, ?_⟩
      · rw [← List.concat_eq_append]
        exact hnodup.concat hout
      · by_cases hk : k = j
        · subst hk
          simp [hm]
        · simp [hk, hmem, hothers k hk]
      · rw [hnew, Ledger.remember_latest hhistory, List.filterMap_append, hold]
        simp [hm]

variable [∀ k, DecidableEq (ι k)] [∀ k, Fintype (ι k)] {host : (q : Query) → Answer q}
  {units : List UnitId} {c : (k : κ) → Commission (ι k)} {p : Process κ ι}
  {turns : List (Turn ((k : κ) × Actor (ι k)) Answer)} {l : Ledger}

theorem Balanced.run (h : p.Balanced l) (hsound : p.Sound host units c)
    (hhost : Dependable host units) (hc : ∀ k, (c k).Good)
    (hturns : ∀ t ∈ turns, t.Returns host) : (p.run c turns).Balanced l := by
  refine hsound.run_keeps hhost hc hturns h fun q hqsound hq t ht => ?_
  refine balanced_of_posts (j := t.caller.1) hq ?_ fun k hk => stages_turn_of_ne c t hk
  rw [stages_turn_self c t hqsound.aborted, turn_eq c t hqsound.aborted]
  exact (hqsound.stages t.caller.1).posts (hturns t ht) t.caller.2

omit [DecidableEq κ] [∀ k, DecidableEq (ι k)] [∀ k, Fintype (ι k)] in
/-- When no pass is being closed, nothing is owed. -/
theorem Balanced.at_rest (h : p.Balanced l) (hrest : ∀ k, (p.stages k).AtRest) :
    p.ledger.totals = l.totals + ∑ k, (p.stages k).numbers?.elim 0 Metrics.share ∧
      ∃ order : List κ, order.Nodup ∧ (∀ k, k ∈ order ↔ (p.stages k).numbers?.isSome = true) ∧
        p.ledger.history =
          Ledger.latest (l.history ++ order.filterMap fun k => (p.stages k).numbers?) := by
  obtain ⟨htotals, hhistory⟩ := h
  simp only [(hrest _).account.1, (hrest _).account.2, Stage.account_share,
    Finset.sum_const_zero, add_zero] at htotals hhistory
  exact ⟨htotals, hhistory⟩

end Process

end Pass

end PauseCleanup
