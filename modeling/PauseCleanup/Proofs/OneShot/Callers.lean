import PauseCleanup.Proofs.OneShot
import PauseCleanup.Proofs.Pool.History
import PauseCleanup.Proofs.Pool.OwnTurns
/-!
# Callers of one flag

Any number of callers make calls on one flag: tries to win it, and questions whether it is taken.
The outcome of a call is decided by the last of its moves that reads the flag.
-/
namespace PauseCleanup.OneShot

open Pool (Made turnsOf)

variable {ι Q : Type} {A : Q → Type}

/-- What a call is made for: to win the flag, or to learn whether it is taken. -/
inductive Request
  | claim
  | ask
  deriving DecidableEq

inductive Outcome
  | claimed (won : Bool)
  | asked (taken : Bool)
  deriving DecidableEq

inductive Call
  | claim (t : Try)
  | ask
  | told (taken : Bool)
  deriving DecidableEq

namespace Call

/-- Where a call begins; `looks` tells whether tries look before they exchange. -/
def first (looks : Bool) : Request → Call
  | .claim => .claim (if looks then .look else .exchange)
  | .ask => .ask

/-- What the call is about to come back with. -/
def pending : Call → Option Outcome
  | .claim (.done won) => some (.claimed won)
  | .told taken => some (.asked taken)
  | _ => none

/-- What the next move decides that the call will come back with. -/
def decides (flag : OneShot) : Call → Option Outcome
  | .claim .look => if flag.taken then some (.claimed false) else none
  | .claim .exchange => some (.claimed (!flag.taken))
  | .ask => some (.asked flag.taken)
  | _ => none

def wins (flag : OneShot) : Call → Bool
  | .claim .exchange => !flag.taken
  | _ => false

/-- No fewer than the moves that the call has made. -/
def moves : Call → ℕ
  | .claim t => 2 - t.toGo
  | .ask => 0
  | .told _ => 2

@[simp] theorem pending_first (looks : Bool) (r : Request) : (first looks r).pending = none := by
  cases r with
  | claim => cases looks <;> rfl
  | ask => rfl

theorem pending_of_decides {flag : OneShot} {s : Call} {o : Outcome}
    (h : s.decides flag = some o) : s.pending = none := by
  cases s with
  | claim t => cases t <;> simp_all [decides, pending]
  | ask => rfl
  | told taken => cases h

theorem wins_iff {flag : OneShot} {s : Call} :
    s.wins flag = true ↔ s.decides flag = some (.claimed true) := by
  cases s with
  | claim t => cases t <;> simp [wins, decides]
  | _ => simp [wins, decides]

theorem free_of_wins {flag : OneShot} {s : Call} (h : s.wins flag = true) : flag.taken = false := by
  cases s with
  | claim t => cases t <;> simp_all [wins]
  | _ => simp [wins] at h

theorem taken_of_vain {flag : OneShot} {s : Call}
    (h : s.decides flag = some (.claimed false)) : flag.taken = true := by
  cases s with
  | claim t => cases t <;> simp_all [decides]
  | _ => simp [decides] at h

theorem moves_le (s : Call) : s.moves ≤ 2 := by
  cases s with
  | claim t => exact Nat.sub_le 2 t.toGo
  | _ => simp [moves]

end Call

/-- A caller in one of its calls, with the outcomes of those before it. -/
structure Caller where
  call : Call
  past : List Outcome := []
  deriving DecidableEq

namespace Caller

/-- All outcomes that are decided; the last of them may be on its way. -/
def outcomes (c : Caller) : List Outcome := c.past ++ c.call.pending.toList

def moves (c : Caller) : ℕ := 3 * c.past.length + c.call.moves

/-- `wish` tells what each of the caller's calls is made for. -/
def start (looks : Bool) (wish : ℕ → Request) : Caller := ⟨.first looks (wish 0), []⟩

def next (looks : Bool) (wish : ℕ → Request) (c : Caller) (o : Outcome) : Caller :=
  ⟨.first looks (wish (c.past.length + 1)), c.past ++ [o]⟩

def move (looks : Bool) (wish : ℕ → Request) (flag : OneShot) (c : Caller) :
    Move A OneShot Caller Empty :=
  match c.call with
  | .claim t => (t.move flag).lift flag id (fun t => { c with call := .claim t })
      fun won => .access flag (c.next looks wish (.claimed won))
  | .ask => .access flag { c with call := .told flag.taken }
  | .told taken => .access flag (c.next looks wish (.asked taken))

/-- What one move does to the flag and to the outcomes of its caller. -/
structure Goes (flag : OneShot) (c : Caller) (flag' : OneShot) (c' : Caller) : Prop where
  taken : flag'.taken = (flag.taken || c.call.wins flag)
  outcomes : c'.outcomes = c.outcomes ++ (c.call.decides flag).toList
  onward : c.moves < c'.moves

theorem goes_on {flag flag' : OneShot} {s s' : Call} (past : List Outcome)
    (htaken : flag'.taken = (flag.taken || s.wins flag)) (hbefore : s.pending = none)
    (hafter : s'.pending = s.decides flag) (honward : s.moves < s'.moves) :
    Goes flag ⟨s, past⟩ flag' ⟨s', past⟩ where
  taken := htaken
  outcomes := by simp [outcomes, hbefore, hafter]
  onward := Nat.add_lt_add_left honward _

theorem goes_next (looks : Bool) (wish : ℕ → Request) {flag : OneShot} {c : Caller} {o : Outcome}
    (hpending : c.call.pending = some o) (hdecides : c.call.decides flag = none)
    (hwins : c.call.wins flag = false) : Goes flag c flag (c.next looks wish o) where
  taken := by simp [hwins]
  outcomes := by simp [outcomes, next, hpending, hdecides]
  onward := by
    have hmoves := c.call.moves_le
    simp only [moves, next, List.length_append, List.length_singleton]
    omega

theorem move_goes (looks : Bool) (wish : ℕ → Request) (flag : OneShot) (c : Caller) :
    ∃ flag' c', (c.move looks wish flag : Move A OneShot Caller Empty) = .access flag' c' ∧
      Goes flag c flag' c' := by
  obtain ⟨call, past⟩ := c
  cases call with
  | claim t =>
    cases t with
    | look =>
      refine ⟨flag, _, rfl, goes_on past (by simp [Call.wins]) rfl ?_ ?_⟩
      · cases h : flag.taken <;> simp [Call.decides, Call.pending, h]
      · cases h : flag.taken <;> simp [Call.moves, Try.toGo]
    | exchange =>
      refine ⟨⟨true⟩, _, rfl, goes_on past (by simp [Call.wins]) rfl rfl ?_⟩
      simp [Call.moves, Try.toGo]
    | done won => exact ⟨flag, _, rfl, goes_next looks wish rfl rfl rfl⟩
  | ask => exact ⟨flag, _, rfl, goes_on past (by simp [Call.wins]) rfl rfl (by simp [Call.moves])⟩
  | told taken => exact ⟨flag, _, rfl, goes_next looks wish rfl rfl rfl⟩

theorem move_ensures {may : Reply A → Prop} (looks : Bool) (wish : ℕ → Request) (flag : OneShot)
    (c : Caller) : (c.move looks wish flag : Move A OneShot Caller Empty).Ensures may
      (fun flag' p _ => ∃ c', p = .running c' ∧ Goes flag c flag' c') flag := by
  obtain ⟨flag', c', hmove, hgoes⟩ := c.move_goes (A := A) looks wish flag
  rw [hmove]
  exact ⟨c', rfl, hgoes⟩

theorem move_ne_abort (looks : Bool) (wish : ℕ → Request) (flag : OneShot) (c : Caller)
    (reason : Abort) : (c.move looks wish flag : Move A OneShot Caller Empty) ≠ .abort reason := by
  obtain ⟨flag', c', hmove, -⟩ := c.move_goes (A := A) looks wish flag
  rw [hmove]
  exact fun h => by cases h

end Caller

def calling (looks : Bool) (wish : ι → ℕ → Request) (i : ι) :
    OneShot → Caller → Move A OneShot Caller Empty :=
  Caller.move looks (wish i)

def callers (looks : Bool) (wish : ι → ℕ → Request) : Pool ι A OneShot Caller Empty :=
  Pool.start {} fun i => .start looks (wish i)

/-- The `n`-th call of the caller `i`, for `k = (i, n)`, has come back with `o` or is about to. -/
def Gets (q : Pool ι A OneShot Caller Empty) (k : ι × ℕ) (o : Outcome) : Prop :=
  ∃ c, q.calls k.1 = .running c ∧ c.outcomes[k.2]? = some o

def callOf (e : Made ι OneShot Caller) : ι × ℕ := (e.caller, e.state.past.length)

def decided (e : Made ι OneShot Caller) : Option Outcome := e.state.call.decides e.before

def wins (e : Made ι OneShot Caller) : Bool := e.state.call.wins e.before

theorem Gets.unique {q : Pool ι A OneShot Caller Empty} {k : ι × ℕ} {o o' : Outcome}
    (h : Gets q k o) (h' : Gets q k o') : o = o' := by
  obtain ⟨c, hc, ho⟩ := h
  obtain ⟨c', hc', ho'⟩ := h'
  obtain rfl := Progress.running.inj (hc.symm.trans hc')
  exact Option.some.inj (ho.symm.trans ho')

theorem Caller.Goes.getElem?_outcomes {flag flag' : OneShot} {c c' : Caller}
    (h : Goes flag c flag' c') (n : ℕ) (o : Outcome) : c'.outcomes[n]? = some o ↔
      c.outcomes[n]? = some o ∨ c.call.decides flag = some o ∧ c.past.length = n := by
  rw [h.outcomes]
  cases hd : c.call.decides flag with
  | none => simp
  | some o' =>
    have hpast : c.outcomes = c.past := by simp [Caller.outcomes, Call.pending_of_decides hd]
    rw [hpast, Option.toList_some]
    rcases Nat.lt_trichotomy n c.past.length with hlt | rfl | hgt
    · simp [List.getElem?_append_left hlt, Nat.ne_of_gt hlt]
    · simp
    · have hlen : (c.past ++ [o']).length ≤ n := by rwa [List.length_append]
      simp [List.getElem?_eq_none hlen, List.getElem?_eq_none (Nat.le_of_lt hgt), Nat.ne_of_lt hgt]

section

variable {q : Pool ι A OneShot Caller Empty} {past : List (Made ι OneShot Caller)}

/-- How the flag and the outcomes go together with the moves made so far. -/
structure Kept (q : Pool ι A OneShot Caller Empty) (past : List (Made ι OneShot Caller)) :
    Prop where
  gets : ∀ k o, Gets q k o ↔ ∃ e ∈ past, decided e = some o ∧ callOf e = k
  taken : q.mem.taken = past.any wins
  seen : ∀ before e after, past = before ++ e :: after → e.before.taken = before.any wins
  once_wins : ∀ e ∈ past, ∀ e' ∈ past, wins e = true → wins e' = true → e = e'

theorem Kept.start (looks : Bool) (wish : ι → ℕ → Request) :
    Kept (callers looks wish : Pool ι A OneShot Caller Empty) [] where
  gets k o := by simp [Gets, callers, Pool.start, Caller.outcomes, Caller.start]
  taken := rfl
  seen before e after h := by simp at h
  once_wins e he := absurd he List.not_mem_nil

theorem Kept.not_wins_twice (h : Kept q past) {e : Made ι OneShot Caller} (he : wins e = true)
    (hnow : e.before = q.mem) : ∀ e' ∈ past, ¬wins e' = true := by
  intro e' he' hwins
  have htaken : q.mem.taken = true := h.taken ▸ List.any_eq_true.2 ⟨e', he', hwins⟩
  have hfree : q.mem.taken = false := hnow ▸ Call.free_of_wins he
  exact Bool.false_ne_true (hfree.symm.trans htaken)

variable [DecidableEq ι]

theorem gets_after {i : ι} {s c : Caller} {flag : OneShot} (hi : q.calls i = .running s)
    (hgoes : Caller.Goes q.mem s flag c) (l : List (Reply A)) (k : ι × ℕ) (o : Outcome) :
    Gets (q.after i flag (.running c) l) k o ↔
      Gets q k o ∨ decided ⟨i, s, q.mem, flag⟩ = some o ∧ callOf ⟨i, s, q.mem, flag⟩ = k := by
  obtain ⟨j, n⟩ := k
  by_cases hj : j = i
  · subst hj
    simpa [Gets, Pool.after, hi, decided, callOf] using hgoes.getElem?_outcomes n o
  · simp [Gets, Pool.after, hj, callOf, Ne.symm hj]

theorem Kept.after (h : Kept q past) {i : ι} {s c : Caller} {flag : OneShot}
    (hi : q.calls i = .running s) (hgoes : Caller.Goes q.mem s flag c) (l : List (Reply A)) :
    Kept (q.after i flag (.running c) l) (past ++ [⟨i, s, q.mem, flag⟩]) where
  gets k o := by
    rw [gets_after hi hgoes, h.gets]
    simp [or_and_right, exists_or]
  taken := by
    have htaken : flag.taken = (q.mem.taken || s.call.wins q.mem) := hgoes.taken
    simp [Pool.after, htaken, h.taken, wins]
  seen before e after hsplit := by
    rcases split_append_singleton hsplit with ⟨rfl, rfl, -⟩ | ⟨after', -, hbefore⟩
    · exact h.taken
    · exact h.seen before e after' hbefore
  once_wins e he e' he' hwins hwins' := by
    -- Of two different moves, one would be the new one and the other would be before it.
    rcases List.mem_append.1 he with he | he <;> rcases List.mem_append.1 he' with he' | he'
    · exact h.once_wins e he e' he' hwins hwins'
    · obtain rfl := List.mem_singleton.1 he'
      exact absurd hwins (h.not_wins_twice hwins' rfl e he)
    · obtain rfl := List.mem_singleton.1 he
      exact absurd hwins' (h.not_wins_twice hwins rfl e' he')
    · rw [List.mem_singleton.1 he, List.mem_singleton.1 he']

/-- Where the callers are after the turns `turns`. -/
def race (looks : Bool) (wish : ι → ℕ → Request) (turns : List (Turn ι A)) :
    Pool ι A OneShot Caller Empty :=
  (callers looks wish).run (calling looks wish) turns

def history (looks : Bool) (wish : ι → ℕ → Request) (turns : List (Turn ι A)) :
    List (Made ι OneShot Caller) :=
  (callers looks wish).history (calling looks wish) turns

variable (looks : Bool) (wish : ι → ℕ → Request) (turns : List (Turn ι A))

theorem kept_race : Kept (race looks wish turns) (history looks wish turns) := by
  have hp : (Outline.blank (fun _ => True) (calling (A := A) looks wish)).Holds
      (callers looks wish) :=
    Outline.holds_blank _
  refine hp.history_induction (fun i => Caller.move_ne_abort looks (wish i))
    (fun {i flag c} _ _ => Caller.move_ensures looks (wish i) flag c) (Kept.start looks wish) ?_
    (Turn.within_true turns)
  rintro q past i s flag _ l _ hq hi ⟨c, rfl, hgoes⟩
  exact hq.after hi hgoes l

def pace (i : ι) :
    Pace (.blank (fun _ => True) (calling looks wish)) (fun _ : Reply A => True) i where
  place n _ p := ∃ c, p = .running c ∧ n ≤ c.moves
  beside _ _ h := h
  step := by
    rintro n flag s _ _ ⟨s', hs, hn⟩
    obtain rfl := Progress.running.inj hs
    refine (Caller.move_ensures looks (wish i) flag s).mono ?_
    rintro flag' p l ⟨c, rfl, hgoes⟩
    exact ⟨c, rfl, Nat.lt_of_le_of_lt hn hgoes.onward⟩
  rests := by
    rintro n flag p hover ⟨c, rfl, -⟩
    cases hover

/-- Three turns of its own are enough for each call of a caller, whatever the others do. -/
theorem race_goes_on (i : ι) :
    ∃ c, (race looks wish turns).calls i = .running c ∧ turnsOf i turns / 3 ≤ c.past.length := by
  let p : Pool ι A OneShot Caller Empty := callers looks wish
  have hstart : (pace (A := A) looks wish i).place 0 p.mem (p.calls i) :=
    ⟨.start looks (wish i), rfl, Nat.zero_le _⟩
  obtain ⟨c, hc, hn⟩ := (pace looks wish i).run (fun i => Caller.move_ne_abort looks (wish i))
    (Outline.holds_blank p) rfl hstart (Turn.within_true turns) (fun t _ _ _ => trivial)
    fun e _ _ => trivial
  have hmoves := c.call.moves_le
  simp only [Caller.moves, Nat.zero_add] at hn
  exact ⟨c, hc, by omega⟩

end

end PauseCleanup.OneShot
