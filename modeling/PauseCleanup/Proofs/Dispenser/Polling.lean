import PauseCleanup.Proofs.Dispenser
import PauseCleanup.Proofs.Pool.Attempts
import PauseCleanup.Proofs.Pool.OwnTurns
/-!
# Callers that poll one dispenser

Any number of callers take numbers from one dispenser, as often as they like, and any exchange may
fail for no reason. The exchanges that go through hand out the numbers in their order.
-/
namespace PauseCleanup.Dispenser

open Attempts (own)
open Pool (Made turnsOf)

variable {ι Q : Type} {A : Q → Type}

/-- A caller with the answers that it has had, and the number of its moves. -/
structure Poll where
  take : Take := .load
  answers : List (Option UInt64) := []
  moves : ℕ := 0
  deriving DecidableEq

/-- `spurious` tells which of the caller's moves, if they are exchanges, fail for no reason. -/
def Poll.move (spurious : ℕ → Bool) (d : Dispenser) (c : Poll) : Move A Dispenser Poll Empty :=
  (c.take.move d (spurious c.moves)).lift d id
    (fun t => { c with take := t, moves := c.moves + 1 })
    fun number => .access d ⟨.load, c.answers ++ [number], c.moves + 1⟩

def polling (spurious : ι → ℕ → Bool) (i : ι) : Dispenser → Poll → Move A Dispenser Poll Empty :=
  Poll.move (spurious i)

def exchanged (e : Made ι Dispenser Poll) : Option UInt64 :=
  match e.state.take with
  | .exchange seen => if e.after = e.before then none else some seen
  | _ => none

/-- The numbers that were handed out, in the order of the exchanges. -/
def numbers (h : List (Made ι Dispenser Poll)) : List UInt64 := h.filterMap exchanged

namespace Take

/-- How one move changes what is handed out: not at all, or by the number where the counter
stands. -/
inductive Hands (d : Dispenser) : Take → Dispenser → Progress Take (Option UInt64) → Prop
  | nothing {t : Take} {c : Progress Take (Option UInt64)} : held c = held (.running t) →
    Hands d t d c
  | number {after : UInt64} : d.next < d.size → Word.succ? d.next = some after →
    Hands d (.exchange d.next) { d with next := after } (.running (.done (some d.next)))

theorem Hands.held_of_returned {d d' : Dispenser} {t : Take} {number : Option UInt64}
    (h : Hands d t d' (.returned number)) : held (.returned number) = held (.running t) := by
  cases h with
  | nothing hheld => exact hheld

theorem move_hands {may : Reply A → Prop} (d : Dispenser) (spurious : Bool) (t : Take) :
    (t.move d spurious : Move A Dispenser Take (Option UInt64)).Ensures may
      (fun d' c _ => Hands d t d' c) d := by
  cases t with
  | load => exact .nothing rfl
  | done number => exact .nothing rfl
  | exchange seen =>
    simp only [move]
    by_cases hend : d.size ≤ seen
    · simp only [hend, if_true]
      exact .nothing rfl
    · simp only [hend, if_false]
      cases hs : Word.succ? seen with
      | none => exact .nothing rfl
      | some after =>
        by_cases hx : seen = d.next ∧ spurious = false
        · obtain ⟨rfl, rfl⟩ := hx
          simp only [and_self, if_true]
          exact .number (UInt64.not_le.1 hend) hs
        · simp only [hx, if_false]
          exact .nothing rfl

end Take

namespace Poll

/-- The numbers that a caller has been given; the last of them may be on its way. -/
def got : Progress Poll Empty → List UInt64
  | .running c => c.answers.filterMap id ++ Take.held (.running c.take)
  | _ => []

def Knows (d : Dispenser) : Progress Poll Empty → Prop
  | .running c => Take.Knows d (.running c.take) ∧ (none ∈ c.answers → d.size ≤ d.next)
  | .returned _ => True
  | .panicked _ => False

theorem knows_stable {d d' : Dispenser} {c : Progress Poll Empty} (h : Later d d')
    (hc : Knows d c) : Knows d' c := by
  cases c with
  | running c => exact ⟨Take.knows_stable h hc.1, fun hn => h.le_next (hc.2 hn)⟩
  | returned r => trivial
  | panicked cause => exact hc

inductive Hands (d : Dispenser) (s : Poll) : Dispenser → Progress Poll Empty → Prop
  | nothing {c : Progress Poll Empty} : got c = got (.running s) → Hands d s d c
  | number {after : UInt64} {c : Progress Poll Empty} : s.take = .exchange d.next →
    d.next < d.size → Word.succ? d.next = some after → got c = got (.running s) ++ [d.next] →
      Hands d s { d with next := after } c

theorem move_ensures {may : Reply A → Prop} {d : Dispenser} (hd : d.Valid) (spurious : ℕ → Bool)
    {s : Poll} (hs : Knows d (.running s)) :
    (s.move spurious d : Move A Dispenser Poll Empty).Ensures may
      (fun d' c l => (d'.Valid ∧ Knows d' c) ∧ Later d d' ∧ l = [] ∧ Hands d s d' c) d := by
  obtain ⟨take, answers, moves⟩ := s
  obtain ⟨htake, hnone⟩ := hs
  refine ((Take.move_ensures (A := A) hd (spurious moves) htake).and
    (Take.move_hands d (spurious moves) take)).lift rfl ?_ ?_ ?_
  · rintro d' t l ⟨⟨hv, hk, hl, rfl, _⟩, hhands⟩
    refine ⟨⟨hv, hk, fun hn => hl.le_next (hnone hn)⟩, hl, rfl, ?_⟩
    cases hhands with
    | nothing hheld => exact .nothing (by simp [got, hheld])
    | number hlt hafter => exact .number rfl hlt hafter (by simp [got, Take.held])
  · rintro number ⟨⟨hv, hk, hl, _, _⟩, hhands⟩
    refine ⟨⟨hv, trivial, fun hn => ?_⟩, hl, rfl, ?_⟩
    · rcases List.mem_append.1 hn with hn | hn
      · exact hnone hn
      · exact hk (List.mem_singleton.1 hn).symm
    · refine .nothing ?_
      rw [got, got, ← hhands.held_of_returned]
      cases number <;> simp [Take.held]
  · rintro cause l ⟨⟨_, hk, _⟩, _⟩
    exact hk.elim

end Poll

section exchanged

variable {e : Made ι Dispenser Poll} {c : Progress Poll Empty}

theorem exchanged_of_still (h : e.after = e.before) : exchanged e = none := by
  unfold exchanged
  split
  · simp [h]
  · rfl

theorem exchanged_of_changed {seen : UInt64} (hs : e.state.take = .exchange seen)
    (h : e.after ≠ e.before) : exchanged e = some seen := by
  simp [exchanged, hs, h]

theorem numbers_concat (h : List (Made ι Dispenser Poll)) (e : Made ι Dispenser Poll) :
    numbers (h ++ [e]) = numbers h ++ (exchanged e).toList := by
  cases he : exchanged e <;> simp [numbers, he]

theorem Poll.Hands.exchanged {d d' : Dispenser} {s : Poll} (h : Poll.Hands d s d' c) (i : ι) :
    (exchanged ⟨i, s, d, d'⟩).toList ++ d'.rest = d.rest ∧ d'.size = d.size ∧
      got c = got (.running s) ++ (exchanged ⟨i, s, d, d'⟩).toList := by
  cases h with
  | nothing hgot =>
    rw [exchanged_of_still rfl]
    exact ⟨rfl, rfl, by simpa using hgot⟩
  | @number after _ hs hlt hafter hgot =>
    have hchanged : ({ d with next := after } : Dispenser) ≠ d := by
      intro he
      have hnext := congrArg (fun d => d.next.toNat) he
      rw [Word.succ?_eq_some hafter] at hnext
      omega
    rw [exchanged_of_changed hs hchanged]
    exact ⟨(rest_of_lt hlt hafter).symm, rfl, hgot⟩

end exchanged

def pollers (may : Reply A → Prop) (spurious : ι → ℕ → Bool) : Outline may (polling spurious) where
  mem := Valid
  call _ := Poll.Knows
  later := Later
  stable := Poll.knows_stable
  step hm hs := (Poll.move_ensures hm _ hs).mono fun _ _ l h =>
    ⟨h.1, h.2.1, fun r hr => by simp [h.2.2.1] at hr⟩

theorem polling_ne_abort (spurious : ι → ℕ → Bool) (i : ι) (d : Dispenser) (c : Poll)
    (reason : Abort) :
    (polling spurious i d c : Move A Dispenser Poll Empty) ≠ .abort reason := by
  obtain ⟨take, answers, moves⟩ := c
  cases take with
  | exchange seen =>
    simp only [polling, Poll.move, Take.move]
    split
    · simp
    · split
      · simp
      · split <;> simp
  | _ => simp [polling, Poll.move]

/-- How the counter and the callers go together with the exchanges made so far. -/
structure Counted [DecidableEq ι] (bound : UInt64) (q : Pool ι A Dispenser Poll Empty)
    (past : List (Made ι Dispenser Poll)) : Prop where
  size : q.mem.size = bound
  whole : numbers past ++ q.mem.rest = rest { size := bound }
  own : ∀ i, Poll.got (q.calls i) = numbers (own i past)

variable [DecidableEq ι] {spurious : ι → ℕ → Bool} {bound : UInt64}
  {q : Pool ι A Dispenser Poll Empty} {past : List (Made ι Dispenser Poll)}

theorem Counted.after (h : Counted bound q past) {i : ι} {s : Poll} (hs : q.calls i = .running s)
    {d : Dispenser} {c : Progress Poll Empty} (hhands : Poll.Hands q.mem s d c)
    (l : List (Reply A)) : Counted bound (q.after i d c l) (past ++ [⟨i, s, q.mem, d⟩]) := by
  let e : Made ι Dispenser Poll := ⟨i, s, q.mem, d⟩
  obtain ⟨hrest, hsize, hgot⟩ := hhands.exchanged i
  refine ⟨hsize.trans h.size, ?_, fun j => ?_⟩
  · rw [numbers_concat, List.append_assoc]
    exact (congrArg _ hrest).trans h.whole
  · by_cases hj : i = j
    · subst hj
      rw [Attempts.own_concat_self (e := e) rfl, numbers_concat, ← h.own i, hs, ← hgot]
      simp [Pool.after]
    · rw [Attempts.own_concat_of_ne (e := e) hj, ← h.own j]
      simp [Pool.after, Ne.symm hj]

theorem counted_run (bound : UInt64) (spurious : ι → ℕ → Bool) (turns : List (Turn ι A)) :
    let p : Pool ι A Dispenser Poll Empty := Pool.start { size := bound } fun _ => {}
    (pollers (fun _ => True) spurious).Holds (p.run (polling spurious) turns) ∧
      Counted bound (p.run (polling spurious) turns) (p.history (polling spurious) turns) := by
  intro p
  have hvalid : Valid { size := bound } := UInt64.le_iff_toNat_le.2 (Nat.zero_le _)
  have hp : (pollers (fun _ => True) spurious).Holds p :=
    Outline.holds_start _ hvalid fun i => ⟨trivial, fun hn => absurd hn List.not_mem_nil⟩
  have hstart : Counted bound p [] := ⟨rfl, rfl, fun i => rfl⟩
  refine ⟨hp.run (Turn.within_true turns), ?_⟩
  refine hp.history_induction (polling_ne_abort spurious)
    (fun hm hs => (Poll.move_ensures hm _ hs).mono fun _ _ _ h => h.2.2.2)
    hstart ?_ (Turn.within_true turns)
  intro q past i s d c l _ hq hs hhands
  exact hq.after hs hhands l

/-- A poll of a dispenser with nothing left: after `n` moves each third one has brought an answer,
and none of the answers is a number. -/
structure Spent (answers : List (Option UInt64)) (d : Dispenser) (n : ℕ) (c : Poll) : Prop where
  answers : c.answers = answers ++ List.replicate (n / 3) none
  load : n % 3 = 0 → c.take = .load
  exchange : n % 3 = 1 → ∃ seen, c.take = .exchange seen ∧ d.size ≤ seen
  done : n % 3 = 2 → c.take = .done none

theorem Spent.move {answers : List (Option UInt64)} {d : Dispenser} {n : ℕ} {s : Poll}
    (hd : d.size ≤ d.next) (h : Spent answers d n s) (spurious : ℕ → Bool) :
    ∃ c, (s.move spurious d : Move A Dispenser Poll Empty) = .access d c ∧
      Spent answers d (n + 1) c := by
  obtain ⟨take, past, moves⟩ := s
  have hanswers : past = answers ++ List.replicate (n / 3) none := h.answers
  have hlt : n % 3 < 3 := Nat.mod_lt n (by decide)
  by_cases hload : n % 3 = 0
  · obtain rfl : take = .load := h.load hload
    refine ⟨⟨.exchange d.next, past, moves + 1⟩, rfl, ?_⟩
    exact {
      answers := by rw [hanswers, show (n + 1) / 3 = n / 3 by omega]
      load := fun _ => by omega
      exchange := fun _ => ⟨d.next, rfl, hd⟩
      done := fun _ => by omega }
  · by_cases hexchange : n % 3 = 1
    · obtain ⟨seen, htake, hseen⟩ := h.exchange hexchange
      obtain rfl : take = .exchange seen := htake
      refine ⟨⟨.done none, past, moves + 1⟩, by simp [Poll.move, Take.move, hseen], ?_⟩
      exact {
        answers := by rw [hanswers, show (n + 1) / 3 = n / 3 by omega]
        load := fun _ => by omega
        exchange := fun _ => by omega
        done := fun _ => rfl }
    · obtain rfl : take = .done none := h.done (by omega)
      have hone : (n + 1) / 3 = n / 3 + 1 := by omega
      refine ⟨⟨.load, past ++ [none], moves + 1⟩, rfl, ?_⟩
      exact {
        answers := by rw [hanswers, hone, List.replicate_succ', List.append_assoc]
        load := fun _ => rfl
        exchange := fun _ => by omega
        done := fun _ => by omega }

theorem Spent.later {answers : List (Option UInt64)} {d d' : Dispenser} {n : ℕ} {c : Poll}
    (h : Spent answers d n c) (hl : Later d d') : Spent answers d' n c := by
  refine ⟨h.answers, h.load, fun hn => ?_, h.done⟩
  rw [hl.size]
  exact h.exchange hn

def spentPace (may : Reply A → Prop) (spurious : ι → ℕ → Bool) (i : ι)
    (answers : List (Option UInt64)) : Pace (pollers may spurious) may i where
  place n d c := d.size ≤ d.next ∧ ∃ s, c = .running s ∧ Spent answers d n s
  beside := by
    rintro n e c _ hl ⟨hd, s, hs, hspent⟩
    exact ⟨hl.le_next hd, s, hs, hspent.later hl⟩
  step := by
    rintro n d s _ _ ⟨hd, s', hs, hspent⟩
    obtain rfl := Progress.running.inj hs
    obtain ⟨c, hmove, hc⟩ := hspent.move (A := A) hd (spurious i)
    rw [polling, hmove]
    exact ⟨hd, c, rfl, hc⟩
  rests := by
    rintro n d c hover ⟨_, s, rfl, _⟩
    cases hover

/-- What a caller has had of a dispenser of `bound` numbers, if the moves `h` were made. -/
structure Served (bound : UInt64) (h : List (Made ι Dispenser Poll)) (i : ι) (c : Poll) :
    Prop where
  /-- The numbers of its own exchanges that went through, the last of them perhaps on its way. -/
  own : c.answers.filterMap id ++ Take.held (.running c.take) = numbers (own i h)
  ascending : (c.answers.filterMap id).Pairwise (· < ·)
  late : none ∈ c.answers → (numbers h).length = bound.toNat

/-- How a dispenser of `bound` numbers stands after the moves `h`. -/
structure CountedOut (bound : UInt64) (spurious : ι → ℕ → Bool)
    (q : Pool ι A Dispenser Poll Empty) (h : List (Made ι Dispenser Poll)) : Prop where
  order : numbers h = (List.range (numbers h).length).map UInt64.ofNat
  counter : q.mem.next.toNat = (numbers h).length
  bounded : q.mem.size = bound ∧ q.mem.next ≤ bound
  left : ∃ n, q.mem.left = .ok n ∧ n.toNat = bound.toNat - (numbers h).length
  served : ∀ i, ∃ c, q.calls i = .running c ∧ Served bound h i c
  /-- When all numbers are handed out, whoever asks from then on is sent away, in three moves. -/
  closed : (numbers h).length = bound.toNat → ∀ i c, q.calls i = .running c → c.take = .load →
    ∀ more : List (Turn ι A), ∃ c', (q.run (polling spurious) more).calls i = .running c' ∧
      c'.answers = c.answers ++ List.replicate (turnsOf i more / 3) none

theorem Counted.order (h : Counted bound q past) (hvalid : q.mem.Valid) :
    (numbers past).length = q.mem.next.toNat ∧
      numbers past = (List.range q.mem.next.toNat).map UInt64.ofNat := by
  have hle : q.mem.next.toNat ≤ bound.toNat := h.size ▸ UInt64.le_iff_toNat_le.1 hvalid
  have hwhole := h.whole
  rw [rest_fresh] at hwhole
  have hlen := congrArg List.length hwhole
  simp only [List.length_append, rest, List.length_map, List.length_range', List.length_range,
    h.size] at hlen
  have hcount : (numbers past).length = q.mem.next.toNat := by omega
  refine ⟨hcount, ?_⟩
  have htake := congrArg (List.take q.mem.next.toNat) hwhole
  rw [List.take_left' hcount, ← List.map_take, List.take_range, Nat.min_eq_left hle] at htake
  exact htake

theorem Counted.length_of_ended (h : Counted bound q past) (hvalid : q.mem.Valid)
    (hend : q.mem.size ≤ q.mem.next) : (numbers past).length = bound.toNat := by
  rw [(h.order hvalid).1, UInt64.le_antisymm hvalid hend, h.size]

theorem Counted.ascending (h : Counted bound q past) : (numbers past).Pairwise (· < ·) := by
  have hall := rest_ascending { size := bound }
  rw [← h.whole] at hall
  exact (List.pairwise_append.1 hall).1

theorem Counted.served {may : Reply A → Prop} (h : Counted bound q past)
    (hq : (pollers may spurious).Holds q) (i : ι) :
    ∃ c, q.calls i = .running c ∧ Served bound past i c := by
  have hknows := hq.call i
  have hown := h.own i
  cases hi : q.calls i with
  | running c =>
    rw [hi] at hknows hown
    refine ⟨c, rfl, hown, ?_, fun hn => h.length_of_ended hq.mem (hknows.2 hn)⟩
    have hsub : (c.answers.filterMap id).Sublist (numbers past) := by
      refine (List.sublist_append_left _ (Take.held (.running c.take))).trans ?_
      rw [← Poll.got, hown]
      exact List.Sublist.filterMap _ List.filter_sublist
    exact h.ascending.sublist hsub
  | returned r => exact r.elim
  | panicked cause =>
    rw [hi] at hknows
    exact hknows.elim

theorem answers_of_ended (hq : (pollers (fun _ => True) spurious).Holds q)
    (ha : q.aborted = none) (hend : q.mem.size ≤ q.mem.next) {i : ι} {c : Poll}
    (hi : q.calls i = .running c) (hload : c.take = .load) (more : List (Turn ι A)) :
    ∃ c', (q.run (polling spurious) more).calls i = .running c' ∧
      c'.answers = c.answers ++ List.replicate (turnsOf i more / 3) none := by
  have hspent : Spent c.answers q.mem 0 c :=
    { answers := by simp
      load := fun _ => hload
      exchange := fun hn => by omega
      done := fun hn => by omega }
  obtain ⟨-, c', hc', hspent'⟩ :=
    (spentPace (fun _ => True) spurious i c.answers).run (polling_ne_abort spurious) hq ha
      ⟨hend, c, hi, hspent⟩ (Turn.within_true more) (fun t _ _ _ => trivial) fun e _ _ => trivial
  rw [Nat.zero_add] at hspent'
  exact ⟨c', hc', hspent'.answers⟩

/-- However many callers poll a dispenser, in whatever order they move, and whichever exchanges fail
for no reason: the numbers are handed out in their order, each once, to callers that get them in
ascending order, and none is missing when the first caller is sent away. -/
theorem numbers_are_counted_out (bound : UInt64) (spurious : ι → ℕ → Bool)
    (turns : List (Turn ι A)) :
    let p : Pool ι A Dispenser Poll Empty := Pool.start { size := bound } fun _ => {}
    CountedOut bound spurious (p.run (polling spurious) turns)
      (p.history (polling spurious) turns) := by
  intro p
  obtain ⟨hholds, hcounted⟩ := counted_run (A := A) bound spurious turns
  change (pollers (fun _ => True) spurious).Holds (p.run (polling spurious) turns) at hholds
  change Counted bound (p.run (polling spurious) turns) (p.history (polling spurious) turns)
    at hcounted
  have hlive : (p.run (polling spurious) turns).aborted = none :=
    p.aborted_run (polling_ne_abort spurious) rfl turns
  generalize p.run (polling spurious) turns = q at hholds hcounted hlive ⊢
  generalize p.history (polling spurious) turns = h at hcounted ⊢
  have hvalid : q.mem.next ≤ q.mem.size := hholds.mem
  have hbound := hcounted.size
  obtain ⟨hcount, horder⟩ := hcounted.order hvalid
  constructor
  case order =>
    rwa [hcount]
  case counter => exact hcount.symm
  case bounded => exact ⟨hbound, hbound ▸ hvalid⟩
  case left =>
    refine ⟨q.mem.size - q.mem.next, by rw [left, if_pos hvalid], ?_⟩
    rw [UInt64.toNat_sub_of_le _ _ hvalid, hcount, hbound]
  case served => exact hcounted.served hholds
  case closed =>
    intro hall i c hi hload more
    have hend : q.mem.size ≤ q.mem.next := by
      rw [UInt64.le_iff_toNat_le, hbound, ← hall, hcount]
    exact answers_of_ended hholds hlive hend hi hload more

/-- Two callers and two numbers; the first exchange of the first caller fails for no reason, and its
second one because the other was faster. -/
theorem numbers_are_counted_out_two :
    let spurious : Fin 2 → ℕ → Bool := fun i n => i = 0 && n = 1
    let p : Pool (Fin 2) (fun _ : Empty => Unit) Dispenser Poll Empty :=
      Pool.start { size := 2 } fun _ => {}
    let turns := [0, 0, 1, 1, 1, 0, 0, 0, 0, 0, 0].map fun i => ⟨i, fun q => q.elim⟩
    let q := p.run (polling spurious) turns
    let h := p.history (polling spurious) turns
    q.calls 0 = .running ⟨.load, [some 1, none], 8⟩ ∧ q.calls 1 = .running ⟨.load, [some 0], 3⟩ ∧
      numbers h = [0, 1] ∧ CountedOut 2 spurious q h ∧
      ∀ more, ∃ c, (q.run (polling spurious) more).calls 1 = .running c ∧
        c.answers = some 0 :: List.replicate (turnsOf 1 more / 3) none := by
  intro spurious p turns q h
  have hfirst : q.calls 0 = .running ⟨.load, [some 1, none], 8⟩ := by decide +kernel
  have hsecond : q.calls 1 = .running ⟨.load, [some 0], 3⟩ := by decide +kernel
  have hnumbers : numbers h = [0, 1] := by decide +kernel
  have hcounted : CountedOut 2 spurious q h := numbers_are_counted_out 2 spurious turns
  clear_value q h
  have hall : (numbers h).length = (2 : UInt64).toNat := by
    rw [hnumbers]
    rfl
  exact ⟨hfirst, hsecond, hnumbers, hcounted, hcounted.closed hall 1 _ hsecond rfl⟩

end PauseCleanup.Dispenser
