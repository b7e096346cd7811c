import PauseCleanup.Proofs.OneShot.Callers
import PauseCleanup.Proofs.Pool.Abridged
/-!
# One try wins

Of all tries for one flag, the one wins whose exchange finds it free. A look that finds it free
decides nothing: callers that do not look at all have the same outcomes.
-/
namespace PauseCleanup.OneShot

open Pool (Made turnsOf)

variable {ι Q : Type} {A : Q → Type}

/-- What has come of all calls on a flag after the moves `h`. -/
structure WonOnce (q : Pool ι A OneShot Caller Empty) (h : List (Made ι OneShot Caller)) :
    Prop where
  once : ∀ k k', Gets q k (.claimed true) → Gets q k' (.claimed true) → k = k'
  /-- It is the one whose exchange has succeeded. -/
  winner : ∀ k, Gets q k (.claimed true) ↔ ∃ e ∈ h, wins e = true ∧ callOf e = k
  vain : ∀ k, Gets q k (.claimed false) → ∃ e ∈ h, wins e = true ∧ callOf e ≠ k
  /-- As soon as one try has come back, there is the one that wins. -/
  settled : ∀ i c won, q.calls i = .running c → .claimed won ∈ c.past →
    ∃! k, Gets q k (.claimed true)
  taken : q.mem.taken = true ↔ ∃ e ∈ h, wins e = true
  /-- Whoever asks is told whether that exchange was before. -/
  asked : ∀ before e after, h = before ++ e :: after → e.state.call = .ask →
    Gets q (callOf e) (.asked (before.any wins))

namespace Kept

variable {q : Pool ι A OneShot Caller Empty} {past : List (Made ι OneShot Caller)} {k : ι × ℕ}

theorem winner (h : Kept q past) (k : ι × ℕ) :
    Gets q k (.claimed true) ↔ ∃ e ∈ past, wins e = true ∧ callOf e = k := by
  rw [h.gets]
  simp only [wins, Call.wins_iff, decided]

theorem taken_iff (h : Kept q past) : q.mem.taken = true ↔ ∃ e ∈ past, wins e = true := by
  rw [h.taken, List.any_eq_true]

theorem vain (h : Kept q past) (hk : Gets q k (.claimed false)) :
    ∃ e ∈ past, wins e = true ∧ callOf e ≠ k := by
  obtain ⟨e, he, hvain, -⟩ := (h.gets k _).1 hk
  obtain ⟨before, after, hsplit⟩ := List.append_of_mem he
  have htaken : before.any wins = true := by
    rw [← h.seen before e after hsplit]
    exact Call.taken_of_vain hvain
  obtain ⟨e', he', hwins⟩ := List.any_eq_true.1 htaken
  have hpast : e' ∈ past := hsplit ▸ List.mem_append_left _ he'
  refine ⟨e', hpast, hwins, ?_⟩
  -- The call of `e'` has won, so it is not one that is in vain.
  rintro rfl
  have hwon : Gets q (callOf e') (.claimed true) := (h.winner _).2 ⟨e', hpast, hwins, rfl⟩
  cases hwon.unique hk

theorem once (h : Kept q past) {k' : ι × ℕ} (hk : Gets q k (.claimed true))
    (hk' : Gets q k' (.claimed true)) : k = k' := by
  obtain ⟨e, he, hwins, rfl⟩ := (h.winner k).1 hk
  obtain ⟨e', he', hwins', rfl⟩ := (h.winner k').1 hk'
  rw [h.once_wins e he e' he' hwins hwins']

theorem exists_winner (h : Kept q past) {won : Bool} (hk : Gets q k (.claimed won)) :
    ∃ k', Gets q k' (.claimed true) := by
  cases won with
  | true => exact ⟨k, hk⟩
  | false =>
    obtain ⟨e, he, hwins, -⟩ := h.vain hk
    exact ⟨callOf e, (h.winner _).2 ⟨e, he, hwins, rfl⟩⟩

theorem wonOnce (h : Kept q past) : WonOnce q past where
  once k k' := h.once
  winner := h.winner
  vain k := h.vain
  settled := by
    intro i c won hi hpast
    obtain ⟨n, hn, hget⟩ := List.getElem_of_mem hpast
    have hk : Gets q (i, n) (.claimed won) := by
      refine ⟨c, hi, ?_⟩
      rw [Caller.outcomes, List.getElem?_append_left hn, List.getElem?_eq_getElem hn, hget]
    obtain ⟨k, hwon⟩ := h.exists_winner hk
    exact ⟨k, hwon, fun k' hk' => h.once hk' hwon⟩
  taken := h.taken_iff
  asked := by
    intro before e after hsplit hask
    have he : e ∈ past := by simp [hsplit]
    rw [← h.seen before e after hsplit]
    exact (h.gets _ _).2 ⟨e, he, by simp [decided, Call.decides, hask], rfl⟩

end Kept

/-- The same call, for a caller that does not look before it exchanges. -/
def Call.direct : Call → Call
  | .claim .look => .claim .exchange
  | s => s

/-- Whether the next move is a look that finds the flag free, so that the exchange is to come. -/
def Call.undecided (flag : OneShot) : Call → Bool
  | .claim .look => !flag.taken
  | _ => false

def Caller.direct (c : Caller) : Caller := { c with call := c.call.direct }

theorem Call.direct_first (r : Request) : (first true r).direct = first false r := by
  cases r <;> rfl

theorem Caller.direct_next (wish : ℕ → Request) (c : Caller) (o : Outcome) :
    (c.next true wish o).direct = c.direct.next false wish o := by
  simp [direct, next, Call.direct_first]

theorem shortens_calling (wish : ι → ℕ → Request) :
    Pool.Shortens Caller.direct (fun flag c => c.call.undecided flag)
      (calling (A := A) true wish) (calling false wish) where
  still := by
    rintro i flag ⟨call, past⟩ hidle
    cases call with
    | claim t =>
      cases t with
      | look =>
        have hfree : flag.taken = false := by simpa [Call.undecided] using hidle
        exact ⟨⟨.claim .exchange, past⟩, by simp [calling, Caller.move, hfree], rfl⟩
      | _ => cases hidle
    | _ => cases hidle
  along := by
    rintro i flag ⟨call, past⟩ hbusy
    cases call with
    | claim t =>
      cases t with
      | look =>
        -- The look sends the call away, and so does the exchange, which leaves a taken flag taken.
        have htaken : flag.taken = true := by simpa [Call.undecided] using hbusy
        obtain rfl : flag = ⟨true⟩ := congrArg OneShot.mk htaken
        rfl
      | exchange => rfl
      | done won =>
        exact congrArg (Move.access flag · []) (Caller.direct_next (wish i) _ (.claimed won)).symm
    | ask => rfl
    | told taken =>
      exact congrArg (Move.access flag · []) (Caller.direct_next (wish i) _ (.asked taken)).symm

section

variable [DecidableEq ι] (wish : ι → ℕ → Request) (turns : List (Turn ι A))

/-- The turns of a run without those in which a look finds the flag free: of each try, there remain
the turn in which it reads the flag for the last time and the one in which it comes back. -/
def decisive : List (Turn ι A) :=
  (callers true wish).abridged (calling true wish) (fun flag c => c.call.undecided flag) turns

theorem race_direct : race false wish (decisive wish turns) =
    (race true wish turns).map Caller.direct := by
  have hstart : (callers true wish : Pool ι A OneShot Caller Empty).map Caller.direct =
      callers false wish := by
    simp [Pool.map, callers, Pool.start, Progress.map, Caller.direct, Caller.start,
      Call.direct_first]
  rw [race, ← hstart]
  exact (shortens_calling wish).run _ turns

theorem race_stays_taken (more : List (Turn ι A)) (h : (race true wish turns).mem.taken = true) :
    (race true wish (turns ++ more)).mem.taken = true := by
  rw [(kept_race true wish _).taken] at h ⊢
  rw [history, Pool.history_append, List.any_append]
  exact Bool.or_eq_true_iff.2 (.inl h)

/-- However many callers make calls on one flag, as often as they like and in whatever order they
move: exactly one try wins, nobody is kept waiting, and all calls come back with what they would if
each try were its exchange alone, made when the try reads the flag for the last time. -/
theorem flag_has_one_winner :
    WonOnce (race true wish turns) (history true wish turns) ∧
      (∀ more, (race true wish turns).mem.taken = true →
        (race true wish (turns ++ more)).mem.taken = true) ∧
      (∀ i, ∃ c, (race true wish turns).calls i = .running c ∧
        turnsOf i turns / 3 ≤ c.past.length) ∧
      race false wish (decisive wish turns) = (race true wish turns).map Caller.direct :=
  ⟨(kept_race true wish turns).wonOnce, race_stays_taken wish turns, race_goes_on true wish turns,
    race_direct wish turns⟩

end

/-- Both callers find the flag free, and the second is the first to exchange. Then the first asks,
and the second tries again. -/
theorem flag_has_one_winner_two :
    let wish : Fin 2 → ℕ → Request := fun i n => if i = 0 ∧ n = 1 then .ask else .claim
    let turns : List (Turn (Fin 2) fun _ : Empty => Unit) :=
      [0, 1, 1, 0, 0, 0, 0, 1, 1, 1].map fun i => ⟨i, fun q => q.elim⟩
    let q := race true wish turns
    q.calls 0 = .running ⟨.claim .look, [.claimed false, .asked true]⟩ ∧
      q.calls 1 = .running ⟨.claim .look, [.claimed true, .claimed false]⟩ ∧
      (∃! k, Gets q k (.claimed true)) ∧
      (∀ more, (race true wish (turns ++ more)).mem.taken = true) ∧
      race false wish (decisive wish turns) = q.map Caller.direct := by
  intro wish turns q
  have hfirst : q.calls 0 = .running ⟨.claim .look, [.claimed false, .asked true]⟩ := by
    decide +kernel
  have hsecond : q.calls 1 = .running ⟨.claim .look, [.claimed true, .claimed false]⟩ := by
    decide +kernel
  have htaken : (race true wish turns).mem.taken = true := by decide +kernel
  have hq : q = race true wish turns := rfl
  clear_value q turns
  obtain ⟨hwon, hstays, -, hdirect⟩ := flag_has_one_winner wish turns
  rw [← hq] at hwon hdirect
  have hone : ∃! k, Gets q k (.claimed true) := hwon.settled 0 _ false hfirst (by simp)
  exact ⟨hfirst, hsecond, hone, fun more => hstays more htaken, hdirect⟩

end PauseCleanup.OneShot
