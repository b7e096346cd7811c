import PauseCleanup.Proofs.Pass.Life
/-!
# What a closing writes into the ledger

The numbers of a pass are in the ledger before its check begins, whatever the check finds and
whatever way the closing ends.
-/
namespace PauseCleanup

open Host (Query Answer)

namespace Pass

/-- The ledger remembers these numbers as the latest ones, and as those of the thread. -/
structure Recorded (thread : Thread) (numbers : Metrics) (l : Ledger) : Prop where
  last : l.lastOf thread = numbers
  newest : l.history.getLast? = some numbers

namespace Closing

def Writes (thread : Thread) (numbers : Metrics) (l : Ledger) : Progress Closing Unit → Prop
  | .running .start => True
  | .running (.record numbers' s) =>
    numbers' = numbers ∧ (s ≠ .last → l.lastOf thread = numbers) ∧
      (s = .done → l.history.getLast? = some numbers)
  | _ => Recorded thread numbers l

theorem Writes.of_last {thread : Thread} {numbers : Metrics} {l : Ledger} {s : Ledger.Record}
    (hs : s ≠ .done) (hlast : l.lastOf thread = numbers) :
    Writes thread numbers l (.running (.record numbers s)) :=
  ⟨rfl, fun _ => hlast, fun h => absurd h hs⟩

theorem record_writes {p : Plan} {thread : Thread} {o : Occasion} {e : Estate} {numbers : Metrics}
    {s : Ledger.Record} (hs : Writes thread numbers e.ledger (.running (.record numbers s))) :
    ((Closing.record numbers s).move p thread o e).Ensures (fun _ => True) (fun e' c _ =>
      e'.shared = e.shared ∧ Writes thread numbers e'.ledger c) e := by
  obtain ⟨-, hlast, hnewest⟩ := hs
  cases s with
  | last =>
    have hset : (e.ledger.setLast thread numbers).lastOf thread = numbers :=
      Ledger.lastOf_setLast _ _ _
    exact ⟨rfl, .of_last (by decide) hset⟩
  | history =>
    have hkept : (e.ledger.remember numbers).lastOf thread = numbers := hlast (by decide)
    exact ⟨rfl, rfl, fun _ => hkept, fun _ => List.getLast?_concat⟩
  | done => exact ⟨rfl, hlast (by decide), hnewest rfl⟩
  | passes =>
    refine ⟨rfl, .of_last ?_ (hlast (by decide))⟩
    split <;> decide
  -- The other totals touch neither the thread's own record nor the history.
  | _ => exact ⟨rfl, .of_last (by decide) (hlast (by decide))⟩

theorem move_writes (p : Plan) (thread : Thread) (o : Occasion) {e : Estate} {numbers : Metrics}
    {s : Closing} (hnumbers : metrics p e.shared = numbers)
    (hs : Writes thread numbers e.ledger (.running s)) :
    (s.move p thread o e).Ensures (fun _ => True) (fun e' c _ =>
      metrics p e'.shared = numbers ∧ Writes thread numbers e'.ledger c) e := by
  cases s with
  | start => exact ⟨hnumbers, hnumbers, fun h => absurd rfl h, fun h => by cases h⟩
  | record numbers' s =>
    obtain rfl : numbers' = numbers := hs.1
    refine (record_writes hs).mono fun e' c _ h => ?_
    rw [h.1]
    exact ⟨hnumbers, h.2⟩
  | check s =>
    exact (Move.Ensures.any _ _).lift rfl (fun _ _ _ _ => ⟨hnumbers, hs⟩)
      (fun _ _ => ⟨hnumbers, hs⟩) (fun _ _ _ => ⟨hnumbers, hs⟩)
  | sweep s raised =>
    exact (Move.Ensures.any _ ()).lift rfl (fun _ _ _ _ => ⟨hnumbers, hs⟩)
      (fun _ _ => ⟨hnumbers, hs⟩) (fun _ _ _ => ⟨hnumbers, hs⟩)
  | leave raised => exact ⟨hnumbers, hs⟩
  | done raised => cases raised <;> exact ⟨hnumbers, hs⟩

end Closing

/-- However a closing ends, the numbers of the pass are recorded. -/
theorem closing_recorded {p : Plan} {thread : Thread} {o : Occasion} {e : Estate}
    {turns : List (Turn Unit Answer)} (hended : (closing p thread o e turns).Ended) :
    Recorded thread (metrics p e.shared) (closing p thread o e turns).mem.ledger := by
  have htold : (closing p thread o e turns).Told (fun e s => s.move p thread o e) fun _ e' c =>
      metrics p e'.shared = metrics p e.shared ∧
        Closing.Writes thread (metrics p e.shared) e'.ledger c := by
    refine Pool.told_alone (fun _ e' s hs => ?_) ⟨rfl, trivial⟩ (Turn.within_true turns)
    exact (Closing.move_writes p thread o hs.1 hs.2).mono fun _ _ _ h => h
  cases htold.ending hended with
  | aborted _ _ hmove hstory =>
    rcases Closing.move_eq_abort hmove with ⟨v, rfl, -⟩ | ⟨raised, rfl, -⟩
    · exact hstory.2
    · exact hstory.2
  | returned _ _ hstory => exact hstory.2
  | panicked _ _ hstory => exact hstory.2

end Pass

end PauseCleanup
