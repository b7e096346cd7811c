import PauseCleanup.Proofs.Pass.Owed
import PauseCleanup.Proofs.NoRescue
import PauseCleanup.Proofs.Unloading.Hand
/-!
# All that may be called on a class cleaning

Beside the workers, anybody may search for the next instance class and keep it, or try for the
subclass tree. Only one thing can be lost: the links of a class whose kind could not be told.
-/
namespace PauseCleanup.ClassCleaning

open Host (Query Answer)
open OneShot (Try)

/-- What a reply loses: a class whose kind is not told is never cleaned. -/
def lost (host : (q : Query) → Answer q) : Reply Answer → Multiset Query
  | ⟨.kindOf c, .error _⟩ => if (host (.kindOf c)).isInstance then links (some c) else 0
  | _ => 0

/-- What is asked or lost with a reply. -/
def settled (host : (q : Query) → Answer q) (r : Reply Answer) : Multiset Query :=
  chores [r] + lost host r

section settled

variable {host : (q : Query) → Answer q}

theorem settled_ok (q : Query) (a : Answer q) : settled host ⟨q, .ok a⟩ = chores [⟨q, .ok a⟩] := by
  cases q <;> exact add_zero _

theorem sum_settled_of_calm {State Result : Type} {c : Progress State Result}
    {l : List (Reply Answer)} (hl : Breaks c l) (hc : ∀ cause, c ≠ .panicked cause) :
    (l.map (settled host)).sum = chores l := by
  rw [← sum_chores]
  congr 1
  refine List.map_congr_left fun r hr => ?_
  obtain ⟨q, a⟩ := r
  cases a with
  | error cause => exact absurd (hl _ hr cause rfl) (hc cause)
  | ok a => exact settled_ok q a

theorem settled_of_settles {State Result : Type} {c : Progress State Result}
    {l : List (Reply Answer)} {t t' : Tallied Shared} {o o' : Multiset Query}
    (h : Settles c (t'.own.owes host + o' + chores l) (t.own.owes host + o)) (hl : Breaks c l)
    (hpanic : ∀ cause, c = .panicked cause → t' = t ∧ o' = 0 ∧ o = (l.map (settled host)).sum) :
    t'.own.owes host + o' + (l.map (settled host)).sum = t.own.owes host + o := by
  by_cases hc : ∃ cause, c = .panicked cause
  · obtain ⟨cause, hc⟩ := hc
    obtain ⟨rfl, rfl, rfl⟩ := hpanic cause hc
    rw [add_zero]
  · have hcalm : ∀ cause, c ≠ .panicked cause := fun cause he => hc ⟨cause, he⟩
    rw [sum_settled_of_calm hl hcalm, h.eq hcalm]

end settled

variable {host : (q : Query) → Answer q} {may : Reply Answer → Prop} {m m' : Shared}
  {t : Tallied Shared}

theorem Pick.move_loses (host : (q : Query) → Answer q) (hm : t.own.source.Valid) {s : Pick}
    (hs : Knows may t.own (.running s)) : (s.move t).Ensures may (fun _ c l =>
      ∀ cause, c = .panicked cause → owes host (.running s) = (l.map (settled host)).sum) t := by
  cases s with
  | draw skipped d =>
    refine (ClassSource.Draw.move_ensures hm hs).lift rfl ?_ ?_ ?_
    · exact fun _ _ _ _ _ hc => by cases hc
    · intro cls _
      cases cls <;> exact fun _ hc => by cases hc
    · intro cause l hinner
      exact hinner.knows.elim
  | kind skipped c =>
    intro k _ cause hc
    cases k with
    | error cause' =>
      rw [List.map_singleton, List.sum_singleton]
      rfl
    | ok k =>
      simp only [Pool.resumed] at hc
      split at hc <;> cases hc
  | settle skipped cls => exact fun _ hc => by cases hc
  | done cls => exact fun _ hc => by cases hc

theorem Worker.move_loses (host : (q : Query) → Answer q) (hm : t.own.source.Valid) {s : Worker}
    (hs : Knows may t.own (.running s)) : (s.move t).Ensures may (fun _ c l =>
      ∀ cause, c = .panicked cause → owes host (.running s) = (l.map (settled host)).sum) t := by
  cases s with
  | tree attempt =>
    refine (Try.move_ensures treeWork hs).lift rfl ?_ ?_ ?_
    · exact fun _ _ _ _ _ hc => by cases hc
    · intro won _
      cases won <;> exact fun _ hc => by cases hc
    · exact fun cause l hinner => hinner.1.elim
  | pick cleaned p =>
    refine (p.move_loses host hm hs.2).lift rfl ?_ ?_ ?_
    · exact fun _ _ _ _ _ hc => by cases hc
    · intro cls _
      cases cls <;> exact fun _ hc => by cases hc
    · exact fun cause l hinner _ _ => hinner cause rfl
  | rebuild =>
    intro a _ cause hc
    cases a with
    | error cause' => exact (add_zero _).symm
    | ok a => cases hc
  | clean cleaned c =>
    intro a _ cause hc
    cases a with
    | error cause' => exact (add_zero _).symm
    | ok a => cases hc
  | _ => exact fun _ hc => by cases hc

/-- Panics or not, what a search had in its hands it still has, or has asked for or lost. -/
theorem Pick.move_settles (hmay : Steady host may) (hm : t.own.source.Valid) {s : Pick}
    (hs : Knows may t.own (.running s)) : (s.move t).Ensures may (fun t' c l =>
      t'.own.owes host + owes host c + (l.map (settled host)).sum =
        t.own.owes host + owes host (.running s)) t := by
  have hmove := ((move_ensures hmay hm hs).and (s.move_loses host hm hs)).and
    ((s.plain t).breaks.and (Move.Ensures.of_panic _))
  refine hmove.mono fun t' c l h => ?_
  obtain ⟨⟨hmoved, hloses⟩, hbreaks, hstays⟩ := h
  refine settled_of_settles hmoved.settles hbreaks fun cause hc => ?_
  exact ⟨hstays cause hc, by rw [hc]; rfl, hloses cause hc⟩

theorem Worker.move_settles (hmay : Steady host may) (hm : t.own.source.Valid) {s : Worker}
    (hs : Knows may t.own (.running s)) : (s.move t).Ensures may (fun t' c l =>
      t'.own.owes host + owes host c + (l.map (settled host)).sum =
        t.own.owes host + owes host (.running s)) t := by
  have hmove := ((move_ensures hmay hm hs).and (s.move_loses host hm hs)).and
    ((s.plain t).breaks.and (Move.Ensures.of_panic _))
  refine hmove.mono fun t' c l h => ?_
  obtain ⟨⟨hmoved, hloses⟩, hbreaks, hstays⟩ := h
  refine settled_of_settles hmoved.settles hbreaks fun cause hc => ?_
  exact ⟨hstays cause hc, by rw [hc]; rfl, hloses cause hc⟩

inductive Operation
  | work (s : Worker)
  | pick (s : Pick)
  | tree (t : Try)

inductive Outcome
  | worked (cleaned : ℕ)
  | picked (cls : Option ClassId)
  | tried (won : Bool)
  deriving DecidableEq

inductive Call
  | worker
  | pick
  | tree

def Call.start : Call → Operation
  | .worker => .work .start
  | .pick => .pick .start
  | .tree => .tree .look

namespace Operation

def move (t : Tallied Shared) : Operation → HostMove (Tallied Shared) Operation Outcome
  | .work s => (s.move t).lift t id .work fun cleaned => .finish (.worked cleaned)
  | .pick s => (s.move t).lift t id .pick fun cls => .finish (.picked cls)
  | .tree attempt =>
    (attempt.move t.own.tree).lift t (fun flag => { t with own.tree := flag }) .tree
      fun won => .finish (.tried won)

def Knows (may : Reply Answer → Prop) (m : Shared) : Progress Operation Outcome → Prop
  | .running (.work s) => Worker.Knows may m (.running s)
  | .running (.pick s) => Pick.Knows may m (.running s)
  | .running (.tree t) => Try.Knows m.tree (.running t)
  | .returned (.worked n) => Worker.Knows may m (.returned n)
  | .returned (.picked cls) => Pick.Knows may m (.returned cls)
  | .returned (.tried won) => Try.Knows m.tree (.returned won)
  | .panicked _ => True

/-- What is in the hands of a call, and what it took with it when it was over. -/
def owes (host : (q : Query) → Answer q) : Progress Operation Outcome → Multiset Query
  | .running (.work s) => Worker.owes host (.running s)
  | .running (.pick s) => Pick.owes host (.running s)
  | .running (.tree t) => Try.held treeWork (.running t)
  | .returned (.worked _) => 0
  | .returned (.picked cls) => links cls
  | .returned (.tried won) => if won then treeWork else 0
  | .panicked _ => 0

theorem knows_stable {c : Progress Operation Outcome} (h : Later m m') (hc : Knows may m c) :
    Knows may m' c := by
  cases c with
  | running s =>
    cases s with
    | work s => exact Worker.knows_stable h hc
    | pick s => exact Pick.knows_stable h hc
    | tree t => exact Try.knows_stable h.tree hc
  | returned r =>
    cases r with
    | worked n =>
      have hn : Worker.Knows may m (.returned n) := hc
      exact Worker.knows_stable h hn
    | picked cls =>
      have hcls : Pick.Knows may m (.returned cls) := hc
      exact Pick.knows_stable h hcls
    | tried won =>
      have hwon : Try.Knows m.tree (.returned won) := hc
      exact Try.knows_stable h.tree hwon
  | panicked cause => trivial

structure Moved (host : (q : Query) → Answer q) (may : Reply Answer → Prop) (m : Shared)
    (s : Operation) (m' : Shared) (c : Progress Operation Outcome) (l : List (Reply Answer)) :
    Prop where
  valid : m'.source.Valid
  knows : Knows may m' c
  later : Later m m'
  settled : m'.owes host + owes host c + (l.map (settled host)).sum =
    m.owes host + owes host (.running s)

theorem move_ensures (hmay : Steady host may) {t : Tallied Shared} (hm : t.own.source.Valid)
    {s : Operation} (hs : Knows may t.own (.running s)) :
    (s.move t).Ensures may (fun t' c l => Moved host may t.own s t'.own c l) t := by
  cases s with
  | work s =>
    have hmove := (Worker.move_ensures hmay hm hs).and (Worker.move_settles hmay hm hs)
    refine hmove.lift rfl ?_ ?_ ?_
    · intro t' s' l h
      obtain ⟨hinner, hsettled⟩ := h
      exact ⟨hinner.valid, hinner.knows, hinner.later, hsettled⟩
    · intro n h
      obtain ⟨hinner, hsettled⟩ := h
      exact ⟨hinner.valid, hinner.knows, hinner.later, hsettled⟩
    · exact fun cause l h => ⟨hm, trivial, .refl _, h.2⟩
  | pick s =>
    have hmove := (Pick.move_ensures hmay hm hs).and (Pick.move_settles hmay hm hs)
    refine hmove.lift rfl ?_ ?_ ?_
    · intro t' s' l h
      obtain ⟨hinner, hsettled⟩ := h
      exact ⟨hinner.valid, hinner.knows, hinner.later, hsettled⟩
    · intro cls h
      obtain ⟨hinner, hsettled⟩ := h
      exact ⟨hinner.valid, hinner.knows, hinner.later, hsettled⟩
    · exact fun cause l h => ⟨hm, trivial, .refl _, h.2⟩
  | tree attempt =>
    have hkeeps : ∀ {flag : OneShot} {c' : Progress Try Bool} {c : Progress Operation Outcome},
        flag.left treeWork + Try.held treeWork c' =
          t.own.tree.left treeWork + Try.held treeWork (.running attempt) →
        owes host c = Try.held treeWork c' →
        ({ t.own with tree := flag } : Shared).owes host + owes host c +
          (List.map (ClassCleaning.settled host) []).sum =
            t.own.owes host + owes host (.running (.tree attempt)) := by
      intro flag c' c hb hc
      rw [hc, List.map_nil, List.sum_nil, add_zero, Shared.owes, Shared.owes]
      show flag.left treeWork + _ + _ = t.own.tree.left treeWork + _ + Try.held treeWork _
      rw [add_right_comm, hb, add_right_comm]
    refine (Try.move_ensures treeWork hs).lift rfl ?_ ?_ ?_
    · intro flag next l hinner
      obtain ⟨hk, hlater, rfl, hb⟩ := hinner
      exact ⟨hm, hk, ⟨hlater, .refl _⟩, hkeeps hb rfl⟩
    · intro won hinner
      obtain ⟨hk, hlater, -, hb⟩ := hinner
      exact ⟨hm, hk, ⟨hlater, .refl _⟩, hkeeps hb rfl⟩
    · exact fun cause l hinner => hinner.1.elim

end Operation

end PauseCleanup.ClassCleaning
