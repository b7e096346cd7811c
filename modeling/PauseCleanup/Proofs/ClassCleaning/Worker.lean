import PauseCleanup.Proofs.Chores
import PauseCleanup.Proofs.ClassCleaning.Source
import PauseCleanup.Proofs.OneShot
import PauseCleanup.ClassCleaning.Worker
/-!
# What a worker of a class cleaning ensures

A class is owed twice: once to have its kind told, and once more to have its links cleaned, if it is
an instance class.
-/
namespace PauseCleanup.ClassCleaning

open Host (Query Answer)
open OneShot (Try)
open ClassSource (Draw)

variable (host : (q : Query) → Answer q)

/-- What there is to ask for the subclass tree. -/
def treeWork : Multiset Query := {.cleanTree}

def links (cls : Option ClassId) : Multiset Query := ↑(cls.toList.map Query.cleanLinks)

/-- What there is to ask about a class. -/
def work (c : ClassId) : Multiset Query :=
  {.kindOf c} + if (host (.kindOf c)).isInstance then links (some c) else 0

def works (cs : List ClassId) : Multiset Query := (cs.map (work host)).sum

@[simp] theorem works_nil : works host [] = 0 := rfl

theorem works_append (cs ds : List ClassId) :
    works host (cs ++ ds) = works host cs + works host ds := by
  simp [works]

@[simp] theorem works_singleton (c : ClassId) : works host [c] = work host c := by simp [works]

/-- What the shared memory still owes. -/
def Shared.owes (m : Shared) : Multiset Query := m.tree.left treeWork + works host m.source.rest

/-- How the shared memory may change in the meantime. -/
structure Later (m m' : Shared) : Prop where
  tree : m.tree.Later m'.tree
  source : m.source.Later m'.source

theorem Later.refl (m : Shared) : Later m m := ⟨fun h => h, .refl _⟩

variable {host} {may : Reply Answer → Prop} {m m' : Shared}

namespace Pick

def Knows (may : Reply Answer → Prop) (m : Shared) : Progress Pick (Option ClassId) → Prop
  | .running (.draw _ d) => Draw.Knows m.source (.running d)
  | .running (.kind ..) => True
  | .running (.settle _ cls) => cls = none → m.source.IsEmpty
  | .running (.done cls) => cls = none → m.source.IsEmpty
  | .returned cls => cls = none → m.source.IsEmpty
  | .panicked _ => MayPanic may

def owes (host : (q : Query) → Answer q) : Progress Pick (Option ClassId) → Multiset Query
  | .running (.draw _ d) => works host (Draw.held (.running d))
  | .running (.kind _ c) => work host c
  | .running (.settle _ cls) => links cls
  | .running (.done cls) => links cls
  | .returned cls => links cls
  | .panicked _ => 0

theorem knows_stable {c : Progress Pick (Option ClassId)} (h : Later m m') (hc : Knows may m c) :
    Knows may m' c := by
  cases c with
  | running s =>
    cases s with
    | draw skipped d => exact Draw.knows_stable h.source hc
    | kind skipped c => trivial
    | settle skipped cls => exact fun hn => h.source.isEmpty (hc hn)
    | done cls => exact fun hn => h.source.isEmpty (hc hn)
  | returned cls => exact fun hn => h.source.isEmpty (hc hn)
  | panicked cause => exact hc

/-- What one move of a search does. -/
structure Moved (host : (q : Query) → Answer q) (may : Reply Answer → Prop) (m : Shared) (s : Pick)
    (m' : Shared) (c : Progress Pick (Option ClassId)) (l : List (Reply Answer)) : Prop where
  valid : m'.source.Valid
  knows : Knows may m' c
  later : Later m m'
  settles : Settles c (m'.owes host + owes host c + chores l) (m.owes host + owes host (.running s))

theorem Moved.still {s : Pick} {c : Progress Pick (Option ClassId)} (hm : m.source.Valid)
    (hc : Knows may m c) (ho : owes host c = owes host (.running s)) :
    Moved host may m s m c [] where
  valid := hm
  knows := hc
  later := .refl m
  settles := .of_eq (by rw [ho, chores_nil, add_zero])

theorem Moved.of_draw {skipped : ℕ} {d : Draw} {c' : Progress Draw (Option ClassId)}
    {src : ClassSource} {c : Progress Pick (Option ClassId)} (hv : src.Valid)
    (hl : m.source.Later src)
    (hb : Draw.held c' ++ src.rest = Draw.held (.running d) ++ m.source.rest)
    (hc : Knows may { m with source := src } c) (ho : owes host c = works host (Draw.held c')) :
    Moved host may m (.draw skipped d) { m with source := src } c [] := by
  have hworks := congrArg (works host) hb
  rw [works_append, works_append] at hworks
  refine ⟨hv, hc, ⟨fun h => h, hl⟩, .of_eq ?_⟩
  rw [ho, chores_nil, add_zero, Shared.owes, Shared.owes]
  show _ + works host src.rest + _ = _ + works host m.source.rest +
    works host (Draw.held (.running d))
  rw [add_assoc, add_comm (works host src.rest), hworks, add_comm (works host (Draw.held _)),
    add_assoc]

theorem move_ensures (hmay : Steady host may) {t : Tallied Shared} (hm : t.own.source.Valid)
    {s : Pick} (hs : Knows may t.own (.running s)) :
    (s.move t).Ensures may (fun t' c l => Moved host may t.own s t'.own c l) t := by
  cases s with
  | draw skipped d =>
    refine (Draw.move_ensures hm hs).lift rfl ?_ ?_ ?_
    · intro src d' l hinner
      obtain ⟨hv, hk, hl, rfl, hb⟩ := hinner
      exact .of_draw hv hl hb hk rfl
    · intro cls hinner
      obtain ⟨hv, hk, hl, -, hb⟩ := hinner
      cases cls with
      | none => exact .of_draw hv hl hb hk rfl
      | some c => exact .of_draw hv hl hb trivial (works_singleton host c).symm
    · intro cause l hinner
      obtain ⟨-, hk, -⟩ := hinner
      exact hk.elim
  | kind skipped c =>
    intro k ha
    cases k with
    | error cause =>
      refine ⟨hm, ⟨_, _, ha⟩, .refl _, .of_panic ?_⟩
      show t.own.owes host + 0 + {Query.kindOf c} ≤ t.own.owes host + work host c
      rw [add_zero, work, ← add_assoc]
      exact Multiset.le_add_right _ _
    | ok k =>
      obtain rfl := hmay _ _ ha
      by_cases hi : (host (.kindOf c)).isInstance = true
      · simp only [Pool.resumed, hi, if_true]
        refine ⟨hm, fun h => (Option.some_ne_none _ h).elim, .refl _, .of_eq ?_⟩
        show t.own.owes host + links (some c) + {Query.kindOf c} = t.own.owes host + work host c
        rw [work, if_pos hi, add_assoc, add_comm (links _)]
      · simp only [Pool.resumed, hi, if_false, Bool.false_eq_true]
        refine ⟨hm, trivial, .refl _, .of_eq ?_⟩
        show t.own.owes host + 0 + {Query.kindOf c} = t.own.owes host + work host c
        rw [work, if_neg hi, add_zero, add_zero]
  | settle skipped cls => exact .still hm hs rfl
  | done cls => exact .still hm hs rfl

end Pick

namespace Worker

def Knows (may : Reply Answer → Prop) (m : Shared) : Progress Worker ℕ → Prop
  | .running (.tree t) => Try.Knows m.tree (.running t)
  | .running (.pick _ s) => m.tree.taken = true ∧ Pick.Knows may m (.running s)
  | .running (.report _) => m.tree.taken = true ∧ m.source.IsEmpty
  | .running (.done _) => m.tree.taken = true ∧ m.source.IsEmpty
  | .running _ => m.tree.taken = true
  | .returned _ => m.tree.taken = true ∧ m.source.IsEmpty
  | .panicked _ => MayPanic may

/-- What is in the hands of a worker. -/
def owes (host : (q : Query) → Answer q) : Progress Worker ℕ → Multiset Query
  | .running (.tree t) => Try.held treeWork (.running t)
  | .running .rebuild => treeWork
  | .running (.pick _ s) => Pick.owes host (.running s)
  | .running (.clean _ c) => links (some c)
  | _ => 0

theorem knows_stable {c : Progress Worker ℕ} (h : Later m m') (hc : Knows may m c) :
    Knows may m' c := by
  cases c with
  | running s =>
    cases s with
    | tree t => exact Try.knows_stable h.tree hc
    | pick cleaned s => exact ⟨h.tree hc.1, Pick.knows_stable h hc.2⟩
    | report cleaned => exact ⟨h.tree hc.1, h.source.isEmpty hc.2⟩
    | done cleaned => exact ⟨h.tree hc.1, h.source.isEmpty hc.2⟩
    | _ => exact h.tree hc
  | returned cleaned => exact ⟨h.tree hc.1, h.source.isEmpty hc.2⟩
  | panicked cause => exact hc

structure Moved (host : (q : Query) → Answer q) (may : Reply Answer → Prop) (m : Shared)
    (s : Worker) (m' : Shared) (c : Progress Worker ℕ) (l : List (Reply Answer)) : Prop where
  valid : m'.source.Valid
  knows : Knows may m' c
  later : Later m m'
  settles : Settles c (m'.owes host + owes host c + chores l) (m.owes host + owes host (.running s))

namespace Moved

variable {s : Worker} {c : Progress Worker ℕ}

theorem still (hm : m.source.Valid) (hc : Knows may m c)
    (ho : owes host c = owes host (.running s)) : Moved host may m s m c [] where
  valid := hm
  knows := hc
  later := .refl m
  settles := .of_eq (by rw [ho, chores_nil, add_zero])

theorem of_tree {t : Try} {c' : Progress Try Bool} {flag : OneShot} (hm : m.source.Valid)
    (hflag : m.tree.Later flag)
    (hb : flag.left treeWork + Try.held treeWork c' =
      m.tree.left treeWork + Try.held treeWork (.running t))
    (hc : Knows may { m with tree := flag } c) (ho : owes host c = Try.held treeWork c') :
    Moved host may m (.tree t) { m with tree := flag } c [] := by
  refine ⟨hm, hc, ⟨hflag, .refl _⟩, .of_eq ?_⟩
  rw [ho, chores_nil, add_zero, Shared.owes, Shared.owes]
  show flag.left treeWork + _ + _ = m.tree.left treeWork + _ + Try.held treeWork (.running t)
  rw [add_right_comm, hb, add_right_comm]

theorem of_ask {q : Query} {resume : Answer q → Worker} {a : Except Panic (Answer q)}
    (hm : m.source.Valid) (ha : may ⟨q, a⟩) (hq : owes host (.running s) = chores [⟨q, a⟩])
    (hresume : ∀ a, Knows may m (.running (resume a)) ∧ owes host (.running (resume a)) = 0) :
    Moved host may m s m (Pool.resumed resume none a) [⟨q, a⟩] := by
  cases a with
  | error cause =>
    refine ⟨hm, ⟨_, _, ha⟩, .refl m, .of_eq ?_⟩
    show m.owes host + 0 + _ = _
    rw [add_zero, hq]
  | ok a =>
    obtain ⟨hk, ho⟩ := hresume a
    refine ⟨hm, hk, .refl m, .of_eq ?_⟩
    show m.owes host + owes host (.running (resume a)) + _ = _
    rw [ho, add_zero, hq]

end Moved

theorem move_ensures (hmay : Steady host may) {t : Tallied Shared} (hm : t.own.source.Valid)
    {s : Worker} (hs : Knows may t.own (.running s)) :
    (s.move t).Ensures may (fun t' c l => Moved host may t.own s t'.own c l) t := by
  cases s with
  | tree attempt =>
    refine (Try.move_ensures treeWork hs).lift rfl ?_ ?_ ?_
    · intro flag next l hinner
      obtain ⟨hk, hlater, rfl, hb⟩ := hinner
      exact .of_tree hm hlater hb hk rfl
    · intro won hinner
      obtain ⟨hk, hlater, -, hb⟩ := hinner
      cases won with
      | true => exact .of_tree hm hlater hb hk rfl
      | false => exact .of_tree hm hlater hb ⟨hk, trivial⟩ rfl
    · intro cause l hinner
      obtain ⟨hk, -⟩ := hinner
      exact hk.elim
  | rebuild => exact fun a ha => .of_ask hm ha rfl fun _ => ⟨hs, rfl⟩
  | rebuilt => exact .still hm ⟨hs, trivial⟩ rfl
  | pick cleaned p =>
    obtain ⟨htree, hp⟩ := hs
    have hmove := Pick.move_ensures hmay hm hp
    refine hmove.lift rfl ?_ ?_ ?_
    · intro t' p' l hinner
      obtain ⟨hv, hk, hlater, ⟨hle, heq⟩⟩ := hinner
      exact ⟨hv, ⟨hlater.tree htree, hk⟩, hlater, .of_eq (heq (by simp))⟩
    · intro cls hinner
      obtain ⟨hv, hk, hlater, ⟨hle, heq⟩⟩ := hinner
      cases cls with
      | none => exact ⟨hv, ⟨htree, hk rfl⟩, hlater, .of_eq (heq (by simp))⟩
      | some c => exact ⟨hv, htree, hlater, .of_eq (heq (by simp))⟩
    · intro cause l hinner
      obtain ⟨hv, hk, hlater, ⟨hle, heq⟩⟩ := hinner
      exact ⟨hm, hk, .refl _, .of_panic hle⟩
  | clean cleaned c => exact fun a ha => .of_ask hm ha rfl fun _ => ⟨⟨hs, trivial⟩, rfl⟩
  | report cleaned => exact .still hm hs rfl
  | done cleaned => exact .still hm hs rfl

end Worker

end PauseCleanup.ClassCleaning
