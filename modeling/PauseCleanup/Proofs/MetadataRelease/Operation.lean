import PauseCleanup.Proofs.Chores
import PauseCleanup.Proofs.OneShot
import PauseCleanup.Proofs.NoRescue
/-!
# All that may be called on a metadata release

Beside the workers, anybody may try for the flag and keep it. Whether the compiler is on may change
between questions, so a call is known by its story: what it was told.
-/
namespace PauseCleanup.MetadataRelease

open Host (Query Answer)
open OneShot (Try)

/-- The answer whether the compiler is switched on. -/
def saw (enabled : Bool) : Reply Answer := ⟨.metadataEnabled, .ok enabled⟩

/-- What came of a release after classes were unloaded. -/
def freed (outcome : Except Panic Unit) : Reply Answer := ⟨.releaseMetadata true, outcome⟩

def releases (l : List (Reply Answer)) : ℕ := l.countP fun r => r.1.isRelease

@[simp] theorem releases_nil : releases [] = 0 := rfl

@[simp] theorem releases_saw (enabled : Bool) (l : List (Reply Answer)) :
    releases (saw enabled :: l) = releases l := rfl

@[simp] theorem releases_freed (outcome : Except Panic Unit) (l : List (Reply Answer)) :
    releases (freed outcome :: l) = releases l + 1 := by
  simp [releases, freed, Query.isRelease]

@[simp] theorem isRelease_saw (enabled : Bool) : (saw enabled).1.isRelease = false := rfl

@[simp] theorem saw_inj {a b : Bool} : saw a = saw b ↔ a = b := by
  simp [saw]

@[simp] theorem saw_ne_freed (enabled : Bool) (outcome : Except Panic Unit) :
    saw enabled ≠ freed outcome :=
  fun h => Query.noConfusion (congrArg Sigma.fst h)

namespace Worker

/-- What a worker has been told when it knows its result; `due` if it found classes unloaded and a
compiler. -/
inductive Ending (due : Bool) (f : OneShot) : Bool → List (Reply Answer) → Prop
  | notDue : due = false → Ending due f false []
  | off : due = true → Ending due f false [saw false]
  | late : due = true → f.taken = true → Ending due f false [saw true]
  | ran : due = true → f.taken = true → Ending due f true [saw true, freed (.ok ())]

/-- What a worker has been told, wherever it is. -/
inductive Story (due : Bool) (f : OneShot) : Progress Worker Bool → List (Reply Answer) → Prop
  | start : Story due f (.running .start) []
  | claim {t : Try} : due = true → Try.Knows f (.running t) →
    Story due f (.running (.claim t)) [saw true]
  | release : due = true → f.taken = true → Story due f (.running .release) [saw true]
  | released : due = true → f.taken = true →
    Story due f (.running .released) [saw true, freed (.ok ())]
  | done {ran : Bool} {h : List (Reply Answer)} : Ending due f ran h →
    Story due f (.running (.done ran)) h
  | returned {ran : Bool} {h : List (Reply Answer)} : Ending due f ran h →
    Story due f (.returned ran) h
  | untold {cause : Panic} : due = true →
    Story due f (.panicked cause) [⟨.metadataEnabled, .error cause⟩]
  | broken {cause : Panic} : due = true → f.taken = true →
    Story due f (.panicked cause) [saw true, freed (.error cause)]

/-- What a worker has won and not yet used. -/
def holds : Progress Worker Bool → ℕ
  | .running (.claim t) => Try.held 1 (.running t)
  | .running .release => 1
  | _ => 0

variable {may : Reply Answer → Prop} {due : Bool} {f f' : OneShot} {h : List (Reply Answer)}

theorem Ending.later {ran : Bool} (hl : f.Later f') (hc : Ending due f ran h) :
    Ending due f' ran h := by
  cases hc with
  | notDue hdue => exact .notDue hdue
  | off hdue => exact .off hdue
  | late hdue ht => exact .late hdue (hl ht)
  | ran hdue ht => exact .ran hdue (hl ht)

theorem Story.later {c : Progress Worker Bool} (hl : f.Later f') (hc : Story due f c h) :
    Story due f' c h := by
  cases hc with
  | start => exact .start
  | claim hdue ht => exact .claim hdue (Try.knows_stable hl ht)
  | release hdue ht => exact .release hdue (hl ht)
  | released hdue ht => exact .released hdue (hl ht)
  | done hend => exact .done (hend.later hl)
  | returned hend => exact .returned (hend.later hl)
  | untold hdue => exact .untold hdue
  | broken hdue ht => exact .broken hdue (hl ht)

theorem Story.of_release {c : Progress Worker Bool} (hc : Story due f c h) {r : Reply Answer}
    (hr : r ∈ h) (hrelease : r.1.isRelease = true) :
    r.1 = .releaseMetadata true ∧ due = true ∧ saw true ∈ h ∧ (c.isOver = true →
      c = .returned true ∨ ∃ cause, c = .panicked cause ∧ freed (.error cause) ∈ h) := by
  have hnot : ∀ enabled, r ≠ saw enabled := by
    rintro enabled rfl
    cases hrelease
  cases hc with
  | done hend => cases hend <;> simp_all [freed, Progress.isOver]
  | returned hend => cases hend <;> simp_all [freed]
  | untold hdue =>
    rw [List.mem_singleton.1 hr] at hrelease
    cases hrelease
  | _ => simp_all [freed, Progress.isOver]

theorem Story.taken {c : Progress Worker Bool} (hc : Story due f c h) (hsaw : saw true ∈ h)
    (hover : c.isOver = true) : f.taken = true := by
  cases hc with
  | returned hend => cases hend <;> simp_all
  | untold hdue => cases List.mem_singleton.1 hsaw
  | broken hdue ht => exact ht
  | _ => cases hover

theorem Story.idle {c : Progress Worker Bool} (hc : Story due f c h)
    (hidle : due = false ∨ saw false ∈ h) : releases h = 0 ∧ holds c = 0 ∧ saw true ∉ h ∧
      (c.isOver = true → c = .returned false) := by
  cases hc with
  | done hend => cases hend <;> simp_all [holds, Progress.isOver]
  | returned hend => cases hend <;> simp_all [holds]
  | untold hdue => simp_all [saw]
  | _ => simp_all [holds, Progress.isOver]

/-- What there is to win lies with the flag, is held by one call, or was used for a release. -/
theorem move_keeps (present unloading : Bool) (t : Tallied OneShot) (s : Worker) :
    (s.move present unloading t).Ensures may (fun t' c l => t.own.Later t'.own ∧
      t'.own.left 1 + holds c + releases l = t.own.left 1 + holds (.running s)) t := by
  cases s with
  | start =>
    simp only [move]
    split
    · intro enabled _
      rcases enabled with cause | enabled
      · exact ⟨id, rfl⟩
      · cases enabled <;> exact ⟨id, rfl⟩
    · exact ⟨id, rfl⟩
  | claim attempt =>
    refine (Try.move_keeps 1 t.own attempt).lift rfl ?_ ?_ ?_
    · intro flag next l hinner
      obtain ⟨hlater, rfl, hb⟩ := hinner
      exact ⟨hlater, hb⟩
    · intro won hinner
      obtain ⟨hlater, -, hb⟩ := hinner
      cases won <;> exact ⟨hlater, hb⟩
    · intro cause l hinner
      obtain ⟨hlater, rfl, hb⟩ := hinner
      exact ⟨hlater, hb⟩
  | release =>
    intro a _
    cases a <;> exact ⟨id, rfl⟩
  | released => exact ⟨id, rfl⟩
  | done ran => exact ⟨id, rfl⟩

theorem move_tells {present unloading : Bool} {t : Tallied OneShot} {s : Worker}
    (hs : Story (unloading && present) t.own (.running s) h) :
    (s.move present unloading t).Ensures may
      (fun t' c l => Story (unloading && present) t'.own c (h ++ l)) t := by
  cases hs with
  | start =>
    simp only [move]
    split
    · next hdue =>
      intro enabled _
      rcases enabled with cause | enabled
      · exact .untold hdue
      · cases enabled with
        | true => exact .claim hdue trivial
        | false => exact .done (.off hdue)
    · next hdue => exact .done (.notDue (Bool.not_eq_true _ ▸ hdue))
  | claim hdue ht =>
    refine (Try.move_ensures 1 ht).lift rfl ?_ ?_ ?_
    · intro flag next l hinner
      obtain ⟨hk, -, rfl, -⟩ := hinner
      exact .claim hdue hk
    · intro won hinner
      obtain ⟨hk, -⟩ := hinner
      cases won with
      | true => exact .release hdue hk
      | false => exact .done (.late hdue hk)
    · exact fun cause l hinner => hinner.1.elim
  | release hdue ht =>
    obtain rfl : unloading = true := (Bool.and_eq_true_iff.1 hdue).1
    intro a _
    cases a with
    | ok a => exact .released hdue ht
    | error cause => exact .broken hdue ht
  | released hdue ht => exact .done (.ran hdue ht)
  | done hend =>
    show Story _ _ _ (h ++ [])
    rw [List.append_nil]
    exact .returned hend

def toGo : Worker → ℕ
  | .start => 6
  | .claim t => t.toGo + 3
  | .release => 2
  | .released => 1
  | .done _ => 0

theorem move_below (present unloading : Bool) (t : Tallied OneShot) (s : Worker) :
    (s.move present unloading t).Ensures may (Pool.Below toGo s.toGo) t := by
  cases s with
  | start =>
    simp only [move]
    split
    · intro enabled _
      rcases enabled with cause | enabled
      · simp [Pool.resumed, Pool.Below]
      · cases enabled <;> simp [Pool.resumed, Pool.Below, toGo, Try.toGo]
    · simp [Move.Ensures, Pool.Below, toGo]
  | claim attempt =>
    refine Pool.Below.lift (attempt.move_below t.own) rfl ?_ ?_ (fun _ h => by cases h)
    · exact fun s hlt => Nat.add_lt_add_right hlt 3
    · intro won
      cases won <;> simp [Move.Ensures, Pool.Below, toGo]
  | release =>
    intro a _
    cases a <;> simp [Pool.resumed, Pool.Below, toGo]
  | released => simp [move, Move.Ensures, Pool.Below, toGo]
  | done ran => simp [move, Move.Ensures, Pool.Below]

/-- Only a worker that was told that the compiler is switched on changes the flag. -/
theorem move_takes {present unloading : Bool} {t : Tallied OneShot} {s : Worker}
    (hs : Story (unloading && present) t.own (.running s) h) :
    (s.move present unloading t).Ensures may
      (fun t' _ _ => t'.own ≠ t.own → unloading = true ∧ saw true ∈ h) t := by
  cases hs with
  | start =>
    simp only [move]
    split
    · exact fun _ _ hne => absurd rfl hne
    · exact fun hne => absurd rfl hne
  | claim hdue ht =>
    refine (Move.Ensures.of_may _).mono fun _ _ _ _ _ => ?_
    exact ⟨(Bool.and_eq_true_iff.1 hdue).1, by simp⟩
  | release hdue ht => exact fun _ _ hne => absurd rfl hne
  | released hdue ht => exact fun hne => absurd rfl hne
  | done hend => exact fun hne => absurd rfl hne

end Worker

inductive Operation
  | work (unloading : Bool) (s : Worker)
  | claim (t : Try)

inductive Outcome
  | worked (ran : Bool)
  | claimed (won : Bool)
  deriving DecidableEq

inductive Call
  | worker (unloading : Bool)
  | claim
  deriving DecidableEq

def Call.start : Call → Operation
  | .worker unloading => .work unloading .start
  | .claim => .claim .look

namespace Operation

def move (present : Bool) (t : Tallied OneShot) :
    Operation → HostMove (Tallied OneShot) Operation Outcome
  | .work unloading s =>
    (s.move present unloading t).lift t id (.work unloading) fun ran => .finish (.worked ran)
  | .claim attempt =>
    (attempt.move t.own).lift t (fun flag => { t with own := flag }) .claim
      fun won => .finish (.claimed won)

theorem plain (present : Bool) (t : Tallied OneShot) (s : Operation) :
    (s.move present t).Plain := by
  cases s with
  | work unloading s => exact (s.plain present unloading t).lift fun _ => trivial
  | claim attempt => exact (attempt.plain t.own).lift fun _ => trivial

/-- What a call has been told, and where it is. -/
inductive Story (present : Bool) (f : OneShot) :
    Call → Progress Operation Outcome → List (Reply Answer) → Prop
  | working {unloading : Bool} {s : Worker} {h : List (Reply Answer)} :
    Worker.Story (unloading && present) f (.running s) h →
    Story present f (.worker unloading) (.running (.work unloading s)) h
  | worked {unloading ran : Bool} {h : List (Reply Answer)} :
    Worker.Story (unloading && present) f (.returned ran) h →
    Story present f (.worker unloading) (.returned (.worked ran)) h
  | broken {unloading : Bool} {cause : Panic} {h : List (Reply Answer)} :
    Worker.Story (unloading && present) f (.panicked cause) h →
    Story present f (.worker unloading) (.panicked cause) h
  | claiming {t : Try} : Try.Knows f (.running t) →
    Story present f .claim (.running (.claim t)) []
  | claimed {won : Bool} : f.taken = true → Story present f .claim (.returned (.claimed won)) []

def holds : Progress Operation Outcome → ℕ
  | .running (.work _ s) => Worker.holds (.running s)
  | .running (.claim t) => Try.held 1 (.running t)
  | .returned (.claimed won) => if won then 1 else 0
  | _ => 0

/-- A worker that was told of unloaded classes, and that the compiler is switched on. -/
def Qualified (call : Call) (h : List (Reply Answer)) : Prop :=
  call = .worker true ∧ saw true ∈ h

/-- A worker that knows of no unloaded classes, or finds no compiler switched on. -/
def Unqualified (present : Bool) (call : Call) (h : List (Reply Answer)) : Prop :=
  ∃ unloading, call = .worker unloading ∧ ((unloading && present) = false ∨ saw false ∈ h)

/-- The call has released the metadata, or panicked while it did. -/
def Ran (c : Progress Operation Outcome) (h : List (Reply Answer)) : Prop :=
  c = .returned (.worked true) ∨
    ∃ cause, c = .panicked cause ∧ freed (.error cause) ∈ h

variable {may : Reply Answer → Prop} {present : Bool} {f f' : OneShot} {call : Call}
  {c : Progress Operation Outcome} {h : List (Reply Answer)}

theorem Story.start (present : Bool) (f : OneShot) (call : Call) :
    Story present f call (.running call.start) [] := by
  cases call with
  | worker unloading => exact .working .start
  | claim => exact .claiming trivial

theorem Story.later (hl : f.Later f') (hc : Story present f call c h) :
    Story present f' call c h := by
  cases hc with
  | working hs => exact .working (hs.later hl)
  | worked hs => exact .worked (hs.later hl)
  | broken hs => exact .broken (hs.later hl)
  | claiming ht => exact .claiming (Try.knows_stable hl ht)
  | claimed ht => exact .claimed (hl ht)

theorem move_keeps (present : Bool) (t : Tallied OneShot) (s : Operation) :
    (s.move present t).Ensures may (fun t' c l => t.own.Later t'.own ∧
      t'.own.left 1 + holds c + releases l = t.own.left 1 + holds (.running s)) t := by
  cases s with
  | work unloading s =>
    refine (Worker.move_keeps present unloading t s).lift rfl ?_ ?_ ?_
    · exact fun t' s' l hinner => hinner
    · exact fun ran hinner => hinner
    · exact fun cause l hinner => hinner
  | claim attempt =>
    refine (Try.move_keeps 1 t.own attempt).lift rfl ?_ ?_ ?_
    · rintro flag next l ⟨hlater, rfl, hb⟩
      exact ⟨hlater, hb⟩
    · rintro won ⟨hlater, -, hb⟩
      exact ⟨hlater, hb⟩
    · rintro cause l ⟨hlater, rfl, hb⟩
      exact ⟨hlater, hb⟩

theorem move_tells {t : Tallied OneShot} {s : Operation}
    (hs : Story present t.own call (.running s) h) : (s.move present t).Ensures may
      (fun t' c l => Story present t'.own call c (h ++ l)) t := by
  cases hs with
  | working hs =>
    refine (Worker.move_tells hs).lift rfl ?_ ?_ ?_
    · exact fun t' s' l hinner => .working hinner
    · exact fun ran hinner => .worked hinner
    · exact fun cause l hinner => .broken hinner
  | claiming ht =>
    refine (Try.move_ensures 1 ht).lift rfl ?_ ?_ ?_
    · rintro flag next l ⟨hk, -, rfl, -⟩
      exact .claiming hk
    · rintro won ⟨hk, -⟩
      exact .claimed hk
    · exact fun cause l hinner => hinner.1.elim

theorem move_takes {t : Tallied OneShot} {s : Operation}
    (hs : Story present t.own call (.running s) h) : (s.move present t).Ensures may
      (fun t' _ _ => t'.own ≠ t.own → call = .claim ∨ Qualified call h) t := by
  cases hs with
  | @working unloading s _ hs =>
    have hq : unloading = true ∧ saw true ∈ h → Qualified (.worker unloading) h := by
      rintro ⟨rfl, hsaw⟩
      exact ⟨rfl, hsaw⟩
    refine (Worker.move_takes hs).lift rfl ?_ ?_ ?_
    · exact fun t' s' l hinner hne => .inr (hq (hinner hne))
    · exact fun ran hinner hne => .inr (hq (hinner hne))
    · exact fun cause l hinner hne => .inr (hq (hinner hne))
  | claiming ht => exact (Move.Ensures.of_may _).mono fun _ _ _ _ _ => .inl rfl

def toGo : Operation → ℕ
  | .work _ s => s.toGo
  | .claim t => t.toGo

theorem toGo_start_le (call : Call) : call.start.toGo ≤ 6 := by
  cases call <;> simp [Call.start, toGo, Worker.toGo, Try.toGo]

theorem move_below (present : Bool) (t : Tallied OneShot) (s : Operation) :
    (s.move present t).Ensures may (Pool.Below toGo s.toGo) t := by
  cases s with
  | work unloading s =>
    refine Pool.Below.lift (s.move_below present unloading t) rfl (fun _ hlt => hlt)
      (fun _ => ?_) (fun _ h => by cases h)
    simp [Move.Ensures, Pool.Below]
  | claim attempt =>
    refine Pool.Below.lift (attempt.move_below t.own) rfl (fun _ hlt => hlt)
      (fun _ => ?_) (fun _ h => by cases h)
    simp [Move.Ensures, Pool.Below]

theorem Ran.releases_pos (hc : Story present f call c h) (hran : Ran c h) : 0 < releases h := by
  rcases hran with rfl | ⟨cause, rfl, hfreed⟩
  · cases hc with
    | worked hs =>
      cases hs with
      | returned hend =>
        cases hend with
        | ran hdue ht => simp
  · exact List.countP_pos_iff.2 ⟨_, hfreed, rfl⟩

theorem holds_of_over (hover : c.isOver = true) (hc : c ≠ .returned (.claimed true)) :
    holds c = 0 := by
  cases c with
  | running s => cases hover
  | returned r =>
    cases r with
    | worked ran => rfl
    | claimed won =>
      cases won with
      | true => exact absurd rfl hc
      | false => rfl
  | panicked cause => rfl

namespace Story

theorem eq_nil_of_start (hc : Story present f call (.running call.start) h) : h = [] := by
  cases call with
  | worker unloading =>
    cases hc with
    | working hs =>
      cases hs with
      | start => rfl
  | claim =>
    cases hc with
    | claiming ht => rfl

theorem of_release (hc : Story present f call c h) {r : Reply Answer} (hr : r ∈ h)
    (hrelease : r.1.isRelease = true) :
    r.1 = .releaseMetadata true ∧ Qualified call h ∧ (c.isOver = true → Ran c h) := by
  cases hc with
  | working hs =>
    obtain ⟨hq, hdue, hsaw, -⟩ := hs.of_release hr hrelease
    obtain ⟨rfl, -⟩ := Bool.and_eq_true_iff.1 hdue
    exact ⟨hq, ⟨rfl, hsaw⟩, fun hover => Bool.noConfusion hover⟩
  | worked hs =>
    obtain ⟨hq, hdue, hsaw, hran⟩ := hs.of_release hr hrelease
    obtain ⟨rfl, -⟩ := Bool.and_eq_true_iff.1 hdue
    refine ⟨hq, ⟨rfl, hsaw⟩, fun _ => ?_⟩
    rcases hran rfl with h | ⟨cause, h, -⟩
    · exact .inl (by rw [Progress.returned.inj h])
    · cases h
  | broken hs =>
    obtain ⟨hq, hdue, hsaw, hran⟩ := hs.of_release hr hrelease
    obtain ⟨rfl, -⟩ := Bool.and_eq_true_iff.1 hdue
    refine ⟨hq, ⟨rfl, hsaw⟩, fun _ => ?_⟩
    rcases hran rfl with h | ⟨cause, h, hfreed⟩
    · cases h
    · exact .inr ⟨cause, by rw [Progress.panicked.inj h], hfreed⟩
  | claiming ht => cases hr
  | claimed ht => cases hr

theorem ne_claimed (hc : Story present f call c h) (hq : Qualified call h) (won : Bool) :
    c ≠ .returned (.claimed won) := by
  obtain ⟨rfl, -⟩ := hq
  cases hc <;> simp

theorem taken (hc : Story present f call c h) (hq : Qualified call h) (hover : c.isOver = true) :
    f.taken = true := by
  obtain ⟨rfl, hsaw⟩ := hq
  cases hc with
  | working hs => cases hover
  | worked hs => exact hs.taken hsaw rfl
  | broken hs => exact hs.taken hsaw rfl

theorem of_unqualified (hc : Story present f call c h) (hu : Unqualified present call h) :
    (releases h = 0 ∧ holds c = 0) ∧ ¬Qualified call h ∧
      (c.isOver = true → c = .returned (.worked false)) := by
  obtain ⟨unloading, rfl, hu⟩ := hu
  cases hc with
  | working hs =>
    obtain ⟨hr, hh, hsaw, -⟩ := hs.idle hu
    exact ⟨⟨hr, hh⟩, fun hq => hsaw hq.2, fun hover => Bool.noConfusion hover⟩
  | worked hs =>
    obtain ⟨hr, -, hsaw, hran⟩ := hs.idle hu
    refine ⟨⟨hr, rfl⟩, fun hq => hsaw hq.2, fun _ => ?_⟩
    rw [Progress.returned.inj (hran rfl)]
  | broken hs =>
    obtain ⟨hr, -, hsaw, hran⟩ := hs.idle hu
    cases hran rfl

end Story

end Operation

end PauseCleanup.MetadataRelease
