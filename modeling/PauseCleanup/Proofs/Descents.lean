import PauseCleanup.Proofs.Unloading.Worker
import PauseCleanup.Proofs.ClassCleaning.Source
import PauseCleanup.Proofs.Pool.Descent
import PauseCleanup.Proofs.Pass.Worker
/-!
# How a worker of a pass comes down to its end

The stock of a pass is what its frontier and its source of classes have still to give. A place that
goes by what the memory was like before ranks higher than the same place in an unchanged memory.
-/
namespace PauseCleanup

open Host (Query Answer)

section OneShot

variable {Q : Type} {A : Q → Type}

def OneShot.descent : Descent Unit OneShot OneShot.Try Bool where
  view _ := ()
  stock _ := 0
  rank
    | _, .running .look => 3
    | _, .running .exchange => 2
    | _, .running (.done _) => 1
    | _, _ => 0

theorem OneShot.Try.descends {may : Reply A → Prop} (flag : OneShot) (s : Try) :
    (s.move flag : Move A OneShot Try Bool).Proceeds may (descent.Down flag s) flag := by
  cases s with
  | look =>
    refine .of_rank rfl ?_
    cases flag.taken <;> simp [descent]
  | exchange => exact .of_rank rfl (Nat.lt_succ_self _)
  | done won => exact .of_rank rfl (Nat.lt_succ_self _)

end OneShot

namespace Frontier

/-- What a frontier has still to give: the units behind it, and its own end. -/
def stock (units : List UnitId) (f : Frontier) : ℕ :=
  if f.word = 0 then 0 else (f.rest units).length + 1

/-- What is to be done with a batch, for claims of at most `k` units. -/
def batchWork (k : ℕ) (us : List UnitId) : ℕ := if us = [] then 0 else 4 * us.length + 2 * k + 8

namespace Claim

/-- A walk that did not begin where the frontier is now has to be made again. -/
def detour (k : ℕ) (f : Frontier) (seen : UInt64) : ℕ := if f.word = seen then 0 else 2 * k + 3

def rank (k : ℕ) (f : Frontier) : Progress Claim Batch → ℕ
  | .running .allocate => 2 * k + 5
  | .running (.load ..) => 2 * k + 4
  | .running (.walk _ seen _ _ room) => 2 * room + 3 + detour k f seen
  | .running (.arrive _ seen _ _ room) => 2 * room + 4 + detour k f seen
  | .running (.exchange _ seen _ _) => 2 + detour k f seen
  | .running (.done b) => batchWork k b.units + 1
  | .returned b => batchWork k b.units
  | .panicked _ => 0

def descent (units : List UnitId) (max : BatchSize) : Descent Frontier Frontier Claim Batch where
  view := id
  stock := stock units
  rank := rank max.val.toNat

variable {may : Reply Answer → Prop} {units : List UnitId} {max : BatchSize} {f : Frontier}

/-- An exchange that goes through uses up the frontier, or takes units from it. -/
theorem stock_exchange {lost : ℕ} {last : UInt64} {taken : List UnitId}
    (h : (Claim.exchange lost f.word last taken).Sound units max) :
    stock units ⟨last⟩ < stock units f := by
  have hmax : 0 < max.val.toNat := UInt64.lt_iff_toNat_lt.1 max.pos
  obtain ⟨hrest, -, -⟩ := Sound.exchange h
  obtain ⟨hseen, -, -, hle, hend⟩ := h
  have hlen := congrArg List.length hrest
  rw [List.length_append, List.length_reverse] at hlen
  unfold stock
  rw [if_neg hseen]
  split
  · exact Nat.succ_pos _
  · next hlast =>
    have hfull : ¬taken.length < max.val.toNat := fun hlt => hlast (hend.2 hlt)
    omega

theorem descends {c : Claim} (hc : c.Sound units max) :
    (c.move max f).Proceeds may ((descent units max).Down f c) f := by
  cases c with
  | allocate =>
    simp only [move]
    split
    · exact .of_rank rfl (Nat.lt_succ_self _)
    · exact .of_rank rfl (Nat.succ_pos _)
  | load lost stale =>
    simp only [move]
    split
    · refine .of_rank rfl ?_
      simp [descent, rank, batchWork]
    · refine .of_rank rfl ?_
      simp [descent, rank, detour]
  | walk lost seen mark taken room =>
    cases room with
    | zero =>
      refine .of_rank rfl ?_
      simp [descent, rank]
    | succ room =>
      intro a _
      refine .of_rank rfl ?_
      cases a with
      | error cause => simp [descent, rank, Pool.resumed]
      | ok a =>
        cases a with
        | none =>
          simp only [descent, rank, Pool.resumed]
          omega
        | some v =>
          simp only [descent, rank, Pool.resumed]
          omega
  | arrive lost seen u taken room =>
    simp only [move]
    split
    · refine .of_rank rfl ?_
      simp [descent, rank]
    · refine .of_rank rfl ?_
      simp only [descent, rank]
      omega
  | exchange lost seen last taken =>
    simp only [move]
    split
    · next h =>
      subst h
      -- Only an exchange that goes through uses up some of the stock; all other moves lower the
      -- rank.
      exact .inl (stock_exchange hc)
    · next h =>
      -- In vain: the detour that this walk had on its account is taken now.
      refine .of_rank rfl ?_
      simp only [descent, rank, detour, id, if_neg h]
      omega
  | done b => exact .of_rank rfl (Nat.lt_succ_self _)

end Claim

end Frontier

namespace Unloading.Worker

/-- A worker of an unloading in claims of at most `k` units. -/
def rank (k : ℕ) (f : Frontier) : Progress Worker ℕ → ℕ
  | .running (.start _) => 2 * k + 16
  | .running (.enter _) => 2 * k + 15
  | .running (.first _ t) => 2 * k + 11 + OneShot.descent.rank () (.running t)
  | .running (.buffer _) => 2 * k + 6
  | .running (.claim _ c) => 1 + Frontier.Claim.rank k f (.running c)
  | .running (.batch _ us) => 4 * us.length + 2 * k + 8
  | .running (.unload _ us _) => 4 * us.length + 2 * k + 7
  | .running (.count _ us _) => 4 * us.tail.length + 2 * k + 10
  | .running (.tally _ us _) => 4 * us.tail.length + 2 * k + 9
  | .running (.done _) => 1
  | _ => 0

def descent (units : List UnitId) (p : Plan) : Descent Frontier (Tallied Shared) Worker ℕ where
  view t := t.own.frontier
  stock := Frontier.stock units
  rank := rank p.batch.val.toNat

variable {may : Reply Answer → Prop} {units : List UnitId} {p : Plan}

theorem descends {t : Tallied Shared} {id : UInt32} {s : Worker}
    (hs : Knows may units p id t.own (.running s)) :
    (s.move p t).Proceeds may ((descent units p).Down t s) t := by
  cases s with
  | start id' =>
    simp only [move]
    split
    · exact .of_rank rfl (Nat.lt_succ_self _)
    · exact .of_rank rfl (Nat.succ_pos _)
  | enter id' =>
    refine .of_rank rfl ?_
    simp only [afterEnter]
    split
    · split <;> simp [descent, rank, OneShot.descent]
    · simp [descent, rank]
  | first u attempt =>
    refine Descent.lift_apart (attempt.descends t.own.first) rfl (fun _ => rfl) (fun _ => rfl)
      (fun won hpos => .of_rank rfl ?_) fun _ => rfl
    cases won
    · show 2 * p.batch.val.toNat + 6 < 2 * p.batch.val.toNat + 11 + _
      omega
    · show 4 * 1 + 2 * p.batch.val.toNat + 7 < 2 * p.batch.val.toNat + 11 + _
      omega
  | buffer total =>
    simp only [move]
    split
    · refine .of_rank rfl ?_
      simp only [descent, rank, Frontier.Claim.start, Frontier.Claim.rank]
      omega
    · exact .of_rank rfl (Nat.succ_pos _)
  | claim total c =>
    refine Descent.lift (Frontier.Claim.descends hs.2.sound) rfl (fun _ h => h) (fun _ h => h)
      (fun _ => rfl) (fun b hlt => .of_rank rfl ?_) fun _ => rfl
    -- What a claim brings home is worth the rank of its last move.
    have hwork : Frontier.batchWork p.batch.val.toNat b.units <
      Frontier.Claim.rank p.batch.val.toNat t.own.frontier (.running c) := hlt
    unfold Frontier.batchWork at hwork
    split at hwork
    · next hb =>
      simp only [descent, rank, if_pos hb]
      omega
    · next hb =>
      simp only [descent, rank, if_neg hb]
      omega
  | batch total us => exact .of_rank rfl (Nat.lt_succ_self _)
  | unload total us opened =>
    cases us with
    | nil =>
      refine .of_rank rfl ?_
      cases opened <;> simp [descent, rank, Frontier.Claim.start, Frontier.Claim.rank]
      omega
    | cons u us =>
      intro a _
      refine .of_rank rfl ?_
      cases a with
      | error cause => exact Nat.succ_pos _
      | ok a =>
        simp only [descent, rank, Pool.resumed, List.tail_cons, List.length_cons]
        omega
  | count total us opened => exact .of_rank rfl (Nat.lt_succ_self _)
  | tally total us opened =>
    refine .of_rank rfl ?_
    simp only [descent, rank]
    omega
  | done total => exact .of_rank rfl Nat.one_pos

end Unloading.Worker

namespace Dispenser.Take

def rank (d : Dispenser) : Progress Take (Option UInt64) → ℕ
  | .running .load => 3
  | .running (.exchange seen) => if seen = d.next then 2 else 3
  | .running (.done number) => (if number = none then 0 else 9) + 1
  | .returned number => if number = none then 0 else 9
  | .panicked _ => 0

def descent : Descent Dispenser Dispenser Take (Option UInt64) where
  view := id
  stock d := d.rest.length
  rank := rank

theorem descends {Q : Type} {A : Q → Type} {may : Reply A → Prop} (d : Dispenser) (t : Take) :
    (t.move d : Move A Dispenser Take (Option UInt64)).Proceeds may (descent.Down d t) d := by
  cases t with
  | load =>
    refine .of_rank rfl ?_
    simp [descent, rank]
  | exchange seen =>
    simp only [move]
    split
    · refine .of_rank rfl ?_
      by_cases h : seen = d.next <;> simp [descent, rank, h]
    · next hle =>
      split
      · refine .of_rank rfl ?_
        by_cases h : seen = d.next <;> simp [descent, rank, h]
      · next after hafter =>
        split
        · next h =>
          obtain ⟨rfl, -⟩ := h
          left
          have hrest := rest_of_lt (UInt64.not_le.1 hle) hafter
          simp only [descent, id, hrest, List.length_cons]
          exact Nat.lt_succ_self _
        · next h =>
          have hne : seen ≠ d.next := fun he => h ⟨he, trivial⟩
          refine .of_rank rfl ?_
          simp [descent, rank, hne]
  | done number => exact .of_rank rfl (Nat.lt_succ_self _)

end Dispenser.Take

namespace ClassSource.Draw

def rank (s : ClassSource) : Progress Draw (Option ClassId) → ℕ
  | .running .start => 5
  | .running (.take t) => match s with
    | .dense d => 1 + Dispenser.Take.rank d (.running t)
    | .listed _ => 6
  | .running (.done cls) => (if cls = none then 0 else 9) + 1
  | .returned cls => if cls = none then 0 else 9
  | .panicked _ => 0

def descent : Descent ClassSource ClassSource Draw (Option ClassId) where
  view := id
  stock s := s.rest.length
  rank := rank

theorem descends {may : Reply Answer → Prop} (s : ClassSource) (d : Draw) :
    (d.move s).Proceeds may (descent.Down s d) s := by
  cases d with
  | start =>
    cases s with
    | dense d => exact .of_rank rfl (Nat.lt_succ_self _)
    | listed cs =>
      cases cs with
      | nil =>
        refine .of_rank rfl ?_
        simp [descent, rank]
      | cons c cs => exact .inl (Nat.lt_succ_self _)
  | take t =>
    cases s with
    | listed cs => exact .of_rank rfl (Nat.lt_succ_self _)
    | dense d =>
      refine Descent.lift (Dispenser.Take.descends d t) rfl (fun d' hlt => ?_)
        (fun d' h => congrArg ClassSource.dense h) (fun _ => rfl)
        (fun n hlt => .of_rank rfl ?_) fun _ => rfl
      · simpa [descent, Dispenser.Take.descent, rest] using hlt
      · have hwork : (if n = none then 0 else 9) < Dispenser.Take.rank d (.running t) := hlt
        cases n <;> simp [descent, rank] at hwork ⊢ <;> omega
  | done cls => exact .of_rank rfl (Nat.lt_succ_self _)

end ClassSource.Draw

namespace ClassCleaning

variable {may : Reply Answer → Prop}

namespace Pick

def rank (s : ClassSource) : Progress Pick (Option ClassId) → ℕ
  | .running (.draw _ d) => 2 + ClassSource.Draw.rank s (.running d)
  | .running (.kind ..) => 11
  | .running (.settle _ cls) => (if cls = none then 0 else 8) + 2
  | .running (.done cls) => (if cls = none then 0 else 8) + 1
  | .returned cls => if cls = none then 0 else 8
  | .panicked _ => 0

def descent : Descent ClassSource (Tallied Shared) Pick (Option ClassId) where
  view t := t.own.source
  stock s := s.rest.length
  rank := rank

theorem descends (t : Tallied Shared) (s : Pick) :
    (s.move t).Proceeds may (descent.Down t s) t := by
  cases s with
  | draw skipped d =>
    refine Descent.lift (ClassSource.Draw.descends t.own.source d) rfl (fun _ h => h) (fun _ h => h)
      (fun _ => rfl) (fun cls hlt => ?_) fun _ => rfl
    have hwork :
        (if cls = none then 0 else 9) < ClassSource.Draw.rank t.own.source (.running d) := hlt
    cases cls with
    | none =>
      refine .of_rank rfl ?_
      simp only [descent, rank, if_true] at hwork ⊢
      omega
    | some c =>
      refine .of_rank rfl ?_
      simp only [descent, rank, reduceCtorEq, if_false] at hwork ⊢
      omega
  | kind skipped c =>
    intro a _
    refine .of_rank rfl ?_
    cases a with
    | error cause => exact Nat.succ_pos _
    | ok k =>
      cases hk : k.isInstance <;> simp [descent, rank, Pool.resumed, hk, ClassSource.Draw.rank]
  | settle skipped cls => exact .of_rank rfl (Nat.lt_succ_self _)
  | done cls => exact .of_rank rfl (Nat.lt_succ_self _)

end Pick

namespace Worker

def rank (s : ClassSource) : Progress Worker ℕ → ℕ
  | .running (.tree t) => 11 + OneShot.descent.rank () (.running t)
  | .running .rebuild => 11
  | .running .rebuilt => 10
  | .running (.pick _ p) => 2 + Pick.rank s (.running p)
  | .running (.clean ..) => 10
  | .running (.report _) => 2
  | .running (.done _) => 1
  | _ => 0

def descent : Descent ClassSource (Tallied Shared) Worker ℕ where
  view t := t.own.source
  stock s := s.rest.length
  rank := rank

theorem descends (t : Tallied Shared) (s : Worker) :
    (s.move t).Proceeds may (descent.Down t s) t := by
  cases s with
  | tree attempt =>
    refine Descent.lift_apart (attempt.descends t.own.tree) rfl (fun _ => rfl) (fun _ => rfl)
      (fun won hpos => .of_rank rfl ?_) fun _ => rfl
    cases won
    · show 2 + (2 + 5) < 11 + _
      omega
    · show 11 < 11 + _
      omega
  | rebuild =>
    intro a _
    refine .of_rank rfl ?_
    cases a <;> simp [descent, rank, Pool.resumed]
  | rebuilt => exact .of_rank rfl (Nat.lt_succ_self _)
  | pick cleaned p =>
    refine Descent.lift (p.descends t) rfl (fun _ h => h) (fun _ h => h) (fun _ => rfl)
      (fun cls hlt => ?_) fun _ => rfl
    have hwork : (if cls = none then 0 else 8) < Pick.rank t.own.source (.running p) := hlt
    cases cls with
    | none =>
      refine .of_rank rfl ?_
      show 2 < 2 + Pick.rank t.own.source (.running p)
      omega
    | some c =>
      refine .of_rank rfl ?_
      show 10 < 2 + Pick.rank t.own.source (.running p)
      simp only [reduceCtorEq, if_false] at hwork
      omega
  | clean cleaned c =>
    intro a _
    refine .of_rank rfl ?_
    cases a with
    | error cause => exact Nat.succ_pos _
    | ok a => exact Nat.lt_succ_self _
  | report cleaned => exact .of_rank rfl (Nat.lt_succ_self _)
  | done cleaned => exact .of_rank rfl (Nat.lt_succ_self _)

end Worker

end ClassCleaning

def MetadataRelease.Worker.descent : Descent Unit (Tallied OneShot) Worker Bool where
  view _ := ()
  stock _ := 0
  rank
    | _, .running .start => 7
    | _, .running (.claim t) => 3 + OneShot.descent.rank () (.running t)
    | _, .running .release => 3
    | _, .running .released => 2
    | _, .running (.done _) => 1
    | _, _ => 0

theorem MetadataRelease.Worker.descends {may : Reply Answer → Prop} (present unloading : Bool)
    (t : Tallied OneShot) (s : Worker) :
    (s.move present unloading t).Proceeds may (descent.Down t s) t := by
  cases s with
  | start =>
    simp only [move]
    split
    · intro a _
      refine .of_rank rfl ?_
      cases a with
      | error cause => exact Nat.succ_pos _
      | ok enabled => cases enabled <;> simp [descent, Pool.resumed, OneShot.descent]
    · refine .of_rank rfl ?_
      simp [descent]
  | claim attempt =>
    refine Descent.lift_apart (attempt.descends t.own) rfl (fun _ => rfl) (fun _ => rfl)
      (fun won hpos => .of_rank rfl ?_) fun _ => rfl
    cases won
    · show 1 < 3 + _
      omega
    · show 3 < 3 + _
      omega
  | release =>
    intro a _
    refine .of_rank rfl ?_
    cases a <;> simp [descent, Pool.resumed]
  | released => exact .of_rank rfl (Nat.lt_succ_self _)
  | done ran => exact .of_rank rfl Nat.one_pos

def TableSweep.Worker.descent : Descent Unit Tally Worker Unit where
  view _ := ()
  stock _ := 0
  rank
    | _, .running (.start _) => 3
    | _, .running .unlinked => 2
    | _, .running .done => 1
    | _, _ => 0

theorem TableSweep.Worker.descends {may : Reply Answer → Prop} (s : TableSweep) (t : Tally)
    (w : Worker) :
    (w.move s t).Proceeds may (descent.Down t w) t := by
  cases w with
  | start id =>
    simp only [move]
    split
    · intro a _
      refine .of_rank rfl ?_
      cases a <;> simp [descent, Pool.resumed]
    · refine .of_rank rfl ?_
      simp [descent]
  | unlinked => exact .of_rank rfl (Nat.lt_succ_self _)
  | done => exact .of_rank rfl Nat.one_pos

namespace Pass.Worker

/-- A worker of a pass in claims of at most `k` units. -/
def rank (k : ℕ) (f : Frontier) (s : ClassSource) : Progress Worker Unit → ℕ
  | .running (.start _) => 2 * k + 43
  | .running (.enter _) => 2 * k + 42
  | .running (.metadata _ w) => 2 * k + 34 + MetadataRelease.Worker.descent.rank () (.running w)
  | .running (.code _ w) => 18 + Unloading.Worker.rank k f (.running w)
  | .running (.table _ w) => 15 + TableSweep.Worker.descent.rank () (.running w)
  | .running (.classes _ w) => 1 + ClassCleaning.Worker.rank s (.running w)
  | .running .done => 1
  | _ => 0

def descent (units : List UnitId) (p : Plan) :
    Descent (Frontier × ClassSource) Shared Worker Unit where
  view m := (m.code.frontier, m.classes.source)
  stock v := v.1.stock units + v.2.rest.length
  rank v := rank p.code.batch.val.toNat v.1 v.2

variable {may : Reply Answer → Prop} {host : (q : Query) → Answer q} {units : List UnitId}
  {p : Plan}

theorem descends {m : Shared} {id : UInt32} {s : Worker}
    (hs : Knows host units p may id m (.running s)) :
    (s.move p m).Proceeds may ((descent units p).Down m s) m := by
  cases s with
  | start id' =>
    simp only [move]
    split
    · exact .of_rank rfl (Nat.lt_succ_self _)
    · exact .of_rank rfl (Nat.succ_pos _)
  | enter id' => exact .of_rank rfl (Nat.lt_succ_self _)
  | metadata id' w =>
    refine Descent.lift_apart (w.descends p.compiler p.unloading m.metadataPart) rfl
      (fun _ => rfl) (fun _ => rfl) (fun ran hpos => .of_rank rfl ?_) fun _ => rfl
    show 18 + (2 * p.code.batch.val.toNat + 16) < 2 * p.code.batch.val.toNat + 34 + _
    omega
  | code id' w =>
    refine Descent.lift (Unloading.Worker.descends hs.2.2) rfl (fun _ h => Nat.add_lt_add_right h _)
      (fun _ h => congrArg (·, m.classes.source) h) (fun _ => rfl)
      (fun units hlt => .of_rank rfl ?_) fun _ => rfl
    have hpos := Nat.zero_lt_of_lt hlt
    exact Nat.add_lt_add_left hpos 18
  | table id' w =>
    refine Descent.lift_apart (w.descends p.sweep m.tally) rfl (fun _ => rfl) (fun _ => rfl)
      (fun _ hpos => ?_) fun _ => rfl
    by_cases hunloading : p.unloading = true
    · rw [if_pos hunloading]
      exact .of_rank rfl (Nat.add_lt_add_left hpos 15)
    · rw [if_neg hunloading]
      refine .of_rank rfl ?_
      show 1 < 15 + _
      omega
  | classes id' w =>
    refine Descent.lift (w.descends m.classPart) rfl (fun _ h => Nat.add_lt_add_left h _)
      (fun _ h => congrArg (m.code.frontier, ·) h) (fun _ => rfl)
      (fun cleaned hlt => .of_rank rfl ?_) fun _ => rfl
    have hpos := Nat.zero_lt_of_lt hlt
    exact Nat.add_lt_add_left hpos 1
  | done => exact .of_rank rfl Nat.one_pos

end Pass.Worker

end PauseCleanup
