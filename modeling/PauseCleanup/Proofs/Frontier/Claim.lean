import PauseCleanup.Proofs.Frontier.Rest
import PauseCleanup.Proofs.Pool.Ensures
/-!
# What a claim ensures

What the word at the beginning of a walk had to hand out is what the walk has taken, followed by
what its mark has to hand out. This needs no memory of what happened in between.
-/
namespace PauseCleanup.Frontier

open Unloading (Chain)

def Later (f f' : Frontier) : Prop := f.word = 0 → f'.word = 0

namespace Claim

variable {may : Reply Host.Answer → Prop} {units : List UnitId} {max : BatchSize} {f f' : Frontier}

/-- What a claim knows of the walk that it makes. -/
def Sound (units : List UnitId) (max : BatchSize) : Claim → Prop
  | .walk _ seen mark taken room =>
    seen ≠ 0 ∧ mark ≠ 0 ∧ unitOf mark ∈ units ∧
      behind units (unitOf seen) = taken.reverse ++ behind units (unitOf mark) ∧
      taken.length + room = max.val.toNat
  | .arrive _ seen u taken room =>
    seen ≠ 0 ∧ u ∈ units ∧ behind units (unitOf seen) = taken.reverse ++ u :: behind units u ∧
      taken.length + 1 + room = max.val.toNat
  | .exchange _ seen last taken =>
    seen ≠ 0 ∧ Valid units ⟨last⟩ ∧
      behind units (unitOf seen) = taken.reverse ++ rest units ⟨last⟩ ∧
      taken.length ≤ max.val.toNat ∧ (last = 0 ↔ taken.length < max.val.toNat)
  | _ => True

/-- Why a claim may panic: the host did, no buffer can be had, or a unit has no word. -/
def Excused (may : Reply Host.Answer → Prop) (units : List UnitId) (max : BatchSize) : Prop :=
  MayPanic may ∨ max.fitsMemory = false ∨ ∃ u ∈ units, wordOf u = none

def EmptyOnlyAtEnd (f : Frontier) (b : Batch) : Prop := b.units = [] → f.word = 0

def Knows (may : Reply Host.Answer → Prop) (units : List UnitId) (max : BatchSize) (f : Frontier) :
    Progress Claim Batch → Prop
  | .running (.done b) => EmptyOnlyAtEnd f b
  | .running c => c.Sound units max
  | .returned b => EmptyOnlyAtEnd f b
  | .panicked _ => Excused may units max

theorem knows_stable {c : Progress Claim Batch} (h : Later f f') (hc : Knows may units max f c) :
    Knows may units max f' c := by
  cases c with
  | running c =>
    cases c with
    | done b => exact fun he => h (hc he)
    | _ => exact hc
  | returned b => exact fun he => h (hc he)
  | panicked cause => exact hc

theorem Knows.sound {c : Claim} (h : Knows may units max f (.running c)) : c.Sound units max := by
  cases c with
  | done b => trivial
  | _ => exact h

/-- The units that a claim has brought home, once it has. -/
def brings : Progress Claim Batch → Option (List UnitId)
  | .running (.done b) => some b.units
  | .returned b => some b.units
  | _ => none

def held (c : Progress Claim Batch) : List UnitId := (brings c).getD []

def wins (f : Frontier) : Claim → Bool
  | .exchange _ seen _ _ => f.word == seen
  | _ => false

/-- How one move changes what is handed out: not at all, or by the batch of an exchange that goes
through. -/
inductive Yields (f : Frontier) : Claim → Frontier → Progress Claim Batch → Prop
  | nothing {c c'} : c.wins f = false →
      brings c' = brings (.running c) ∨ brings (.running c) = none ∧ brings c' = some [] →
        Yields f c f c'
  | batch {lost last taken} : Yields f (.exchange lost f.word last taken) ⟨last⟩
      (.running (.done ⟨taken.reverse, lost⟩))

theorem Sound.exchange {lost : Nat} {last : UInt64} {taken : List UnitId}
    (h : (Claim.exchange lost f.word last taken).Sound units max) :
    f.rest units = taken.reverse ++ rest units ⟨last⟩ ∧
      taken.reverse = (f.rest units).take max.val.toNat ∧
      rest units ⟨last⟩ = (f.rest units).drop max.val.toNat := by
  obtain ⟨hseen, -, hb, hle, hend⟩ := h
  rw [← rest_of_ne_zero _ hseen] at hb
  refine ⟨hb, ?_⟩
  rcases Nat.lt_or_eq_of_le hle with hlt | heq
  · have hnil : rest units ⟨last⟩ = [] := rest_of_zero _ (hend.2 hlt)
    rw [hb, hnil, List.append_nil]
    exact ⟨(List.take_of_length_le (by simp; omega)).symm,
      (List.drop_of_length_le (by simp; omega)).symm⟩
  · rw [hb, ← heq]
    exact ⟨(List.take_left' (by simp)).symm, (List.drop_left' (by simp)).symm⟩

theorem Yields.rest_eq {c : Claim} {c' : Progress Claim Batch} (h : Yields f c f' c')
    (hc : c.Sound units max) : held c' ++ f'.rest units = held (.running c) ++ f.rest units := by
  cases h with
  | nothing _ h =>
    rcases h with h | ⟨h, h'⟩
    · rw [held, held, h]
    · rw [held, held, h, h']
      rfl
  | batch => exact (Sound.exchange hc).1.symm

/-- What one move of a claim does. -/
structure Moved (may : Reply Host.Answer → Prop) (units : List UnitId) (max : BatchSize)
    (f : Frontier) (c : Claim) (f' : Frontier) (c' : Progress Claim Batch) : Prop where
  valid : f'.Valid units
  knows : Knows may units max f' c'
  later : Later f f'
  yields : Yields f c f' c'

theorem Moved.still {c : Claim} {c' : Progress Claim Batch} (hf : f.Valid units)
    (hc : Knows may units max f c') (hb : brings c' = brings (.running c)) (hw : c.wins f = false) :
    Moved may units max f c f c' where
  valid := hf
  knows := hc
  later := id
  yields := .nothing hw (.inl hb)

variable {host : (q : Host.Query) → Host.Answer q} {here : Option UnitId}

theorem move_ensures (hmay : Steady host may)
    (hchain : Chain (fun u => host (.nextAlive u)) here units) (hf : f.Valid units) {c : Claim}
    (hc : Knows may units max f (.running c)) :
    (c.move max f).Ensures may (fun f' c' _ => Moved may units max f c f' c') f := by
  have hmax : 0 < max.val.toNat := UInt64.lt_iff_toNat_lt.1 max.pos
  cases c with
  | allocate =>
    simp only [move]
    split
    · exact .still hf trivial rfl rfl
    · next h => exact .still hf (.inr (.inl (by simpa using h))) rfl rfl
  | load lost stale =>
    simp only [move]
    split
    · next h => exact ⟨hf, fun _ => h, id, .nothing rfl (.inr ⟨rfl, rfl⟩)⟩
    · next h => exact .still hf ⟨h, h, hf h, by simp, by simp⟩ rfl rfl
  | walk lost seen mark taken room =>
    obtain ⟨hseen, hmark, hu, hb, hlen⟩ := hc
    cases room with
    | zero =>
      refine .still hf ⟨hseen, fun _ => hu, ?_, by omega, ?_⟩ rfl rfl
      · rw [rest_of_ne_zero _ hmark, hb]
      · exact ⟨fun h => absurd h hmark, fun h => by omega⟩
    | succ room =>
      intro a ha
      cases a with
      | error cause => exact .still hf (.inl ⟨_, _, ha⟩) rfl rfl
      | ok a =>
        have ha' := hmay _ _ ha
        cases a with
        | none =>
          have hnil := behind_of_next_none hchain hu ha'.symm
          refine .still hf ⟨hseen, fun h => absurd rfl h, ?_, by omega, ?_⟩ rfl rfl
          · rw [rest_of_zero _ rfl, hb, hnil]
          · exact ⟨fun _ => by omega, fun _ => rfl⟩
        | some v =>
          obtain ⟨hv, hcons⟩ := behind_of_next_some hchain hu ha'.symm
          refine .still hf ⟨hseen, hv, ?_, by omega⟩ rfl rfl
          rw [hb, hcons]
  | arrive lost seen u taken room =>
    obtain ⟨hseen, hu, hb, hlen⟩ := hc
    simp only [move]
    split
    · next h => exact .still hf (.inr (.inr ⟨u, hu, h⟩)) rfl rfl
    · next mark h =>
      have hmark := unitOf_of_wordOf h
      refine .still hf ⟨hseen, ne_zero_of_wordOf h, by rwa [hmark], ?_, ?_⟩ rfl rfl
      · rw [hb, hmark]
        simp
      · simp only [List.length_cons]
        omega
  | exchange lost seen last taken =>
    obtain ⟨hseen, hlast, hb, hle, hend⟩ := hc
    simp only [move]
    split
    · next h =>
      subst h
      -- The exchange goes through: only a walk that ended with the sequence may come home with
      -- nothing.
      refine ⟨hlast, ?_, fun h => absurd h hseen, .batch⟩
      intro he
      have hnil : taken = [] := by simpa using he
      exact hend.2 (by simp [hnil, hmax])
    · next h => exact .still hf trivial rfl (by simp [wins, h])
  | done b => exact .still hf hc rfl rfl

theorem asks_next (max : BatchSize) (f : Frontier) (c : Claim) :
    (c.move max f).Ensures may (fun _ _ l => ∀ r ∈ l, ∃ u, r.1 = .nextAlive u) f := by
  cases c with
  | walk lost seen mark taken room =>
    cases room with
    | zero => exact fun r hr => absurd hr List.not_mem_nil
    | succ room =>
      intro a _ r hr
      exact ⟨_, by rw [List.mem_singleton.1 hr]⟩
  | allocate =>
    simp only [move]
    split <;> simp [Move.Ensures]
  | load lost stale =>
    simp only [move]
    split <;> simp [Move.Ensures]
  | arrive lost seen u taken room =>
    simp only [move]
    split <;> simp [Move.Ensures]
  | exchange lost seen last taken =>
    simp only [move]
    split <;> simp [Move.Ensures]
  | done b => exact fun r hr => absurd hr List.not_mem_nil

theorem move_ne_abort (c : Claim) (reason : Abort) : c.move max f ≠ .abort reason := by
  unfold move
  split <;> (try split) <;> simp

end Claim

end PauseCleanup.Frontier
