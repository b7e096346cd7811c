import PauseCleanup.Proofs.Frontier.Claim
import PauseCleanup.Proofs.Pool.History
import PauseCleanup.Proofs.SmallHost
import Mathlib.Algebra.GroupWithZero.Nat
import Mathlib.Data.List.Nodup
/-!
# Claims that race for one frontier

The exchanges that go through put racing claims in an order, and in this order they cut the sequence
into runs. A claim made by the host while it answers another is a call of the pool like any other.
-/
namespace PauseCleanup.Frontier

open Unloading (Chain)

/-- A list cut into runs of the given sizes, the rest left out. -/
def chunks {α : Type} : List ℕ → List α → List (List α)
  | [], _ => []
  | k :: ks, xs => xs.take k :: chunks ks (xs.drop k)

section chunks

variable {α : Type}

@[simp] theorem chunks_nil (xs : List α) : chunks [] xs = [] := rfl

theorem chunks_concat (ks : List ℕ) (k : ℕ) (xs : List α) :
    chunks (ks ++ [k]) xs = chunks ks xs ++ [(xs.drop ks.sum).take k] := by
  induction ks generalizing xs with
  | nil => simp [chunks]
  | cons k' ks ih => simp [chunks, ih, List.drop_drop]

theorem chunks_getElem? (ks : List ℕ) (xs : List α) (n : ℕ) :
    (chunks ks xs)[n]? = ks[n]?.map fun k => (xs.drop (ks.take n).sum).take k := by
  induction ks generalizing xs n with
  | nil => simp
  | cons k ks ih =>
    cases n with
    | zero => simp [chunks]
    | succ n => simp [chunks, ih, List.drop_drop]

theorem chunks_flatten (ks : List ℕ) (xs : List α) : (chunks ks xs).flatten = xs.take ks.sum := by
  induction ks generalizing xs with
  | nil => simp
  | cons k ks ih => simp [chunks, ih, List.take_add]

end chunks

def claiming {ι : Type} (max : ι → BatchSize) (i : ι) (f : Frontier) (c : Claim) :
    HostMove Frontier Claim Batch :=
  c.move (max i) f

/-- The callers whose exchanges went through, in the order of these exchanges. -/
def winners {ι : Type} (h : List (Pool.Made ι Frontier Claim)) : List ι :=
  (h.filter fun m => m.state.wins m.before).map (·.caller)

def sizes {ι : Type} (max : ι → BatchSize) (ws : List ι) : List ℕ :=
  ws.map fun i => (max i).val.toNat

theorem sizes_concat {ι : Type} (max : ι → BatchSize) (ws : List ι) (i : ι) :
    sizes max (ws ++ [i]) = sizes max ws ++ [(max i).val.toNat] := by
  simp [sizes]

section

variable {ι : Type} {may : Reply Host.Answer → Prop} {host : (q : Host.Query) → Host.Answer q}
  {here : Option UnitId} {units ts : List UnitId} {max : ι → BatchSize}

def outline (hmay : Steady host may) (hchain : Chain (fun u => host (.nextAlive u)) here units)
    (max : ι → BatchSize) : Outline may (claiming max) where
  mem f := f.Valid units
  call i f c := Claim.Knows may units (max i) f c
  later := Later
  stable h hc := Claim.knows_stable h hc
  step hf hc := (Claim.move_ensures hmay hchain hf hc).mono fun _ _ _ h =>
    ⟨⟨h.valid, h.knows⟩, h.later, fun _ _ => trivial⟩

/-- The callers `ws` have cut off the sequence, one after the other, what they asked for; nobody
else holds a unit. -/
structure Handed (units ts : List UnitId) (max : ι → BatchSize)
    (p : Pool ι Host.Answer Frontier Claim Batch) (ws : List ι) : Prop where
  rest : p.mem.rest units = ts.drop (sizes max ws).sum
  brings : ws.map (fun i => Claim.brings (p.calls i)) = (chunks (sizes max ws) ts).map some
  others : ∀ i, i ∉ ws → Claim.held (p.calls i) = []
  nodup : ws.Nodup

namespace Handed

variable {p : Pool ι Host.Answer Frontier Claim Batch} {ws : List ι}

theorem brings_ne_none (h : Handed units ts max p ws) {i : ι} (hi : i ∈ ws) :
    Claim.brings (p.calls i) ≠ none := by
  intro he
  have hm : Claim.brings (p.calls i) ∈ ws.map fun i => Claim.brings (p.calls i) :=
    List.mem_map_of_mem hi
  rw [h.brings, he] at hm
  simp at hm

theorem start {f : Frontier} (hf : f.rest units = ts) (stale : ι → List UnitId) :
    Handed units ts max (Pool.start f fun i => Claim.start (stale i)) [] where
  rest := by simpa [Pool.start, sizes] using hf
  brings := by simp [sizes]
  others _ _ := rfl
  nodup := List.nodup_nil

theorem flatten_brings (h : Handed units ts max p ws) :
    (ws.flatMap fun i => (Claim.brings (p.calls i)).getD []) = ts.take (sizes max ws).sum := by
  rw [← chunks_flatten, List.flatMap_def]
  congr 1
  have hb := congrArg (List.map fun o : Option (List UnitId) => o.getD []) h.brings
  simpa [List.map_map, Function.comp_def] using hb

variable [DecidableEq ι]

theorem after_nothing (h : Handed units ts max p ws) {i : ι} {s : Claim} {c : Progress Claim Batch}
    (hs : p.calls i = .running s)
    (hc : Claim.brings c = Claim.brings (.running s) ∨
      Claim.brings (.running s : Progress Claim Batch) = none ∧ Claim.brings c = some [])
    (l : List (Reply Host.Answer)) : Handed units ts max (p.after i p.mem c l) ws := by
  constructor
  case rest => exact h.rest
  case brings =>
    rw [← h.brings]
    apply List.map_congr_left
    intro j hj
    by_cases hji : j = i
    · subst hji
      have hne := h.brings_ne_none hj
      rw [hs] at hne ⊢
      simpa [Pool.after] using hc.resolve_right fun he => hne he.1
    · simp [Pool.after, hji]
  case others =>
    intro j hj
    by_cases hji : j = i
    · subst hji
      have hnil := h.others j hj
      rw [hs] at hnil
      rcases hc with hc | ⟨_, hc⟩
      · simpa [Pool.after, Claim.held, hc] using hnil
      · simp [Pool.after, Claim.held, hc]
    · simpa [Pool.after, hji] using h.others j hj
  case nodup => exact h.nodup

theorem after_batch (h : Handed units ts max p ws) {i : ι} {lost : ℕ} {last : UInt64}
    {taken : List UnitId} (hs : p.calls i = .running (.exchange lost p.mem.word last taken))
    (hsound : (Claim.exchange lost p.mem.word last taken).Sound units (max i))
    (l : List (Reply Host.Answer)) :
    Handed units ts max (p.after i ⟨last⟩ (.running (.done ⟨taken.reverse, lost⟩)) l)
      (ws ++ [i]) := by
  -- The caller is not among the winners yet: it has brought nothing home.
  have hi : i ∉ ws := by
    intro hi
    have hne := h.brings_ne_none hi
    rw [hs] at hne
    exact hne rfl
  obtain ⟨-, htake, hdrop⟩ := hsound.exchange
  rw [h.rest] at htake hdrop
  constructor
  case rest =>
    show Frontier.rest units ⟨last⟩ = _
    rw [hdrop, sizes_concat, List.sum_append, List.drop_drop]
    simp
  case brings =>
    let q := p.after i ⟨last⟩ (.running (.done ⟨taken.reverse, lost⟩)) l
    have hold : ws.map (fun j => Claim.brings (q.calls j)) =
        ws.map fun j => Claim.brings (p.calls j) := by
      apply List.map_congr_left
      intro j hj
      have hji : j ≠ i := fun e => hi (e ▸ hj)
      simp [q, Pool.after, hji]
    rw [List.map_append, hold, h.brings, sizes_concat, chunks_concat, List.map_append, ← htake]
    simp [Pool.after, Claim.brings]
  case others =>
    intro j hj
    rw [List.mem_append, List.mem_singleton, not_or] at hj
    simpa [Pool.after, hj.2] using h.others j hj.1
  case nodup =>
    refine List.nodup_append.2 ⟨h.nodup, List.nodup_singleton i, ?_⟩
    rintro j hj k hk rfl
    exact hi (List.mem_singleton.1 hk ▸ hj)

theorem run (hmay : Steady host may) (hchain : Chain (fun u => host (.nextAlive u)) here units)
    (hp : (outline hmay hchain max).Holds p) (h : Handed units ts max p [])
    {turns : List (Turn ι Host.Answer)} (hturns : ∀ t ∈ turns, t.Within may) :
    Handed units ts max (p.run (claiming max) turns)
      (winners (p.history (claiming max) turns)) := by
  refine hp.history_induction (fun _ _ c => c.move_ne_abort)
    (fun hf hc => (Claim.move_ensures hmay hchain hf hc).mono fun _ _ _ hm => hm.yields)
    (P := fun q past => Handed units ts max q (winners past)) h ?_ hturns
  intro q past i c f c' l hq hnow hi hy
  have hknows := hq.call i
  rw [hi] at hknows
  simp only [winners, List.filter_append, List.map_append, List.filter_cons, List.filter_nil]
  cases hy with
  | nothing hw hb => simpa [hw, winners] using hnow.after_nothing hi hb l
  | batch => simpa [Claim.wins, winners] using hnow.after_batch hi hknows l

end Handed

/-- What racing claims bring home of the units `ts` behind a frontier's first unit, if `ws` are the
callers whose exchanges went through, in the order of these exchanges. -/
structure CutInRuns (start : UnitId) (ts : List UnitId) (max : ι → BatchSize)
    (brought : ι → Option (List UnitId)) (ws : List ι) : Prop where
  /-- The `n`-th caller has the units that follow those of the callers before it: as many as it
  asked for, or all. -/
  run : ∀ n i, ws[n]? = some i →
    brought i = some ((ts.drop (min (sizes max (ws.take n)).sum ts.length)).take (max i).val.toNat)
  whole : (ws.flatMap fun i => (brought i).getD []) = ts.take (sizes max ws).sum
  distinct : ws.Nodup ∧ (start :: ts).Nodup
  others : ∀ i us, brought i = some us → i ∈ ws ∨ us = []
  /-- Who comes home with an empty batch leaves no unit behind: others have them all. -/
  empty : ∀ i, brought i = some [] → ∀ t ∈ ts, ∃ j ∈ ws, j ≠ i ∧ t ∈ (brought j).getD []

/-- However many calls race, and however their moves interleave, their batches are the runs that the
same calls would claim one after the other, in the order of the exchanges that went through. -/
theorem racing_claims_cut_runs [DecidableEq ι] {start : UnitId}
    (hchain : Chain (fun u => host (.nextAlive u)) (some start) (start :: ts)) {f : Frontier}
    (hf : after (some start) = some f) (max : ι → BatchSize) (stale : ι → List UnitId)
    {turns : List (Turn ι Host.Answer)} (hturns : ∀ t ∈ turns, t.Agrees host) :
    let p := Pool.start f fun i => Claim.start (stale i)
    CutInRuns start ts max (fun i => Claim.brings ((p.run (claiming max) turns).calls i))
      (winners (p.history (claiming max) turns)) := by
  intro p
  obtain ⟨hvalid, hrest⟩ := after_spec hchain hf
  rw [List.tail_cons] at hrest
  have hp : (outline (steady_agreeing host) hchain max).Holds p :=
    Outline.holds_start _ hvalid fun _ => trivial
  have h : Handed (start :: ts) ts max _ _ :=
    (Handed.start hrest stale).run (steady_agreeing host) hchain hp hturns
  have hq := hp.run hturns
  generalize winners (p.history (claiming max) turns) = ws at h ⊢
  generalize p.run (claiming max) turns = q at h hq ⊢
  constructor
  case run =>
    intro n i hn
    have hb := congrArg (·[n]?) h.brings
    simp only [List.getElem?_map, hn, chunks_getElem?, sizes, Option.map_some,
      Option.some.injEq] at hb
    rw [hb, sizes, List.map_take]
    congr 2
    exact List.drop_eq_drop_iff.2 (by simp)
  case whole => exact h.flatten_brings
  case distinct => exact ⟨h.nodup, chain_nodup hchain⟩
  case others =>
    intro i us hi
    by_cases hw : i ∈ ws
    · exact .inl hw
    · have hnil := h.others i hw
      rw [Claim.held, hi] at hnil
      exact .inr hnil
  case empty =>
    intro i hi t ht
    -- An empty batch is brought home from a frontier that is used up only.
    have hword : q.mem.word = 0 := by
      have hknows := hq.call i
      revert hi hknows
      cases q.calls i with
      | running s =>
        cases s with
        | done b => exact fun hi hknows => hknows (Option.some.inj hi)
        | _ => exact fun hi => by simp [Claim.brings] at hi
      | returned b => exact fun hi hknows => hknows (Option.some.inj hi)
      | panicked cause => exact fun hi => by simp [Claim.brings] at hi
    have hall : ts.length ≤ (sizes max ws).sum := by
      have hdrop := h.rest
      rw [rest_of_zero _ hword] at hdrop
      exact List.drop_eq_nil_iff.1 hdrop.symm
    have hmem := ht
    rw [← List.take_of_length_le hall, ← h.flatten_brings, List.mem_flatMap] at hmem
    obtain ⟨j, hj, htj⟩ := hmem
    refine ⟨j, hj, ?_, htj⟩
    rintro rfl
    simp [hi] at htj

/-- Two callers race: the second takes both units while the first is on its way, and the first comes
home with none. -/
theorem racing_claims_cut_runs_small :
    let max : Fin 2 → BatchSize := fun i => if i = 0 then ⟨1, by decide⟩ else ⟨2, by decide⟩
    let p : Pool (Fin 2) Host.Answer Frontier Claim Batch :=
      Pool.start ⟨6⟩ fun i => Claim.start [⟨i.val.toUInt64⟩]
    let turns := calmTurns smallHost [0, 0, 0, 0, 1, 1, 1, 1, 1, 1, 1, 1, 0, 0, 0, 0, 0]
    winners (p.history (claiming max) turns) = [1, 0] ∧
      CutInRuns ⟨5⟩ [⟨2⟩, ⟨9⟩] max (fun i => Claim.brings ((p.run (claiming max) turns).calls i))
        (winners (p.history (claiming max) turns)) := by
  refine ⟨by decide +kernel, ?_⟩
  refine racing_claims_cut_runs smallUnits_chain rfl _ _ ?_
  intro t ht
  exact (calmTurns_returns smallHost _ t ht).agrees

end

end PauseCleanup.Frontier
