import PauseCleanup.Proofs.Pass.Duties
/-!
# A calm pass that is over

Nothing stops the workers of a calm pass: when all of them are over they have all returned, the
frontier is used up, and all that the pass owed its host has been asked for.
-/
namespace PauseCleanup.Pass

open Host (Query Answer)
open scoped UInt64.CommRing

variable {ι : Type} [DecidableEq ι] {host : (q : Query) → Answer q}
  {units : List UnitId} {r : Request} {plan : Plan} {shared : Shared} {ids : ι → UInt32}
  {turns : List (Turn ι Answer)}

theorem calm_move
    (hunits : Unloading.Stable (fun u => host (.nextAlive u)) (host .firstAlive) units)
    (hfit : r.tuning.batch.fitsMemory = true) (hopened : Opened host units r plan shared)
    {id : UInt32} (hid : id < r.workers) {m : Shared} (hm : Valid units m) {s : Worker}
    (hs : Worker.Knows host units plan (returning host) id m (.running s))
    {P : Shared → Progress Worker Unit → List (Reply Answer) → Prop}
    (h : (s.move plan m).Ensures (returning host)
      (fun m' c l => (∀ cause, c ≠ .panicked cause) → P m' c l) m) :
    (s.move plan m).Ensures (returning host) P m := by
  have hmove := Worker.move_ensures (steady_returning host) hunits.chain hm hs
  refine (hmove.and h).mono fun m' c l hboth => hboth.2 ?_
  rintro cause rfl
  exact not_excused hunits hfit hopened hid hboth.1.knows

theorem holds_work
    (hunits : Unloading.Stable (fun u => host (.nextAlive u)) (host .firstAlive) units)
    (hsource : (host .classSource).Valid) (hopened : Opened host units r plan shared)
    (ids : ι → UInt32) (hturns : ∀ t ∈ turns, t.Returns host) :
    (outline (steady_returning host) hunits.chain plan ids).Holds (work plan shared ids turns) := by
  have hvalid : Valid units shared := hopened.valid_of_source hunits.chain hsource
  exact (Outline.holds_start _ hvalid fun _ => rfl).run hturns

variable [Fintype ι]

/-- What is left of a calm pass when all its workers are over. -/
structure Finished (host : (q : Query) → Answer q) (units : List UnitId) (r : Request) (plan : Plan)
    (ids : ι → UInt32) (p : Pool ι Answer Shared Worker Unit) : Prop where
  returned : ∀ i, p.calls i = .returned ()
  replies : ∀ r ∈ p.log, returning host r
  asked : chores p.log = duties host units r plan ids
  used : p.mem.code.frontier.word = 0

theorem finished (hunits : Unloading.Stable (fun u => host (.nextAlive u)) (host .firstAlive) units)
    (hsource : (host .classSource).Valid) (hfit : r.tuning.batch.fitsMemory = true)
    (hopened : Opened host units r plan shared) (hids : ∀ i, ids i < r.workers)
    (hzero : ∃ i, ids i = 0) (hturns : ∀ t ∈ turns, t.Returns host)
    (hover : (work plan shared ids turns).AllOver) :
    Finished host units r plan ids (work plan shared ids turns) := by
  have hholds := holds_work hunits hsource hopened ids hturns
  have howes := owes_run hunits hfit hopened hids
    (holds_work hunits hsource hopened ids (List.forall_mem_nil _)) hturns
  have hreturned : ∀ i, (work plan shared ids turns).calls i = .returned () := by
    intro i
    have hknows := hholds.call i
    cases hc : (work plan shared ids turns).calls i with
    | running s => exact absurd hc (hover.ne_running i s)
    | returned u => rfl
    | panicked cause =>
      rw [hc] at hknows
      exact absurd hknows (not_excused hunits hfit hopened (hids i))
  -- Worker 0 has been through all phases, so the memory owes nothing; and nobody holds anything.
  obtain ⟨i, hi⟩ := hzero
  have hknows := hholds.call i
  rw [hreturned i] at hknows
  obtain ⟨hmetadata, hcode, hclasses⟩ := hknows
  have hmem : (work plan shared ids turns).mem.owes host units plan = 0 :=
    owes_eq_zero hmetadata (hi ▸ hcode) hclasses
  have hcalls : ∑ i, Worker.owes host plan ((work plan shared ids turns).calls i) = 0 :=
    Finset.sum_eq_zero fun i _ => by rw [hreturned i]; rfl
  refine ⟨hreturned, Pool.log_run_may _ hturns (by simp), ?_, hcode.2⟩
  dsimp only at howes
  rw [hmem, hcalls, zero_add, zero_add, hopened.owes hunits.chain] at howes
  exact howes

omit [Fintype ι] in
theorem Opened.unloaded (h : Opened host units r plan shared) : shared.code.unloaded = 0 := by
  obtain ⟨f, -, hcode⟩ := h.code.shared
  rw [hcode]

theorem counted_of_over (hopened : Opened host units r plan shared)
    (hover : (work plan shared ids turns).AllOver) :
    (work plan shared ids turns).mem.code.unloaded =
      .ofNat (unloadings (work plan shared ids turns).log) := by
  have hcount : (work plan shared ids turns).mem.code.unloaded +
      ∑ i, Worker.uncounted ((work plan shared ids turns).calls i) =
        shared.code.unloaded + .ofNat (unloadings (work plan shared ids turns).log) :=
    count_run (fun m : Shared => m.code.unloaded) Worker.uncounted
      (fun _ m s => Worker.move_counts plan m s) shared
      (fun i => Worker.start (ids i)) (fun _ => rfl) turns
  have hnone : ∑ i, Worker.uncounted ((work plan shared ids turns).calls i) = 0 := by
    refine Finset.sum_eq_zero fun i _ => ?_
    cases hc : (work plan shared ids turns).calls i with
    | running s => exact absurd hc (hover.ne_running i s)
    | returned u => rfl
    | panicked cause => rfl
  rwa [hnone, add_zero, hopened.unloaded, zero_add] at hcount

theorem Finished.counted (hopened : Opened host units r plan shared)
    (h : Finished host units r plan ids (work plan shared ids turns)) :
    (work plan shared ids turns).mem.code.unloaded =
      .ofNat (unloadings (work plan shared ids turns).log) :=
  counted_of_over hopened fun i => by rw [h.returned i]; rfl

end PauseCleanup.Pass
