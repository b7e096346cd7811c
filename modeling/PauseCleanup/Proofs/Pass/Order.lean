import PauseCleanup.Proofs.QuestionOrder
import PauseCleanup.Proofs.Pass.SequenceHost
import PauseCleanup.Proofs.NoRescue
import PauseCleanup.Proofs.SmallHost
import PauseCleanup.Proofs.Pool.Alone
import Mathlib.Data.Fin.VecNotation
/-!
# The order of the phases, call by call

Whatever the other calls do, one call goes through the phases in their order. A panic of the host is
the last thing that it hears; if it returns, nothing is left to be claimed.
-/
namespace PauseCleanup

open Host (Query Answer)
open Unloading (Chain Stable)

def Host.Query.isUnlink : Query → Bool
  | .unlink .. => true
  | _ => false

namespace Pass

namespace Worker

variable {may : Reply Answer → Prop} {h : List (Reply Answer)}

def Poised : Progress Worker Unit → List (Reply Answer) → Prop
  | .running (.start _), h => h = []
  | .running (.enter _), h => h = []
  | .running (.metadata _ s), h => MetadataRelease.Worker.Poised (.running s) h
  | .running (.code ..), h => UpTo 1 h
  | .running (.table _ s), h => TableSweep.Worker.Poised (.running s) h
  | .running (.classes _ s), h => ClassCleaning.Worker.Poised (.running s) h
  | _, _ => True

theorem move_prepared (p : Plan) (m : Shared) {s : Worker} (hs : Poised (.running s) h) :
    (s.move p m).Ensures may (fun _ c l => Prepared Poised h c l) m := by
  cases s with
  | start id =>
    simp only [move]
    split
    · exact .silent hs
    · exact .silent trivial
  | enter id => exact .silent hs
  | metadata id s =>
    refine (s.move_prepared p.compiler p.unloading m.metadataPart hs).lift rfl ?_ ?_ ?_
    · exact fun _ _ _ hl => hl
    · intro ran hl
      obtain ⟨-, hup⟩ := hl
      rw [List.append_nil] at hup
      exact .silent (UpTo.mono (n := 0) hup (by decide))
    · exact fun cause l hl => ⟨hl.1, trivial⟩
  | code id s =>
    refine ((s.asks_due p.code m.codePart hs).and (s.within p.code m.codePart)).lift rfl ?_ ?_ ?_
    · intro t' s' l hl
      refine ⟨hl.1, UpTo.append hs (upTo_of_within hl.2 fun q hq => ?_)⟩
      rw [Query.place, hq]
    · exact fun total _ => .silent hs
    · exact fun cause l hl => ⟨hl.1, trivial⟩
  | table id s =>
    refine (s.move_prepared p.sweep m.tally hs).lift rfl ?_ ?_ ?_
    · exact fun _ _ _ hl => hl
    · intro r hl
      split
      · exact hl
      · exact .silent trivial
    · exact fun cause l hl => ⟨hl.1, trivial⟩
  | classes id s =>
    refine (s.move_prepared m.classPart hs).lift rfl ?_ ?_ ?_
    · exact fun _ _ _ hl => hl
    · exact fun cleaned _ => .silent trivial
    · exact fun cause l hl => ⟨hl.1, trivial⟩
  | done => exact .silent trivial

end Worker

variable {ι : Type} {may : Reply Answer → Prop} {next : UnitId → Option UnitId}
  {here : Option UnitId} {units : List UnitId} {plan : Plan}

/-- What is known of a call by what it has heard. -/
structure Worker.Line (units : List UnitId) (classes : List ClassId) (p : Plan) (m : Shared)
    (c : Progress Worker Unit) (h : List (Reply Answer)) : Prop where
  due : EachAfter (fun past r => Due past r.1) h
  poised : Poised c h
  units : (unitsOf h ++ (unitsAhead p c ++ m.code.frontier.rest units)).Sublist units
  classes : (classesOf h ++ (classesAhead c ++ m.classes.source.rest)).Sublist classes
  unloading : ∀ r ∈ h, r.1.phase = some .classes → p.unloading = true

/-- One move takes a call one step along its line. -/
theorem Worker.Line.step {classes : List ClassId} {id : UInt32} {m m' : Shared} {s : Worker}
    {c : Progress Worker Unit} {h l : List (Reply Answer)}
    (hs : Line units classes plan m (.running s) h)
    (halong : Along may units plan id m (.running s))
    (hforth : Forth may units plan id m s m' c l) (hprepared : Prepared Poised h c l)
    (hwithin : Within s.phase l) (hlen : l.length ≤ 1) : Line units classes plan m' c (h ++ l) := by
  constructor
  case due => exact hs.due.grow hprepared.1 hlen
  case poised => exact hprepared.2
  case units =>
    rw [unitsOf_append]
    exact hforth.units.append hs.units
  case classes =>
    rw [classesOf_append]
    exact hforth.classes.append hs.classes
  case unloading =>
    intro r hr hphase
    rcases List.mem_append.1 hr with hr | hr
    · exact hs.unloading r hr hphase
    · -- Only a worker that has come to the classes asks about them.
      rw [hwithin r hr] at hphase
      cases s with
      | classes id' s => exact halong.2.1
      | _ => cases hphase

def lineDiary (hmay : ∀ r, may r → following next r) (hchain : Chain next here units) (plan : Plan)
    (ids : ι → UInt32) (classes : List ClassId) :
    Diary (followingOutline hmay hchain plan ids) where
  call _ m c h := Worker.Line units classes plan m c h
  stable hl hc :=
    ⟨hc.due, hc.poised, ((hl.units.append_left _).append_left _).trans hc.units,
      ((hl.classes.append_left _).append_left _).trans hc.classes, hc.unloading⟩
  step hm hs hc := by
    have hmove := (((Worker.move_forth hmay hchain hm hs).and
      (Worker.move_prepared plan _ hc.poised)).and (Worker.within plan _ _)).and
        (Move.Ensures.length_le_one _)
    exact hmove.mono fun _ _ _ h => hc.step hs h.1.1.1 h.1.1.2 h.1.2 h.2

/-- A call has asked its questions in the order of the phases. -/
structure InOrder (plan : Plan) (units : List UnitId) (source : ClassSource)
    (h : List (Reply Answer)) : Prop where
  phases : h.Pairwise fun r r' => r.1.place ≤ r'.1.place
  release : (h.countP fun r => r.1.isRelease) ≤ 1
  units : (unitsOf h).Sublist units
  first : ∀ u, plan.code.first = some u → u ∈ unitsOf h → (unitsOf h).head? = some u
  unlink : (h.countP fun r => r.1.isUnlink) ≤ 1
  unloading : ∀ r ∈ h, r.1.phase = some .classes → plan.unloading = true
  tree : (h.countP fun r => r.1 = .cleanTree) ≤ 1 ∧ EachAfter (fun past r =>
    r.1 = .cleanTree → ∀ r' ∈ past, r'.1.phase ≠ some .classes) h
  kinds : (classesOf h).Sublist source.rest
  ascending : ∀ d, source = .dense d → (classesOf h).Pairwise fun c c' => c.index < c'.index
  /-- The links of a class are cleaned right after it has told that it is an instance class. -/
  links : EachAfter (fun past r => ∀ c, r.1 = .cleanLinks c → Told c past) h

theorem place_of_classes {q : Query} (h : q.phase = some .classes) : q.place = 3 := by
  rw [Query.place, h]

theorem head?_of_sublist {us : List UnitId} {u : UnitId} (hsub : us.Sublist (u :: units))
    (hnodup : (u :: units).Nodup) (hu : u ∈ us) : us.head? = some u := by
  cases hsub with
  | cons _ hsub => exact absurd (hsub.subset hu) (List.nodup_cons.1 hnodup).1
  | cons_cons _ _ => rfl

theorem Worker.Line.inOrder {source : ClassSource} {m : Shared} {c : Progress Worker Unit}
    {h : List (Reply Answer)} (hline : Line units source.rest plan m c h)
    (hfirst : units.head? = plan.code.first) (hnodup : units.Nodup) :
    InOrder plan units source h := by
  have hunits : (unitsOf h).Sublist units := (List.sublist_append_left _ _).trans hline.units
  have hkinds : (classesOf h).Sublist source.rest :=
    (List.sublist_append_left _ _).trans hline.classes
  constructor
  case phases => exact (hline.due.mono fun past r hr => hr.1).pairwise
  case release =>
    refine (hline.due.mono fun past r hr hq r' hr' => ?_).countP_le_one
    cases hr1 : r.1 with
    | releaseMetadata unloading =>
      rw [hr1] at hr
      rw [hr.2 r' hr']
      rfl
    | _ =>
      rw [hr1] at hq
      cases hq
  case units => exact hunits
  case first =>
    intro u hu hmem
    cases units with
    | nil => rw [hu] at hfirst; cases hfirst
    | cons v us =>
      rw [hu] at hfirst
      obtain rfl := Option.some.inj hfirst
      exact head?_of_sublist hunits hnodup hmem
  case unlink =>
    refine (hline.due.mono fun past r hr hq r' hr' => ?_).countP_le_one
    cases hr1 : r.1 with
    | unlink id keeps =>
      rw [hr1] at hr
      have hup := hr.2 r' hr'
      cases hr2 : r'.1 with
      | unlink id' keeps' =>
        rw [hr2] at hup
        exact absurd hup (Nat.not_succ_le_self 1)
      | _ => rfl
    | _ =>
      rw [hr1] at hq
      cases hq
  case unloading => exact hline.unloading
  case tree =>
    refine ⟨(hline.due.mono fun past r hr hq r' hr' => ?_).countP_le_one,
      hline.due.mono fun past r hr hq r' hr' hphase => ?_⟩
    · have hr1 : r.1 = .cleanTree := of_decide_eq_true hq
      rw [hr1] at hr
      refine decide_eq_false fun hr2 => ?_
      have hup := hr.2 r' hr'
      rw [hr2] at hup
      exact absurd hup (by decide)
    · rw [hq] at hr
      have hup := hr.2 r' hr'
      rw [place_of_classes hphase] at hup
      exact absurd hup (by decide)
  case kinds => exact hkinds
  case ascending =>
    rintro d rfl
    have hascending : (ClassSource.dense d).rest.Pairwise fun c c' => c.index < c'.index :=
      List.pairwise_map.2 d.rest_ascending
    exact hascending.sublist hkinds
  case links =>
    intro past r rest he c hc
    have hr : Due past r.1 := hline.due past r rest he
    rw [hc] at hr
    exact hr.2

variable [DecidableEq ι]

/-- What a call of a pass has done, and what it leaves behind. -/
structure Orderly (plan : Plan) (units : List UnitId) (source : ClassSource)
    (p : Pool ι Answer Shared Worker Unit) (i : ι) : Prop where
  order : InOrder plan units source (p.heard i)
  broken : ∀ past r rest cause, p.heard i = past ++ r :: rest → r.2 = .error cause →
    rest = [] ∧ p.calls i = .panicked cause
  /-- A call that returns leaves nothing to be claimed. -/
  drained : p.calls i = .returned () → p.mem.code.frontier.word = 0 ∧
    (plan.unloading = true → p.mem.classes.source.IsEmpty)

variable {host : (q : Query) → Answer q} {r : Request} {shared : Shared}
  {turns : List (Turn ι Answer)}

variable (r) in
/-- Only the sequence of units has to be stable: whatever else the host answers, wherever it panics
and however the calls interleave, each of them keeps to the order. -/
theorem calls_are_orderly
    (hunits : Stable (fun u => host (.nextAlive u)) (host .firstAlive) units)
    (hsource : (host .classSource).Valid) (ledger : Ledger) {opening : List (Turn Unit Answer)}
    (hopening : ∀ t ∈ opening, t.Agrees host)
    (hopen : (Pool.alone (Opening.move r) ledger .start opening).calls () =
      .returned (plan, shared))
    (ids : ι → UInt32) (hturns : ∀ t ∈ turns, t.Within (following fun u => host (.nextAlive u))) :
    ∀ i, Orderly plan units (host .classSource) (work plan shared ids turns) i := by
  intro i
  have hopened : Opened host units r plan shared :=
    Opening.returned_opened (steady_agreeing host) hunits.chain hopening hopen
  have hvalid := hopened.valid_of_source hunits.chain hsource
  have hstart : (followingOutline (fun _ hr => hr) hunits.chain plan ids).Holds
      (Pool.start shared fun i => Worker.start (ids i)) :=
    Outline.holds_start _ hvalid fun _ => rfl
  have hholds : (followingOutline (fun _ hr => hr) hunits.chain plan ids).Holds
      (work plan shared ids turns) :=
    hstart.run hturns
  have hline : (lineDiary (fun _ hr => hr) hunits.chain plan ids (host .classSource).rest).Holds
      (Pool.start shared fun i => Worker.start (ids i)) := by
    intro j
    refine ⟨.nil, rfl, ?_, ?_, fun _ hr => absurd hr List.not_mem_nil⟩
    · rw [Pool.heard_start]
      show ([] ++ (plan.code.first.toList ++ shared.code.frontier.rest units)).Sublist _
      rw [hopened.units_eq hunits.chain]
      exact .refl _
    · rw [Pool.heard_start]
      show ([] ++ ([] ++ shared.classes.source.rest)).Sublist _
      rw [hopened.classes]
      exact .refl _
  have hline' := hline.run hstart hturns i
  have hbroken := unbroken_run (fun _ => Worker.plain plan) shared
    (fun i => Worker.start (ids i)) turns i
  refine ⟨hline'.inOrder ?_ hunits.nodup, hbroken.last, fun hreturned => ?_⟩
  · rw [hopened.first]
    exact hunits.chain.head?_eq
  -- What a call that has returned knows is that it has found nothing left.
  · have halong := hholds.call i
    rw [hreturned] at halong
    exact ⟨halong.1.2, fun hp => (halong.2 hp).2⟩

theorem calls_are_orderly_small :
    let ids : Fin 2 → UInt32 := ![0, 1]
    let turns := brokenTurns smallHost (fun q => q = .cleanLinks ⟨2⟩)
      (List.replicate 80 [0, 1]).flatten
    let p := work smallPlan smallShared ids turns
    (p.heard 1).map (fun r => r.1) =
        [.metadataEnabled, .nextAlive ⟨5⟩, .unload ⟨2⟩ ⟨1⟩ true, .nextAlive ⟨2⟩, .nextAlive ⟨9⟩,
          .unlink 1 false, .cleanTree, .kindOf ⟨1⟩, .kindOf ⟨2⟩, .cleanLinks ⟨2⟩] ∧
      p.AllOver ∧
      ∀ i, Orderly smallPlan smallUnits (smallHost .classSource) p i := by
  intro ids turns p
  refine ⟨?_, ?_, ?_⟩
  · decide +kernel
  · unfold Pool.AllOver
    decide +kernel
  · have hopening : ∀ t ∈ calmTurns smallHost (List.replicate 15 ()), t.Agrees smallHost :=
      fun t ht => (calmTurns_returns smallHost _ t ht).agrees
    refine calls_are_orderly smallRequest smallUnits_stable (UInt64.le_iff_toNat_le.2 (by decide))
      {} hopening ?_ ids
      (fun t ht q => following_of_agrees (brokenTurns_agrees smallHost _ _ t ht q))
    rfl

end Pass

end PauseCleanup
