import PauseCleanup.Proofs.SequenceOrder
import PauseCleanup.Proofs.Pass.Owed
/-!
# Workers of a pass over a host of which only the sequence is stable

What a worker finds done when it leaves the code cache and the classes does not depend on anything
but the sequence of units. Of the metadata no more is said than that its flag is never given back.
-/
namespace PauseCleanup

open Host (Query Answer)
open Unloading (Chain)

theorem OneShot.Try.move_later {Q : Type} {A : Q → Type} {may : Reply A → Prop} (f : OneShot)
    (t : Try) : (t.move f : Move A OneShot Try Bool).Ensures may (fun f' _ _ => f.Later f') f := by
  cases t with
  | exchange => exact fun _ => rfl
  | _ => exact fun h => h

theorem MetadataRelease.Worker.move_later {may : Reply Answer → Prop} (present unloading : Bool)
    (t : Tallied OneShot) (s : Worker) :
    (s.move present unloading t).Ensures may (fun t' _ _ => t.own.Later t'.own) t := by
  have hrefl : t.own.Later t.own := fun h => h
  cases s with
  | start =>
    simp only [move]
    split
    · exact fun _ _ => hrefl
    · exact hrefl
  | claim attempt =>
    exact (attempt.move_later t.own).lift rfl (fun _ _ _ h => h) (fun _ _ => hrefl)
      (fun _ _ _ => hrefl)
  | release => exact fun _ _ => hrefl
  | _ => exact hrefl

namespace Pass

variable {may : Reply Answer → Prop} {next : UnitId → Option UnitId} {here : Option UnitId}
  {units : List UnitId} {p : Plan} {id : UInt32}

namespace Worker

/-- Where a worker stands, apart from the metadata. -/
def Along (may : Reply Answer → Prop) (units : List UnitId) (p : Plan) (id : UInt32) (m : Shared) :
    Progress Worker Unit → Prop
  | .running (.start id') => id' = id
  | .running (.enter id') => id' = id
  | .running (.metadata id' _) => id' = id
  | .running (.code id' s) => id' = id ∧ Unloading.Worker.Knows may units p.code id m.code
      (.running s)
  | .running (.table id' _) => id' = id ∧ CodeDone p id m
  | .running (.classes id' s) =>
    id' = id ∧ p.unloading = true ∧ CodeDone p id m ∧
      ClassCleaning.Worker.Knows may m.classes (.running s)
  | .running .done => CodeDone p id m ∧ (p.unloading = true → ClassesDone m)
  | .returned _ => CodeDone p id m ∧ (p.unloading = true → ClassesDone m)
  | .panicked _ => True

theorem along_stable {m m' : Shared} {c : Progress Worker Unit} (h : Later m m')
    (hc : Along may units p id m c) : Along may units p id m' c := by
  cases c with
  | running s =>
    cases s with
    | code id' s => exact ⟨hc.1, Unloading.Worker.knows_stable h.code hc.2⟩
    | table id' s => exact ⟨hc.1, hc.2.later h⟩
    | classes id' s =>
      obtain ⟨hid, hp, hcode, hs⟩ := hc
      exact ⟨hid, hp, hcode.later h, ClassCleaning.Worker.knows_stable h.classes hs⟩
    | done => exact ⟨hc.1.later h, fun hp => (hc.2 hp).later h⟩
    | _ => exact hc
  | returned r => exact ⟨hc.1.later h, fun hp => (hc.2 hp).later h⟩
  | panicked cause => trivial

/-- The units that a worker has in its hand, or may still try for. -/
def unitsAhead (p : Plan) : Progress Worker Unit → List UnitId
  | .running (.start _) => p.code.first.toList
  | .running (.enter _) => p.code.first.toList
  | .running (.metadata ..) => p.code.first.toList
  | .running (.code _ s) => Unloading.Worker.ahead p.code (.running s)
  | _ => []

def classesAhead : Progress Worker Unit → List ClassId
  | .running (.classes _ s) => ClassCleaning.Worker.ahead (.running s)
  | _ => []

/-- What one move of a worker does, with what it asks for in its order. -/
structure Forth (may : Reply Answer → Prop) (units : List UnitId) (p : Plan) (id : UInt32)
    (m : Shared) (s : Worker) (m' : Shared) (c : Progress Worker Unit) (l : List (Reply Answer)) :
    Prop where
  valid : Valid units m'
  along : Along may units p id m' c
  later : Later m m'
  units : Advances (unitsAhead p (.running s)) (m.code.frontier.rest units) (unitsOf l)
    (unitsAhead p c) (m'.code.frontier.rest units)
  classes : Advances (classesAhead (.running s)) m.classes.source.rest (classesOf l)
    (classesAhead c) m'.classes.source.rest

theorem Forth.still {m m' : Shared} {s : Worker} {c : Progress Worker Unit}
    {l : List (Reply Answer)} {ph : Phase} (hm : Valid units m) (hcode : m'.code = m.code)
    (hclasses : m'.classes = m.classes) (hmetadata : m.metadata.Later m'.metadata)
    (hc : Along may units p id m' c) (hl : Within (some ph) l) (hph : ph ≠ .code ∧ ph ≠ .classes)
    (hunits : (unitsAhead p c).Sublist (unitsAhead p (.running s)))
    (hdrawn : (classesAhead c).Sublist (classesAhead (.running s))) :
    Forth may units p id m s m' c l := by
  refine ⟨⟨?_, ?_⟩, hc, ⟨?_, hmetadata, ?_⟩, ?_, ?_⟩
  · rw [hcode]
    exact hm.frontier
  · rw [hclasses]
    exact hm.source
  · rw [hcode]
    exact .refl _
  · rw [hclasses]
    exact .refl _
  · rw [unitsOf_of_within hl (by simpa using hph.1), hcode]
    exact .still hunits
  · rw [classesOf_of_within hl (by simpa using hph.2), hclasses]
    exact .still hdrawn

theorem move_forth (hmay : ∀ r, may r → following next r) (hchain : Chain next here units)
    {m : Shared} (hm : Valid units m) {s : Worker} (hs : Along may units p id m (.running s)) :
    (s.move p m).Ensures may (Forth may units p id m s) m := by
  have hrefl : m.metadata.Later m.metadata := fun h => h
  have hnone : Within (some .table) [] := within_nil _
  cases s with
  | start id' =>
    obtain rfl : id' = id := hs
    simp only [move]
    split
    · exact .still hm rfl rfl hrefl rfl hnone (by decide) (.refl _) (.refl _)
    · exact .still hm rfl rfl hrefl trivial hnone (by decide) (List.nil_sublist _) (.refl _)
  | enter id' =>
    obtain rfl : id' = id := hs
    exact .still hm rfl rfl hrefl rfl hnone (by decide) (.refl _) (.refl _)
  | metadata id' s =>
    obtain rfl : id' = id := hs
    refine ((s.move_later p.compiler p.unloading m.metadataPart).and
      (s.within _ _ _)).lift rfl ?_ ?_ ?_
    · exact fun t' s' l h => .still hm rfl rfl h.1 rfl h.2 (by decide) (.refl _) (.refl _)
    · exact fun ran _ => .still hm rfl rfl hrefl ⟨rfl, rfl⟩ hnone (by decide) (.refl _) (.refl _)
    · exact fun cause l h => .still hm rfl rfl hrefl trivial h.2 (by decide) (List.nil_sublist _)
        (.refl _)
  | code id' s =>
    obtain ⟨rfl, hs⟩ := hs
    have hmove := ((s.move_following (t := m.codePart) hmay hchain hm.frontier hs).and
      (s.move_advances hmay hchain hm.frontier hs)).and (s.within p.code m.codePart)
    -- No class is asked for while units are unloaded.
    have hclasses : ∀ {l : List (Reply Answer)} (c : Progress Worker Unit), Within (some .code) l →
        classesAhead c = [] → Advances (classesAhead (.running (.code id' s)))
          m.classes.source.rest (classesOf l) (classesAhead c) m.classes.source.rest := by
      intro l c hl hc
      rw [classesOf_of_within hl (by decide), hc]
      exact .still (.refl _)
    refine hmove.lift rfl ?_ ?_ ?_
    · intro t' s' l h
      obtain ⟨⟨⟨hv, hk, hl⟩, ha⟩, hw⟩ := h
      have hvalid : Valid units (m.putCode t') := ⟨hv, hm.source⟩
      have hlater : Later m (m.putCode t') := ⟨hl, hrefl, .refl _⟩
      exact ⟨hvalid, ⟨rfl, hk⟩, hlater, ha, hclasses _ hw rfl⟩
    · intro total h
      obtain ⟨⟨⟨hv, hk, hl⟩, ha⟩, hw⟩ := h
      exact ⟨hm, ⟨rfl, hk⟩, .refl m, ha, hclasses _ hw rfl⟩
    · intro cause l h
      obtain ⟨⟨⟨hv, hk, hl⟩, ha⟩, hw⟩ := h
      exact ⟨hm, trivial, .refl m, ha, hclasses _ hw rfl⟩
  | table id' s =>
    obtain ⟨rfl, hcode⟩ := hs
    refine (s.within p.sweep m.tally).lift rfl ?_ ?_ ?_
    · exact fun t' s' l h => .still hm rfl rfl hrefl ⟨rfl, hcode⟩ h (by decide) (.refl _) (.refl _)
    · intro r _
      split
      · next hp =>
        have halong : Along may units p id' m (.running (.classes id' .start)) :=
          ⟨rfl, hp, hcode, trivial⟩
        exact .still hm rfl rfl hrefl halong hnone (by decide) (.refl _) (.refl _)
      · next hp =>
        have halong : Along may units p id' m (.running .done) := ⟨hcode, fun h => absurd h hp⟩
        exact .still hm rfl rfl hrefl halong hnone (by decide) (.refl _) (.refl _)
    · exact fun cause l h => .still hm rfl rfl hrefl trivial h (by decide) (.refl _) (.refl _)
  | classes id' s =>
    obtain ⟨rfl, hp, hcode, hs⟩ := hs
    have hmove := ((s.move_following (t := m.classPart) hmay hm.source hs).and
      (s.move_advances hm.source hs)).and (s.within m.classPart)
    -- No unit is asked for while classes are cleaned.
    have hunits : ∀ {l : List (Reply Answer)} (c : Progress Worker Unit),
        Within (some .classes) l → unitsAhead p c = [] →
          Advances (unitsAhead p (.running (.classes id' s))) (m.code.frontier.rest units)
            (unitsOf l) (unitsAhead p c) (m.code.frontier.rest units) := by
      intro l c hl hc
      rw [unitsOf_of_within hl (by decide), hc]
      exact .still (.refl _)
    refine hmove.lift rfl ?_ ?_ ?_
    · intro t' s' l h
      obtain ⟨⟨⟨hv, hk, hl⟩, ha⟩, hw⟩ := h
      have hvalid : Valid units (m.putClasses t') := ⟨hm.frontier, hv⟩
      have hlater : Later m (m.putClasses t') := ⟨.refl _, hrefl, hl⟩
      exact ⟨hvalid, ⟨rfl, hp, hcode, hk⟩, hlater, hunits _ hw rfl, ha⟩
    · intro cleaned h
      obtain ⟨⟨⟨hv, hk, hl⟩, ha⟩, hw⟩ := h
      exact ⟨hm, ⟨hcode, fun _ => hk⟩, .refl m, hunits _ hw rfl, ha⟩
    · intro cause l h
      obtain ⟨⟨⟨hv, hk, hl⟩, ha⟩, hw⟩ := h
      exact ⟨hm, trivial, .refl m, hunits _ hw rfl, ha⟩
  | done => exact .still hm rfl rfl hrefl hs hnone (by decide) (.refl _) (.refl _)

end Worker

structure Shrinks (units : List UnitId) (m m' : Shared) : Prop where
  later : Later m m'
  units : (m'.code.frontier.rest units).Sublist (m.code.frontier.rest units)
  classes : m'.classes.source.rest.Sublist m.classes.source.rest

variable {ι : Type}

/-- What is known of the workers of a pass, if only the sequence is stable. -/
def followingOutline (hmay : ∀ r, may r → following next r) (hchain : Chain next here units)
    (plan : Plan) (ids : ι → UInt32) : Outline may (fun _ : ι => Worker.move plan) where
  mem := Valid units
  call i m c := Worker.Along may units plan (ids i) m c
  later := Shrinks units
  stable h hc := Worker.along_stable h.later hc
  step hm hs := (Worker.move_forth hmay hchain hm hs).mono fun _ _ _ h =>
    ⟨⟨h.valid, h.along⟩, ⟨h.later, h.units.rest, h.classes.rest⟩, fun _ _ => trivial⟩

theorem Opened.first {host : (q : Query) → Answer q} {r : Request} {plan : Plan} {shared : Shared}
    (h : Opened host units r plan shared) : plan.code.first = host .firstAlive := by
  rw [h.code.plan]

theorem Opened.units_eq {host : (q : Query) → Answer q} {r : Request} {plan : Plan}
    {shared : Shared} (h : Opened host units r plan shared)
    (hchain : Chain (fun u => host (.nextAlive u)) (host .firstAlive) units) :
    plan.code.first.toList ++ shared.code.frontier.rest units = units := by
  obtain ⟨f, hf, hshared⟩ := h.code.shared
  obtain ⟨-, hrest⟩ := Frontier.after_spec hchain hf
  rw [h.first, hshared, hrest]
  generalize host .firstAlive = first at hchain
  cases hchain with
  | nil => rfl
  | cons _ => rfl

end Pass

end PauseCleanup
