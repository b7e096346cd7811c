import PauseCleanup.Proofs.SequenceHost
import PauseCleanup.Proofs.Phases
/-!
# What a worker has ahead of it

The units in the hand of a worker and those of the frontier behind them stand in the order of the
sequence, and no move changes the order. The same goes for the classes of a source.
-/
namespace PauseCleanup

open Host (Query Answer)
open Unloading (Chain)

def Host.Query.unit? : Query → Option UnitId
  | .unload u _ _ => some u
  | _ => none

def Host.Query.class? : Query → Option ClassId
  | .kindOf c => some c
  | _ => none

/-- The units that the host was asked to unload, in order. -/
def unitsOf (l : List (Reply Answer)) : List UnitId := l.filterMap fun r => r.1.unit?

def classesOf (l : List (Reply Answer)) : List ClassId := l.filterMap fun r => r.1.class?

@[simp] theorem unitsOf_nil : unitsOf [] = [] := rfl

@[simp] theorem classesOf_nil : classesOf [] = [] := rfl

theorem unitsOf_append (l l' : List (Reply Answer)) :
    unitsOf (l ++ l') = unitsOf l ++ unitsOf l' :=
  List.filterMap_append

theorem classesOf_append (l l' : List (Reply Answer)) :
    classesOf (l ++ l') = classesOf l ++ classesOf l' :=
  List.filterMap_append

theorem unitsOf_of_within {l : List (Reply Answer)} {ph : Option Phase} (h : Within ph l)
    (hph : ph ≠ some .code) : unitsOf l = [] := by
  rw [unitsOf, List.filterMap_eq_nil_iff]
  intro r hr
  have hq := h r hr
  cases hu : r.1 with
  | unload u pass unloading =>
    rw [hu] at hq
    exact absurd hq.symm hph
  | _ => rfl

theorem classesOf_of_within {l : List (Reply Answer)} {ph : Option Phase} (h : Within ph l)
    (hph : ph ≠ some .classes) : classesOf l = [] := by
  rw [classesOf, List.filterMap_eq_nil_iff]
  intro r hr
  have hq := h r hr
  cases hc : r.1 with
  | kindOf c =>
    rw [hc] at hq
    exact absurd hq.symm hph
  | _ => rfl

theorem unitsOf_of_next {l : List (Reply Answer)} (h : ∀ r ∈ l, ∃ u, r.1 = .nextAlive u) :
    unitsOf l = [] := by
  rw [unitsOf, List.filterMap_eq_nil_iff]
  intro r hr
  obtain ⟨u, hu⟩ := h r hr
  rw [hu]
  rfl

/-- One move: of what a call had ahead of it, and of the rest behind that, something was asked for,
and what the call has ahead of it now and what is the rest now comes after it. -/
structure Advances {α : Type} (ahead rest asked ahead' rest' : List α) : Prop where
  line : (asked ++ (ahead' ++ rest')).Sublist (ahead ++ rest)
  rest : rest'.Sublist rest

namespace Advances

variable {α : Type} {ahead rest asked ahead' rest' : List α}

theorem still (h : (asked ++ ahead').Sublist ahead) : Advances ahead rest asked ahead' rest := by
  refine ⟨?_, .refl rest⟩
  rw [← List.append_assoc]
  exact h.append_right rest

theorem takes (h : ahead' ++ rest' = ahead ++ rest) (hrest : rest'.Sublist rest) :
    Advances ahead rest [] ahead' rest' :=
  ⟨by rw [h, List.nil_append], hrest⟩

/-- It makes no difference if something in the hand is lost. -/
theorem lose {less : List α} (h : Advances ahead rest asked ahead' rest')
    (hless : less.Sublist ahead') : Advances ahead rest asked less rest' :=
  ⟨((List.Sublist.refl asked).append (hless.append_right rest')).trans h.line, h.rest⟩

theorem append {past all : List α} (h : Advances ahead rest asked ahead' rest')
    (hall : (past ++ (ahead ++ rest)).Sublist all) :
    (past ++ asked ++ (ahead' ++ rest')).Sublist all := by
  rw [List.append_assoc]
  exact (h.line.append_left past).trans hall

end Advances

namespace Frontier.Claim

variable {units : List UnitId} {max : BatchSize} {f f' : Frontier}

theorem Yields.advances {c : Claim} {c' : Progress Claim Batch} (h : Yields f c f' c')
    (hc : c.Sound units max) :
    Advances (held (.running c)) (f.rest units) [] (held c') (f'.rest units) := by
  refine .takes (h.rest_eq hc) ?_
  cases h with
  | nothing _ _ => exact .refl _
  | batch =>
    rw [(Sound.exchange hc).1]
    exact List.sublist_append_right _ _

end Frontier.Claim

namespace Unloading.Worker

open Frontier (Claim)

variable {may : Reply Answer → Prop} {next : UnitId → Option UnitId} {here : Option UnitId}
  {units : List UnitId} {p : Plan} {id : UInt32}

/-- The units that a worker has in its hand and has not asked for, or is about to try for. -/
def ahead (p : Plan) : Progress Worker ℕ → List UnitId
  | .running (.start _) => p.first.toList
  | .running (.enter _) => p.first.toList
  | .running (.first u _) => [u]
  | .running (.claim _ c) => Claim.held (.running c)
  | .running (.batch _ us) => us
  | .running (.unload _ us _) => us
  | .running (.count _ us _) => us.tail
  | .running (.tally _ us _) => us.tail
  | _ => []

theorem claim_advances (hmay : ∀ r, may r → following next r) (hchain : Chain next here units)
    {t : Tallied Shared} (hf : t.own.frontier.Valid units) {total : ℕ} {c : Claim}
    (hc : Claim.Knows may units p.batch t.own.frontier (.running c)) :
    ((Worker.claim total c).move p t).Ensures may (fun t' c' l =>
      Advances (Claim.held (.running c)) (t.own.frontier.rest units) (unitsOf l) (ahead p c')
        (t'.own.frontier.rest units)) t := by
  refine .of_hosts hmay fun host hhost => ?_
  have hknows : ∀ {may' : Reply Answer → Prop},
      Claim.Knows may' units p.batch t.own.frontier (.running c) := by
    cases c <;> exact hc
  have hmove := (Claim.move_ensures (steady_and_agreeing may host) (hhost ▸ hchain) hf
    hknows).and (c.asks_next _ _)
  refine hmove.lift rfl ?_ ?_ ?_
  · intro f next l h
    rw [unitsOf_of_next h.2]
    exact h.1.yields.advances hc.sound
  · intro b h
    have hadvances := h.1.yields.advances hc.sound
    by_cases hb : b.units = []
    · simp only [hb, if_true]
      exact hadvances.lose (List.nil_sublist _)
    · simp only [hb, if_false]
      exact hadvances
  · intro cause l h
    rw [unitsOf_of_next h.2]
    exact h.1.yields.advances hc.sound

theorem move_advances (hmay : ∀ r, may r → following next r) (hchain : Chain next here units)
    {t : Tallied Shared} (hf : t.own.frontier.Valid units) {s : Worker}
    (hs : Knows may units p id t.own (.running s)) : (s.move p t).Ensures may (fun t' c l =>
      Advances (ahead p (.running s)) (t.own.frontier.rest units) (unitsOf l) (ahead p c)
        (t'.own.frontier.rest units)) t := by
  cases s with
  | start id' =>
    simp only [move]
    split
    · exact .still (.refl _)
    · exact .still (List.nil_sublist _)
  | enter id' =>
    refine .still ?_
    unfold afterEnter
    cases hp : p.first with
    | none => exact List.nil_sublist _
    | some u =>
      dsimp only
      split
      · simp [ahead, hp]
      · exact List.nil_sublist _
  | first u attempt =>
    refine (attempt.within t.own.first none).lift rfl ?_ ?_ ?_
    · intro _ _ l hl
      rw [unitsOf_of_within hl (by decide)]
      exact .still (.refl _)
    · intro won _
      cases won with
      | true => exact .still (.refl _)
      | false => exact .still (List.nil_sublist _)
    · intro cause l hl
      rw [unitsOf_of_within hl (by decide)]
      exact .still (List.nil_sublist _)
  | buffer total =>
    simp only [move]
    split <;> exact .still (.refl _)
  | claim total c => exact claim_advances hmay hchain hf hs.2
  | unload total us opened =>
    cases us with
    | nil =>
      simp only [move]
      cases opened <;> exact .still (.refl _)
    | cons u us =>
      intro a _
      cases a with
      | error cause => exact .still (List.sublist_append_left [u] us)
      | ok a => exact .still (.refl _)
  | _ => exact .still (.refl _)

end Unloading.Worker

theorem Dispenser.Later.rest_sublist {d d' : Dispenser} (h : Later d d') :
    d'.rest.Sublist d.rest := by
  refine List.Sublist.map _ ?_
  have hle := UInt64.le_iff_toNat_le.1 h.next
  rw [h.size]
  by_cases hd : d'.next.toNat ≤ d.size.toNat
  · -- The numbers from the later place on are the last ones of those from the earlier place on.
    have hsplit : List.range' d.next.toNat (d.size.toNat - d.next.toNat) =
        List.range' d.next.toNat (d'.next.toNat - d.next.toNat) ++
          List.range' d'.next.toNat (d.size.toNat - d'.next.toNat) := by
      rw [show d.size.toNat - d.next.toNat =
        (d'.next.toNat - d.next.toNat) + (d.size.toNat - d'.next.toNat) by omega,
        ← List.range'_append_1, Nat.add_sub_cancel' hle]
    rw [hsplit]
    exact List.sublist_append_right _ _
  · rw [Nat.sub_eq_zero_of_le (by omega)]
    exact List.nil_sublist _

namespace ClassSource.Draw

variable {may : Reply Answer → Prop}

theorem rest_sublist {s : ClassSource} (hs : s.Valid) {d : Draw} (hd : Knows s (.running d)) :
    (d.move s).Ensures may (fun s' _ _ => s'.rest.Sublist s.rest) s := by
  cases d with
  | done cls => exact .refl _
  | start =>
    cases s with
    | dense d => exact .refl _
    | listed cs =>
      cases cs with
      | nil => exact .refl _
      | cons c cs => exact List.sublist_cons_self c cs
  | take t =>
    obtain ⟨d, rfl, ht⟩ := hd
    refine (Dispenser.Take.move_ensures (A := Answer) hs false ht).lift rfl ?_ ?_ ?_
    · exact fun _ _ _ h => h.later.rest_sublist.map _
    · exact fun _ _ => .refl _
    · exact fun _ _ _ => .refl _

theorem move_advances {s : ClassSource} (hs : s.Valid) {d : Draw} (hd : Knows s (.running d)) :
    (d.move s).Ensures may
      (fun s' c l => l = [] ∧ Advances (held (.running d)) s.rest [] (held c) s'.rest) s := by
  refine ((move_ensures hs hd).and (rest_sublist hs hd)).mono fun s' c l h => ?_
  obtain ⟨⟨-, -, -, hl, hheld⟩, hrest⟩ := h
  exact ⟨hl, .takes hheld hrest⟩

end ClassSource.Draw

namespace ClassCleaning

variable {may : Reply Answer → Prop}

def Pick.ahead : Progress Pick (Option ClassId) → List ClassId
  | .running (.draw _ d) => ClassSource.Draw.held (.running d)
  | .running (.kind _ c) => [c]
  | _ => []

theorem Pick.move_advances {t : Tallied Shared} (hm : t.own.source.Valid) {s : Pick}
    (hs : Knows may t.own (.running s)) : (s.move t).Ensures may (fun t' c l =>
      Advances (ahead (.running s)) t.own.source.rest (classesOf l) (ahead c)
        t'.own.source.rest) t := by
  cases s with
  | draw skipped d =>
    refine (ClassSource.Draw.move_advances hm hs).lift rfl ?_ ?_ ?_
    · intro src d' l h
      obtain ⟨rfl, h⟩ := h
      exact h
    · intro cls h
      cases cls with
      | none => exact h.2
      | some c => exact h.2
    · intro cause l h
      obtain ⟨rfl, h⟩ := h
      exact h
  | kind skipped c =>
    intro k _
    cases k with
    | error cause => exact .still (.refl _)
    | ok k => cases hi : ClassLayout.isInstance k <;> simp only [Pool.resumed, hi] <;>
        exact .still (.refl _)
  | settle skipped cls => exact .still (.refl _)
  | done cls => exact .still (.refl _)

namespace Worker

def ahead : Progress Worker ℕ → List ClassId
  | .running (.pick _ p) => Pick.ahead (.running p)
  | _ => []

theorem move_advances {t : Tallied Shared} (hm : t.own.source.Valid) {s : Worker}
    (hs : Knows may t.own (.running s)) : (s.move t).Ensures may (fun t' c l =>
      Advances (ahead (.running s)) t.own.source.rest (classesOf l) (ahead c)
        t'.own.source.rest) t := by
  cases s with
  | tree attempt =>
    refine (attempt.within t.own.tree none).lift rfl ?_ ?_ ?_
    · intro _ _ l hl
      rw [classesOf_of_within hl (by decide)]
      exact .still (.refl _)
    · intro won _
      cases won <;> exact .still (.refl _)
    · intro cause l hl
      rw [classesOf_of_within hl (by decide)]
      exact .still (.refl _)
  | pick cleaned p =>
    refine (Pick.move_advances hm hs.2).lift rfl ?_ ?_ ?_
    · exact fun _ _ _ h => h
    · intro cls h
      cases cls <;> exact h.lose (List.nil_sublist _)
    · exact fun _ _ h => h.lose (List.nil_sublist _)
  | rebuild => rintro (cause | a) _ <;> exact .still (.refl _)
  | clean cleaned c => rintro (cause | a) _ <;> exact .still (.refl _)
  | _ => exact .still (.refl _)

end Worker

end ClassCleaning

end PauseCleanup
