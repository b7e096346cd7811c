import PauseCleanup.Proofs.Frontier.Claim
import PauseCleanup.Pass.Worker
/-!
# Which questions belong to which phase

Every question that a worker puts belongs to the phase that it is in, whatever the host answers. The
questions of no phase are those that open and close a pass.
-/
namespace PauseCleanup

open Host (Query Answer)

/-- The phase of a pass in which a question is put. -/
def Host.Query.phase : Query → Option Phase
  | .metadataEnabled | .releaseMetadata _ => some .metadata
  | .nextAlive _ | .unload .. => some .code
  | .unlink .. => some .table
  | .cleanTree | .kindOf _ | .cleanLinks _ => some .classes
  | _ => none

/-- All questions put belong to the phase. -/
def Within (ph : Option Phase) (l : List (Reply Answer)) : Prop := ∀ r ∈ l, r.1.phase = ph

theorem within_nil (ph : Option Phase) : Within ph [] := by simp [Within]

theorem within_singleton {ph : Option Phase} {r : Reply Answer} (h : r.1.phase = ph) :
    Within ph [r] := by
  simpa [Within] using h

section

variable {Sub SubState SubResult Mem State Result : Type} {may : Reply Answer → Prop}
  {ph : Option Phase}

theorem Move.Ensures.lift_within {inner : HostMove Sub SubState SubResult} {sub : Sub}
    (h : inner.Ensures may (fun _ _ l => Within ph l) sub) {mem : Mem} {put : Sub → Mem}
    (hput : put sub = mem) {wrap : SubState → State}
    {finished : SubResult → HostMove Mem State Result} {rescue : Option (Panic → State)}
    (hfinished : ∀ r, (finished r).Ensures may (fun _ _ l => Within ph l) mem) :
    (inner.lift mem put wrap finished rescue).Ensures may (fun _ _ l => Within ph l) mem :=
  h.lift hput (fun _ _ _ hl => hl) (fun r _ => hfinished r) (fun _ _ hl => hl)

end

variable {may : Reply Answer → Prop}

theorem OneShot.Try.within (f : OneShot) (t : Try) (ph : Option Phase) :
    (t.move f : HostMove OneShot Try Bool).Ensures may (fun _ _ l => Within ph l) f := by
  cases t <;> exact within_nil ph


theorem Frontier.Claim.within (max : BatchSize) (f : Frontier) (c : Claim) :
    (c.move max f).Ensures may (fun _ _ l => Within (some .code) l) f := by
  refine (c.asks_next max f).mono fun _ _ l hl r hr => ?_
  obtain ⟨u, hu⟩ := hl r hr
  rw [hu]
  rfl

theorem Unloading.Worker.within (p : Plan) (t : Tallied Shared) (s : Worker) :
    (s.move p t).Ensures may (fun _ _ l => Within (some .code) l) t := by
  cases s with
  | start id =>
    simp only [move]
    split <;> exact within_nil _
  | first u attempt => exact (attempt.within _ _).lift_within rfl fun won => within_nil _
  | buffer total =>
    simp only [move]
    split <;> exact within_nil _
  | claim total c => exact (c.within _ _).lift_within rfl fun b => within_nil _
  | unload total us opened =>
    cases us with
    | nil => exact within_nil _
    | cons u us => exact fun a _ => within_singleton rfl
  | _ => exact within_nil _

theorem ClassSource.Draw.silent (s : ClassSource) (d : Draw) :
    (d.move s).Ensures may (fun _ _ l => l = []) s := by
  cases d with
  | start =>
    cases s with
    | dense d => rfl
    | listed cs => cases cs <;> rfl
  | done cls => rfl
  | take t =>
    cases s with
    | listed cs => rfl
    | dense d =>
      cases t with
      | load => rfl
      | done number => rfl
      | exchange seen =>
        simp only [move, Dispenser.Take.move]
        split
        · rfl
        · split
          · rfl
          · split <;> rfl

theorem ClassSource.Draw.within (s : ClassSource) (d : Draw) :
    (d.move s).Ensures may (fun _ _ l => Within (some .classes) l) s := by
  refine (d.silent s).mono fun _ _ l hl => ?_
  rw [hl]
  exact within_nil _

theorem ClassCleaning.Pick.within (t : Tallied Shared) (s : Pick) :
    (s.move t).Ensures may (fun _ _ l => Within (some .classes) l) t := by
  cases s with
  | draw skipped d =>
    exact (d.within _).lift_within rfl fun cls => by cases cls <;> exact within_nil _
  | kind skipped c => exact fun a _ => within_singleton rfl
  | settle skipped cls => exact within_nil _
  | done cls => exact within_nil _

theorem ClassCleaning.Worker.within (t : Tallied Shared) (s : Worker) :
    (s.move t).Ensures may (fun _ _ l => Within (some .classes) l) t := by
  cases s with
  | tree attempt => exact (attempt.within _ _).lift_within rfl fun won => within_nil _
  | rebuild => exact fun a _ => within_singleton rfl
  | pick cleaned p =>
    exact (p.within t).lift_within rfl fun cls => by cases cls <;> exact within_nil _
  | clean cleaned c => exact fun a _ => within_singleton rfl
  | _ => exact within_nil _

theorem MetadataRelease.Worker.within (present unloading : Bool) (t : Tallied OneShot)
    (s : Worker) :
    (s.move present unloading t).Ensures may (fun _ _ l => Within (some .metadata) l) t := by
  cases s with
  | start =>
    simp only [move]
    split
    · exact fun a _ => within_singleton rfl
    · exact within_nil _
  | claim attempt => exact (attempt.within _ _).lift_within rfl fun won => within_nil _
  | release => exact fun a _ => within_singleton rfl
  | released => exact within_nil _
  | done ran => exact within_nil _

theorem TableSweep.Worker.within (s : TableSweep) (t : Tally) (w : Worker) :
    (w.move s t).Ensures may (fun _ _ l => Within (some .table) l) t := by
  cases w with
  | start id =>
    simp only [move]
    split
    · exact fun a _ => within_singleton rfl
    · exact within_nil _
  | unlinked => exact within_nil _
  | done => exact within_nil _

namespace Pass.Worker

def phase : Worker → Option Phase
  | .metadata .. => some .metadata
  | .code .. => some .code
  | .table .. => some .table
  | .classes .. => some .classes
  | _ => none

theorem within (p : Plan) (m : Shared) (s : Worker) :
    (s.move p m).Ensures may (fun _ _ l => Within s.phase l) m := by
  cases s with
  | start id =>
    simp only [move]
    split <;> exact within_nil _
  | enter id => exact within_nil _
  | metadata id s => exact (s.within _ _ _).lift_within rfl fun ran => within_nil _
  | code id s => exact (s.within _ _).lift_within rfl fun units => within_nil _
  | table id s =>
    refine (s.within _ _).lift_within rfl fun _ => ?_
    split <;> exact within_nil _
  | classes id s => exact (s.within _).lift_within rfl fun cleaned => within_nil _
  | done => exact within_nil _

/-- The worker is at the beginning of a phase, or behind the last one. -/
def Begins : Worker → Prop
  | .metadata _ .start | .code _ (.start _) | .table _ (.start _) | .classes _ .start
  | .done => True
  | _ => False

/-- A machine of one phase goes on in it until the next phase begins. -/
theorem lift_onward {Sub SubState SubResult : Type} {inner : HostMove Sub SubState SubResult}
    {sub : Sub} {m : Shared} {put : Sub → Shared} (hput : put sub = m) {wrap : SubState → Worker}
    {finished : SubResult → HostMove Shared Worker Unit} {ph : Option Phase}
    (hwrap : ∀ s, (wrap s).phase = ph) (hfinished : ∀ r, (finished r).Ensures may
      (fun _ c _ => ∀ s', c = .running s' → s'.Begins) m) :
    (inner.lift m put wrap finished none).Ensures may
      (fun _ c _ => ∀ s', c = .running s' → s'.phase = ph ∨ s'.Begins) m := by
  refine (Move.Ensures.of_may inner).lift hput ?_ ?_ ?_
  · rintro _ s' _ _ _ ⟨⟩
    exact .inl (hwrap s')
  · exact fun r _ => (hfinished r).mono fun _ _ _ h s' hs' => .inr (h s' hs')
  · rintro cause _ _ _ ⟨⟩

theorem move_onward (p : Plan) (m : Shared) (s : Worker) : (s.move p m).Ensures may
    (fun _ c _ => ∀ s', c = .running s' → s'.phase = s.phase ∨ s'.Begins) m := by
  cases s with
  | start id =>
    simp only [move]
    split <;> rintro _ ⟨⟩
    exact .inl rfl
  | enter id =>
    rintro _ ⟨⟩
    exact .inr trivial
  | metadata id s =>
    refine lift_onward m.putMetadata_metadataPart (fun _ => rfl) fun ran => ?_
    rintro _ ⟨⟩
    trivial
  | code id s =>
    refine lift_onward m.putCode_codePart (fun _ => rfl) fun units => ?_
    rintro _ ⟨⟩
    trivial
  | table id s =>
    refine lift_onward rfl (fun _ => rfl) fun _ => ?_
    split <;> rintro _ ⟨⟩ <;> trivial
  | classes id s =>
    refine lift_onward m.putClasses_classPart (fun _ => rfl) fun cleaned => ?_
    rintro _ ⟨⟩
    trivial
  | done => rintro _ ⟨⟩

end Pass.Worker

end PauseCleanup
