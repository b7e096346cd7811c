import PauseCleanup.Proofs.Process.Sound
/-!
# The ids of the passes of a process

A pass takes its id from the ledger in one move and keeps it. As long as there are fewer passes than
words, the ledger counts the ids that it has handed out, so an id that is taken later is greater.
-/
namespace PauseCleanup.Pass

open Host (Query Answer)

variable {host : (q : Query) → Answer q} {units : List UnitId}

namespace Opening

def pass? : Progress Opening (Plan × Shared) → Option PassId
  | .running (.sweep pass _) => some pass
  | .running (.code pass _ _) => some pass
  | .running (.classes pass _ _ _) => some pass
  | .running (.built plan _) => some plan.pass
  | .running (.done plan _) => some plan.pass
  | .returned (plan, _) => some plan.pass
  | _ => none

theorem move_pass (may : Reply Answer → Prop) (r : Request) (l : Ledger) (s : Opening) :
    (s.move r l).Ensures may (fun l' c _ => Smooth c →
      (l'.nextPass = l.nextPass ∧ pass? c = pass? (.running s)) ∨
        (pass? (.running s) = none ∧ l'.nextPass = l.nextPass + 1 ∧
          pass? c = some ⟨l.nextPass⟩)) l := by
  cases s with
  | start => exact fun _ => .inr ⟨rfl, rfl, rfl⟩
  | sweep pass s =>
    refine (Move.Ensures.any _ ()).lift rfl ?_ ?_ ?_
    · exact fun _ _ _ _ _ => .inl ⟨rfl, rfl⟩
    · exact fun _ _ _ => .inl ⟨rfl, rfl⟩
    · exact fun _ _ _ hsmooth => hsmooth.elim
  | code pass opened s =>
    refine (Move.Ensures.any _ ()).lift rfl ?_ ?_ ?_
    · exact fun _ _ _ _ _ => .inl ⟨rfl, rfl⟩
    · exact fun _ _ _ => .inl ⟨rfl, rfl⟩
    · exact fun _ _ _ hsmooth => hsmooth.elim
  | classes pass opened plan shared =>
    intro a _ hsmooth
    cases a with
    | error cause => exact hsmooth.elim
    | ok source => exact .inl ⟨rfl, rfl⟩
  | built plan shared => exact fun _ => .inl ⟨rfl, rfl⟩
  | abandon opened s cause =>
    refine (Move.Ensures.any _ ()).lift rfl ?_ ?_ ?_
    · exact fun _ _ _ _ hsmooth => hsmooth.elim
    · exact fun _ _ hsmooth => hsmooth.elim
    · exact fun _ _ _ hsmooth => hsmooth.elim
  | done plan shared => exact fun _ => .inl ⟨rfl, rfl⟩

end Opening

theorem Closing.move_next (may : Reply Answer → Prop) (p : Plan) (t : Thread) (o : Occasion)
    (e : Estate) (s : Closing) : (s.move p t o e).Ensures may
      (fun e' _ _ => e'.ledger.nextPass = e.ledger.nextPass) e := by
  cases s with
  | start => exact rfl
  | record numbers s => cases s <;> exact rfl
  | check s =>
    exact (Move.Ensures.any _ _).lift rfl (fun _ _ _ _ => rfl) (fun _ _ => rfl) (fun _ _ _ => rfl)
  | sweep s raised =>
    exact (Move.Ensures.any _ ()).lift rfl (fun _ _ _ _ => rfl) (fun _ _ => rfl) (fun _ _ _ => rfl)
  | leave raised => exact rfl
  | done raised => cases raised <;> exact rfl

namespace Stage

variable {ι : Type}

/-- The id of a pass, once it has one. -/
def pass? : Stage ι → Option PassId
  | .opening call => Opening.pass? (call.calls ())
  | .working plan _ => some plan.pass
  | .closing plan _ _ => some plan.pass

theorem pass?_opened (c : Commission ι)
    (call : Pool Unit Answer Ledger Opening (Plan × Shared)) :
    (opened c call).pass? = Opening.pass? (call.calls ()) := by
  unfold opened
  split
  · next plan shared hcall =>
    rw [hcall]
    rfl
  · rfl

variable [DecidableEq ι] [Fintype ι] {c : Commission ι} {l : Ledger}
  {answer : (q : Query) → Except Panic (Answer q)}

theorem pass?_turn (hhost : Dependable host units)
    (hcalm : ∀ q, answer q = .ok (host q)) (a : Actor ι) {s : Stage ι} (h : s.Sound host units c) :
    ((s.turn c l a answer).ledger.nextPass = l.nextPass ∧
      (s.turn c l a answer).stage.pass? = s.pass?) ∨
    (s.pass? = none ∧ (s.turn c l a answer).ledger.nextPass = l.nextPass + 1 ∧
      (s.turn c l a answer).stage.pass? = some ⟨l.nextPass⟩) := by
  cases s with
  | opening call =>
    cases a with
    | opener =>
      show (_ ∧ (opened c _).pass? = _) ∨ (_ ∧ _ ∧ (opened c _).pass? = _)
      rw [pass?_opened]
      refine (opener_keeps hcalm h (P := fun l' c' =>
        (l'.nextPass = l.nextPass ∧ Opening.pass? c' = Opening.pass? (call.calls ())) ∨
          (Opening.pass? (call.calls ()) = none ∧ l'.nextPass = l.nextPass + 1 ∧
            Opening.pass? c' = some ⟨l.nextPass⟩)) (fun _ => .inl ⟨rfl, rfl⟩)
        fun s hcall hknows hsmooth => ?_).1
      rw [hcall]
      exact ((Opening.move_smooth hhost hknows hsmooth).and (s.move_pass _ c.request l)).mono
        fun _ _ _ h => h.2 h.1
    | _ => exact .inl ⟨rfl, rfl⟩
  | working plan crew =>
    cases a with
    | closer =>
      simp only [turn]
      split <;> exact .inl ⟨rfl, rfl⟩
    | _ => exact .inl ⟨rfl, rfl⟩
  | closing plan crew call =>
    cases a with
    | closer =>
      exact .inl ⟨(closer_keeps hcalm h (P := fun e _ => e.ledger.nextPass = l.nextPass)
        (fun _ => rfl) fun s _ _ _ => s.move_next _ plan c.thread .calm _).1, rfl⟩
    | _ => exact .inl ⟨rfl, rfl⟩

end Stage

namespace Process

variable {κ : Type} {ι : κ → Type} [Fintype κ]

/-- How many passes have got an id. -/
def issued (p : Process κ ι) : ℕ := (Finset.univ.filter fun k => (p.stages k).pass?.isSome).card

/-- The ledger has handed out the ids from `first` on. -/
structure Numbered (first : ℕ) (p : Process κ ι) : Prop where
  next : p.ledger.nextPass = .ofNat (first + p.issued)
  below : ∀ k a, (p.stages k).pass? = some a → a.number.toNat < first + p.issued

omit [Fintype κ] in
theorem pass?_start (l : Ledger) (k : κ) : ((start l : Process κ ι).stages k).pass? = none := rfl

theorem numbered_start (l : Ledger) : (start l : Process κ ι).Numbered l.nextPass.toNat := by
  have hnone : (start l : Process κ ι).issued = 0 := by
    rw [issued, Finset.card_eq_zero, Finset.filter_eq_empty_iff]
    exact fun k _ => by simp [pass?_start]
  refine ⟨?_, fun k a h => ?_⟩
  · rw [hnone, add_zero, UInt64.ofNat_toNat]
    rfl
  · rw [pass?_start] at h
    cases h

theorem issued_lt {p : Process κ ι} {k : κ} (h : (p.stages k).pass? = none) :
    p.issued < Fintype.card κ :=
  Finset.card_lt_univ_of_notMem (x := k) (by simp [h])

variable [DecidableEq κ] [∀ k, DecidableEq (ι k)] [∀ k, Fintype (ι k)]
  {c : (k : κ) → Commission (ι k)} {p : Process κ ι} {t : Turn ((k : κ) × Actor (ι k)) Answer}
  {turns : List (Turn ((k : κ) × Actor (ι k)) Answer)} {first : ℕ}

omit [Fintype κ] in
/-- In one turn nothing changes about the ids, or one pass takes the next one. -/
theorem Sound.pass?_turn (h : p.Sound host units c) (hhost : Dependable host units)
    (ht : t.Returns host) :
    ((p.turn c t).ledger.nextPass = p.ledger.nextPass ∧
      ∀ k, ((p.turn c t).stages k).pass? = (p.stages k).pass?) ∨
    ∃ k, (p.stages k).pass? = none ∧ (p.turn c t).ledger.nextPass = p.ledger.nextPass + 1 ∧
      ((p.turn c t).stages k).pass? = some ⟨p.ledger.nextPass⟩ ∧
        ∀ j, j ≠ k → (p.turn c t).stages j = p.stages j := by
  have hstage := Stage.pass?_turn (l := p.ledger) hhost ht t.caller.2 (h.stages t.caller.1)
  have hledger : (p.turn c t).ledger = (p.outcome c t).ledger := by rw [turn_eq c t h.aborted]
  have hself := stages_turn_self c t h.aborted
  rcases hstage with ⟨hnext, hsame⟩ | ⟨hnone, hnext, hpass⟩
  · refine .inl ⟨hledger ▸ hnext, fun k => ?_⟩
    by_cases hk : k = t.caller.1
    · subst hk
      rw [hself]
      exact hsame
    · rw [stages_turn_of_ne c t hk]
  · refine .inr ⟨t.caller.1, hnone, hledger ▸ hnext, ?_, fun j hj => stages_turn_of_ne c t hj⟩
    rw [hself]
    exact hpass

theorem Numbered.turn (h : p.Numbered first) (hsound : p.Sound host units c)
    (hhost : Dependable host units) (ht : t.Returns host)
    (hfew : first + Fintype.card κ ≤ 18446744073709551616) :
    (p.turn c t).Numbered first ∧ p.issued ≤ (p.turn c t).issued ∧
      ∀ k, ((p.turn c t).stages k).pass? = (p.stages k).pass? ∨
        (p.stages k).pass? = none ∧
          ∃ b, ((p.turn c t).stages k).pass? = some b ∧ b.number.toNat = first + p.issued := by
  rcases hsound.pass?_turn hhost ht with ⟨hnext, hsame⟩ | ⟨k, hnone, hnext, hpass, hothers⟩
  · have hissued : (p.turn c t).issued = p.issued := by simp only [issued, hsame]
    refine ⟨⟨by rw [hnext, hissued, h.next], fun k a ha => ?_⟩, hissued.ge, fun k => .inl (hsame k)⟩
    rw [hsame] at ha
    rw [hissued]
    exact h.below k a ha
  -- One pass takes the next id, so one more of them is issued.
  · have hlt := issued_lt hnone
    have hnumber : p.ledger.nextPass.toNat = first + p.issued := by
      rw [h.next, UInt64.toNat_ofNat_of_lt']
      exact lt_of_lt_of_le (Nat.add_lt_add_left hlt first) hfew
    have hissued : (p.turn c t).issued = p.issued + 1 := by
      have hset : (Finset.univ.filter fun j => ((p.turn c t).stages j).pass?.isSome) =
          insert k (Finset.univ.filter fun j => (p.stages j).pass?.isSome) := by
        ext j
        by_cases hj : j = k
        · simp [hj, hpass]
        · simp [hj, hothers j hj]
      rw [issued, hset, Finset.card_insert_of_notMem (by simp [hnone])]
      rfl
    refine ⟨⟨?_, fun j a ha => ?_⟩, by omega, fun j => ?_⟩
    · rw [hnext, h.next, hissued, ← add_assoc, UInt64.ofNat_add _ 1]
      rfl
    · by_cases hj : j = k
      · subst hj
        obtain rfl : (⟨p.ledger.nextPass⟩ : PassId) = a := Option.some.inj (hpass.symm.trans ha)
        show p.ledger.nextPass.toNat < _
        omega
      · rw [hothers j hj] at ha
        have := h.below j a ha
        omega
    · by_cases hj : j = k
      · subst hj
        exact .inr ⟨hnone, _, hpass, hnumber⟩
      · exact .inl (by rw [hothers j hj])

theorem Numbered.run (h : p.Numbered first) (hsound : p.Sound host units c)
    (hhost : Dependable host units) (hc : ∀ k, (c k).Good)
    (hturns : ∀ t ∈ turns, t.Returns host)
    (hfew : first + Fintype.card κ ≤ 18446744073709551616) : (p.run c turns).Numbered first :=
  hsound.run_keeps hhost hc hturns h fun _ hqsound hq t ht =>
    (hq.turn hqsound hhost (hturns t ht) hfew).1

theorem Numbered.later (h : p.Numbered first) (hsound : p.Sound host units c)
    (hhost : Dependable host units) (hc : ∀ k, (c k).Good)
    (hturns : ∀ t ∈ turns, t.Returns host)
    (hfew : first + Fintype.card κ ≤ 18446744073709551616) (k : κ) :
    ((p.run c turns).stages k).pass? = (p.stages k).pass? ∨
      (p.stages k).pass? = none ∧ ∃ b, ((p.run c turns).stages k).pass? = some b ∧
        first + p.issued ≤ b.number.toNat := by
  induction turns generalizing p with
  | nil => exact .inl rfl
  | cons t turns ih =>
    have ht : t.Returns host := hturns t (by simp)
    obtain ⟨hnumbered, hle, hturn⟩ := h.turn hsound hhost ht hfew
    have hrest := ih hnumbered (hsound.turn hhost hc ht) fun u hu => hturns u (by simp [hu])
    rw [run_cons]
    rcases hturn k with hsame | ⟨hnone, b, hb, hnumber⟩
    · rw [hsame] at hrest
      refine hrest.imp_right fun hlater => ⟨hlater.1, ?_⟩
      obtain ⟨b, hb, hge⟩ := hlater.2
      exact ⟨b, hb, by omega⟩
    · right
      refine ⟨hnone, b, ?_, hnumber.ge⟩
      rcases hrest with hkept | ⟨hnever, -⟩
      · rw [hkept, hb]
      · rw [hb] at hnever
        cases hnever

end Process

end PauseCleanup.Pass
