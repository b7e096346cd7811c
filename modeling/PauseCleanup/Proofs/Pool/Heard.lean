import PauseCleanup.Proofs.Pool.Outline
/-!
# What one call has heard

Each call of a pool has heard its own replies, in their order, and a `Diary` keeps what is known of
them. Where no machine takes a rescue, a panic is the last thing that a call hears.
-/
namespace PauseCleanup

variable {ι Q : Type} {A : Q → Type} {Mem State Result : Type}

namespace Move

theorem Ensures.length_le_one {may : Reply A → Prop} {mem : Mem} (mv : Move A Mem State Result) :
    mv.Ensures may (fun _ _ l => l.length ≤ 1) mem := by
  cases mv with
  | ask q resume rescue => exact fun _ _ => Nat.le_refl 1
  | abort reason => trivial
  | _ => exact Nat.zero_le 1

end Move

theorem reverse_of_length_le_one {α : Type} {l : List α} (h : l.length ≤ 1) : l.reverse = l := by
  rcases l with _ | ⟨a, _ | ⟨b, l⟩⟩
  · rfl
  · rfl
  · simp at h

namespace Pool

variable [DecidableEq ι]

/-- The replies that a call has heard so far, earliest first. -/
def heard (p : Pool ι A Mem State Result) (i : ι) : List (Reply A) :=
  (p.asked.filter fun e => e.caller = i).reverse.map Asked.toReply

@[simp] theorem heard_start (mem : Mem) (first : ι → State) (i : ι) :
    (start mem first : Pool ι A Mem State Result).heard i = [] := rfl

theorem heard_after (p : Pool ι A Mem State Result) (i j : ι) (m : Mem) (c : Progress State Result)
    (l : List (Reply A)) :
    (p.after i m c l).heard j = p.heard j ++ if j = i then l.reverse else [] := by
  simp only [heard, after, List.filter_append, List.filter_map, List.reverse_append,
    List.map_append]
  congr 1
  by_cases hj : j = i
  · simp [hj, Asked.toReply, List.map_reverse, Function.comp_def]
  · simp [hj, Ne.symm hj, Function.comp_def]

theorem exists_mem_heard {p : Pool ι A Mem State Result} {r : Reply A} (h : r ∈ p.log) :
    ∃ i, r ∈ p.heard i := by
  obtain ⟨e, he, rfl⟩ := List.mem_map.1 h
  exact ⟨e.caller, List.mem_map_of_mem (by simpa using he)⟩

end Pool

/-- What is known of a call by what it has heard, in addition to what an outline tells. -/
structure Diary {may : Reply A → Prop} {move : ι → Mem → State → Move A Mem State Result}
    (o : Outline may move) where
  call : ι → Mem → Progress State Result → List (Reply A) → Prop
  stable {i : ι} {m m' : Mem} {c : Progress State Result} {h : List (Reply A)} :
    o.later m m' → call i m c h → call i m' c h
  step {i : ι} {m : Mem} {s : State} {h : List (Reply A)} :
    o.mem m → o.call i m (.running s) → call i m (.running s) h →
      (move i m s).Ensures may (fun m' c l => call i m' c (h ++ l)) m

namespace Diary

variable [DecidableEq ι] {may : Reply A → Prop}
  {move : ι → Mem → State → Move A Mem State Result} {o : Outline may move} {d : Diary o}
  {p : Pool ι A Mem State Result}

variable (d p) in
def Holds : Prop := ∀ i, d.call i p.mem (p.calls i) (p.heard i)

theorem Holds.after (h : d.Holds p) {i : ι} {m : Mem} {c : Progress State Result}
    {l : List (Reply A)} (hc : d.call i m c (p.heard i ++ l)) (hlen : l.length ≤ 1)
    (hl : o.later p.mem m) : d.Holds (p.after i m c l) := by
  intro j
  rw [Pool.heard_after, reverse_of_length_le_one hlen]
  by_cases hj : j = i
  · subst hj
    simpa [Pool.after] using hc
  · simpa [Pool.after, hj] using d.stable hl (h j)

theorem Holds.turn (h : d.Holds p) (ho : o.Holds p) {t : Turn ι A} (ht : t.Within may) :
    d.Holds (p.turn move t) := by
  have hs : ∀ s, p.calls t.caller = .running s → (move t.caller p.mem s).Ensures may
      (fun m' c l => (((o.mem m' ∧ o.call t.caller m' c) ∧ o.later p.mem m' ∧
        ∀ r ∈ l, o.asks r) ∧ d.call t.caller m' c (p.heard t.caller ++ l)) ∧ l.length ≤ 1)
        p.mem := by
    intro s hc
    have hcall := ho.call t.caller
    have hdiary := h t.caller
    rw [hc] at hcall hdiary
    exact ((o.step ho.mem hcall).and (d.step ho.mem hcall hdiary)).and
      (Move.Ensures.length_le_one _)
  rcases p.turn_cases ht hs with
    ⟨he, _⟩ | ⟨s, m, c, l, _, ⟨⟨⟨-, hl, -⟩, hc⟩, hlen⟩, he, _⟩ | ⟨s, reason, _, _, he⟩
  · rwa [he]
  · rw [he]
    exact h.after hc hlen hl
  · rw [he]
    exact h

theorem Holds.run (h : d.Holds p) (ho : o.Holds p) {turns : List (Turn ι A)}
    (ht : ∀ t ∈ turns, t.Within may) : d.Holds (p.run move turns) := by
  have hboth : o.Holds (p.run move turns) ∧ d.Holds (p.run move turns) := by
    refine p.run_induction move (P := fun q => o.Holds q ∧ d.Holds q) ⟨ho, h⟩ ?_
    rintro q ⟨hq, hd⟩ t hm
    exact ⟨hq.turn (ht t hm), hd.turn hq (ht t hm)⟩
  exact hboth.2

end Diary

/-- A call that hears a panic of the host ends with it. -/
def Breaks (c : Progress State Result) (l : List (Reply A)) : Prop :=
  ∀ r ∈ l, ∀ cause, r.2 = .error cause → c = .panicked cause

namespace Move

/-- A move that takes no rescue from a panic of the host, and does not end the process. -/
def Plain : Move A Mem State Result → Prop
  | .ask _ _ rescue => rescue = none
  | .abort _ => False
  | _ => True

theorem Plain.ne_abort {mv : Move A Mem State Result} (h : mv.Plain) (reason : Abort) :
    mv ≠ .abort reason := by
  rintro rfl
  exact h

@[simp] theorem plain_access (mem : Mem) (s : State) (notices : List Notice) :
    (Move.access mem s notices : Move A Mem State Result).Plain := trivial

@[simp] theorem plain_ask (q : Q) (resume : A q → State) :
    (Move.ask q resume : Move A Mem State Result).Plain := rfl

@[simp] theorem plain_finish (r : Result) : (Move.finish r : Move A Mem State Result).Plain :=
  trivial

@[simp] theorem plain_fail (cause : Panic) :
    (Move.fail cause : Move A Mem State Result).Plain := trivial

theorem Plain.lift {Sub SubState SubResult : Type} {inner : Move A Sub SubState SubResult}
    (h : inner.Plain) {mem : Mem} {put : Sub → Mem} {wrap : SubState → State}
    {finished : SubResult → Move A Mem State Result} (hfinished : ∀ r, (finished r).Plain) :
    (inner.lift mem put wrap finished).Plain := by
  cases inner with
  | ask q resume own =>
    obtain rfl : own = none := h
    rfl
  | finish r => exact hfinished r
  | _ => trivial

theorem Plain.breaks {may : Reply A → Prop} {mem : Mem} {mv : Move A Mem State Result}
    (h : mv.Plain) : mv.Ensures may (fun _ c l => Breaks c l) mem := by
  cases mv with
  | ask q resume rescue =>
    obtain rfl : rescue = none := h
    intro a _ r hr cause hcause
    rw [List.mem_singleton.1 hr] at hcause
    cases a with
    | error cause' => exact congrArg Progress.panicked (Except.error.inj hcause)
    | ok a => cases hcause
  | abort reason => trivial
  | _ => exact fun r hr => absurd hr List.not_mem_nil

end Move

/-- What a call heard before a panic of the host, and that it hears nothing after it. -/
structure Unbroken (c : Progress State Result) (h : List (Reply A)) : Prop where
  calm : (∀ cause, c ≠ .panicked cause) → ∀ r ∈ h, ∃ a, r.2 = .ok a
  last : ∀ past r rest cause, h = past ++ r :: rest → r.2 = .error cause →
    rest = [] ∧ c = .panicked cause

theorem Unbroken.blank {c : Progress State Result} : Unbroken (A := A) c [] :=
  ⟨fun _ _ hr => absurd hr List.not_mem_nil, fun past r rest _ h _ => by simp at h⟩

theorem split_append_singleton {α : Type} {h past rest : List α} {x r : α}
    (he : h ++ [x] = past ++ r :: rest) :
    (past = h ∧ r = x ∧ rest = []) ∨ ∃ rest', rest = rest' ++ [x] ∧ h = past ++ r :: rest' := by
  rcases List.eq_nil_or_concat rest with rfl | ⟨rest', y, rfl⟩
  · obtain ⟨hpast, hx⟩ := List.append_inj' he rfl
    exact .inl ⟨hpast.symm, (List.singleton_inj.1 hx).symm, rfl⟩
  · have hbefore : h ++ [x] = (past ++ r :: rest') ++ [y] := by simpa using he
    obtain ⟨hpast, hx⟩ := List.append_inj' hbefore rfl
    rw [List.singleton_inj.1 hx]
    exact .inr ⟨rest', by simp, hpast⟩

theorem Unbroken.step {s : State} {c : Progress State Result} {h l : List (Reply A)}
    (hs : Unbroken (.running s : Progress State Result) h) (hl : Breaks c l)
    (hlen : l.length ≤ 1) : Unbroken c (h ++ l) := by
  have hcalm := hs.calm (by simp)
  refine ⟨?_, ?_⟩
  · intro hc r hr
    rcases List.mem_append.1 hr with hr | hr
    · exact hcalm r hr
    · cases ha : r.2 with
      | error cause => exact absurd (hl r hr cause ha) (hc cause)
      | ok a => exact ⟨a, rfl⟩
  · intro past r rest cause he hr
    match l, hlen with
    | [], _ =>
      obtain ⟨a, ha⟩ := hcalm r (by rw [← List.append_nil h, he]; simp)
      rw [ha] at hr
      cases hr
    | [x], _ =>
      rcases split_append_singleton he with ⟨-, rfl, rfl⟩ | ⟨rest', -, hpast⟩
      · exact ⟨rfl, hl r (List.mem_singleton.2 rfl) cause hr⟩
      · -- A reply before the last one was heard while the call still ran.
        obtain ⟨a, ha⟩ := hcalm r (by rw [hpast]; simp)
        rw [ha] at hr
        cases hr

section

variable {may : Reply A → Prop} {move : ι → Mem → State → Move A Mem State Result}

def panicDiary (hmove : ∀ i m s, (move i m s).Plain) : Diary (.blank may move) where
  call _ _ c h := Unbroken c h
  stable _ h := h
  step _ _ hs := ((hmove _ _ _).breaks.and (Move.Ensures.length_le_one _)).mono fun _ _ _ h =>
    hs.step h.1 h.2

theorem unbroken_run [DecidableEq ι] (hmove : ∀ i m s, (move i m s).Plain) (mem : Mem)
    (first : ι → State) (turns : List (Turn ι A)) (i : ι) :
    Unbroken (((Pool.start mem first).run move turns).calls i)
      (((Pool.start mem first).run move turns).heard i) := by
  have hstart : (panicDiary hmove : Diary (.blank (fun _ => True) move)).Holds
      (Pool.start mem first) :=
    fun _ => Unbroken.blank
  exact hstart.run (Outline.holds_blank _) (Turn.within_true turns) i

end

end PauseCleanup
