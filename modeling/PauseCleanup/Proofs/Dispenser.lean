import PauseCleanup.Proofs.Pool.Ensures
import PauseCleanup.Race.Dispenser
/-!
# What a request to a dispenser ensures

The counter only grows and never passes its bound. A number is taken by the one exchange that moves
the counter past it.
-/
namespace PauseCleanup.Dispenser

variable {Q : Type} {A : Q → Type}

/-- The numbers still to be handed out. -/
def rest (d : Dispenser) : List UInt64 :=
  (List.range' d.next.toNat (d.size.toNat - d.next.toNat)).map UInt64.ofNat

theorem rest_of_le {d : Dispenser} (h : d.size ≤ d.next) : d.rest = [] := by
  have hle := UInt64.le_iff_toNat_le.1 h
  simp [rest, Nat.sub_eq_zero_of_le hle]

theorem rest_of_lt {d : Dispenser} (h : d.next < d.size) {after : UInt64}
    (ha : Word.succ? d.next = some after) : d.rest = d.next :: rest { d with next := after } := by
  have hlt := UInt64.lt_iff_toNat_lt.1 h
  have hsucc := Word.succ?_eq_some ha
  have hlen : d.size.toNat - d.next.toNat = d.size.toNat - (d.next.toNat + 1) + 1 := by omega
  simp [rest, hsucc, hlen, List.range'_succ]

theorem rest_fresh (size : UInt64) : rest { size } = (List.range size.toNat).map UInt64.ofNat := by
  simp [rest, List.range_eq_range']

theorem rest_ascending (d : Dispenser) : d.rest.Pairwise (· < ·) := by
  rw [rest, List.pairwise_map]
  refine List.Pairwise.imp_of_mem ?_ List.pairwise_lt_range'
  intro a b ha hb hab
  have hb' : b < 2 ^ 64 := by
    have hrange := List.mem_range'_1.1 hb
    have hsize := d.size.toNat_lt
    omega
  rw [UInt64.lt_iff_toNat_lt, UInt64.toNat_ofNat_of_lt' (Nat.lt_trans hab hb'),
    UInt64.toNat_ofNat_of_lt' hb']
  exact hab

def Valid (d : Dispenser) : Prop := d.next ≤ d.size

/-- The counter never goes back. -/
structure Later (d d' : Dispenser) : Prop where
  size : d'.size = d.size
  next : d.next ≤ d'.next

theorem Later.refl (d : Dispenser) : Later d d := ⟨rfl, UInt64.le_refl _⟩

theorem Later.le_next {d d' : Dispenser} (h : Later d d') (hd : d.size ≤ d.next) :
    d'.size ≤ d'.next :=
  h.size ▸ UInt64.le_trans hd h.next

namespace Take

def Knows (d : Dispenser) : Progress Take (Option UInt64) → Prop
  | .running .load => True
  | .running (.exchange seen) => seen ≤ d.next
  | .running (.done number) => number = none → d.size ≤ d.next
  | .returned number => number = none → d.size ≤ d.next
  | .panicked _ => False

/-- The number that a request has taken, once it has. -/
def held : Progress Take (Option UInt64) → List UInt64
  | .running (.done number) => number.toList
  | .returned number => number.toList
  | _ => []

theorem knows_stable {d d' : Dispenser} {c : Progress Take (Option UInt64)} (h : Later d d')
    (hc : Knows d c) : Knows d' c := by
  cases c with
  | running t =>
    cases t with
    | load => trivial
    | exchange seen => exact UInt64.le_trans hc h.next
    | done number => exact fun hn => h.le_next (hc hn)
  | returned number => exact fun hn => h.le_next (hc hn)
  | panicked cause => exact hc

/-- What one move of a request does. -/
structure Moved (d : Dispenser) (t : Take) (d' : Dispenser) (c : Progress Take (Option UInt64))
    (l : List (Reply A)) : Prop where
  valid : d'.Valid
  knows : Knows d' c
  later : Later d d'
  silent : l = []
  keeps : held c ++ d'.rest = held (.running t) ++ d.rest

theorem Moved.still {d : Dispenser} {t : Take} {c : Progress Take (Option UInt64)} (hd : d.Valid)
    (hc : Knows d c) (hheld : held c = held (.running t)) :
    Moved d t d c ([] : List (Reply A)) where
  valid := hd
  knows := hc
  later := .refl d
  silent := rfl
  keeps := by rw [hheld]

theorem move_ensures {may : Reply A → Prop} {d : Dispenser} (hd : d.Valid) (spurious : Bool)
    {t : Take} (ht : Knows d (.running t)) :
    (t.move d spurious : Move A Dispenser Take (Option UInt64)).Ensures may (Moved d t) d := by
  cases t with
  | load => exact .still hd (UInt64.le_refl _) rfl
  | done number => exact .still hd ht rfl
  | exchange seen =>
    have hle : seen ≤ d.next := ht
    simp only [move]
    split
    · next h => exact .still hd (fun _ => UInt64.le_trans h hle) rfl
    · next h =>
      have hlt : seen < d.size := UInt64.not_le.1 h
      cases hs : Word.succ? seen with
      | none =>
        -- Below the bound there is always a next word.
        have hmax := Word.succ?_eq_none_iff.1 hs
        have := UInt64.lt_iff_toNat_lt.1 hlt
        have := d.size.toNat_lt
        omega
      | some after =>
        have hafter := Word.succ?_eq_some hs
        by_cases hx : seen = d.next ∧ spurious = false
        · obtain ⟨rfl, rfl⟩ := hx
          simp only [and_self, if_true]
          have hbound : after ≤ d.size := by
            have := UInt64.lt_iff_toNat_lt.1 hlt
            rw [UInt64.le_iff_toNat_le]
            omega
          have hgrows : d.next ≤ after := by
            rw [UInt64.le_iff_toNat_le]
            omega
          exact {
            valid := hbound
            knows := fun hn => absurd hn (Option.some_ne_none _)
            later := ⟨rfl, hgrows⟩
            silent := rfl
            keeps := (rest_of_lt hlt hs).symm }
        · simp only [hx, if_false]
          exact .still hd (UInt64.le_refl _) rfl

end Take

end PauseCleanup.Dispenser
