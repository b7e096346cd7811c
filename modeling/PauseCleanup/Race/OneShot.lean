import PauseCleanup.Move
/-!
# One-shot claims

A flag that any number of callers race for and exactly one of them wins. It is never given back. A
caller first looks, so that late ones leave without an exchange, and then exchanges.
-/
namespace PauseCleanup

structure OneShot where
  taken : Bool := false
  deriving DecidableEq

namespace OneShot

/-- One attempt to win the flag. -/
inductive Try
  | look
  | exchange
  | done (won : Bool)
  deriving DecidableEq

variable {Q : Type} {A : Q → Type}

def Try.move (flag : OneShot) : Try → Move A OneShot Try Bool
  | .look => .access flag (if flag.taken then .done false else .exchange)
  | .exchange => .access ⟨true⟩ (.done (!flag.taken))
  | .done won => .finish won

@[simp] theorem Try.move_look (flag : OneShot) :
    (Try.look.move flag : Move A _ _ _) =
      .access flag (if flag.taken then .done false else .exchange) := rfl

@[simp] theorem Try.move_exchange (flag : OneShot) :
    (Try.exchange.move flag : Move A _ _ _) = .access ⟨true⟩ (.done (!flag.taken)) := rfl

@[simp] theorem Try.move_done (flag : OneShot) (won : Bool) :
    ((Try.done won).move flag : Move A _ _ _) = .finish won := rfl

end OneShot

end PauseCleanup
