/-
LibRe.Lib.Parties — two parties that exchange messages.

A party acts on its own or handles a message; either way it may send messages to
the other one. Messages in flight are delivered in any order, each exactly once.
A run records the messages that were delivered.
-/
import Mathlib.Tactic

namespace LibRe.Parties

inductive Side where
  | left
  | right
  deriving DecidableEq, Repr

namespace Side

def other : Side → Side
  | .left => .right
  | .right => .left

@[simp] theorem other_other (i : Side) : i.other.other = i := by
  cases i <;> rfl

@[simp] theorem other_ne (i : Side) : i.other ≠ i := by
  cases i <;> decide

theorem eq_or_eq_other (i j : Side) : j = i ∨ j = i.other := by
  cases i <;> cases j <;> decide

end Side

/-- What a party does: the messages it sends and the state behind. -/
structure Behaviour (σ μ : Type) where
  acts : σ → List μ → σ → Prop
  handles : σ → μ → List μ → σ → Prop

/-- Both parties, and the messages in flight with where they go. -/
structure Config (σ μ : Type) where
  party : Side → σ
  flight : List (Side × μ)

variable {σ μ : Type} (c : Config σ μ) (i : Side) (s : σ) (flight : List (Side × μ)) (sent : List μ)

/-- Party `i` goes to `s` and sends. -/
def Config.move : Config σ μ :=
  { party := Function.update c.party i s, flight := flight ++ sent.map (i.other, ·) }

@[simp] theorem Config.move_party : (c.move i s flight sent).party i = s := Function.update_self ..

@[simp] theorem Config.move_party_other :
    (c.move i s flight sent).party i.other = c.party i.other := Function.update_of_ne i.other_ne ..

@[simp] theorem Config.mem_move (x : Side × μ) :
    x ∈ (c.move i s flight sent).flight ↔ x ∈ flight ∨ x.1 = i.other ∧ x.2 ∈ sent := by
  simp only [move, List.mem_append, List.mem_map]
  constructor
  · grind
  · grind

/-- The configurations reached from `c₀`, with the messages delivered on the way. -/
inductive Run (B : Behaviour σ μ) (c₀ : Config σ μ) : List (Side × μ) → Config σ μ → Prop where
  | start : Run B c₀ [] c₀
  | act {h c} (i : Side) {sent s} (run : Run B c₀ h c) (does : B.acts (c.party i) sent s) :
      Run B c₀ h (c.move i s c.flight sent)
  | deliver {h c} (i : Side) (l₁ l₂ : List (Side × μ)) {m sent s} (run : Run B c₀ h c)
      (inFlight : c.flight = l₁ ++ (i, m) :: l₂) (does : B.handles (c.party i) m sent s) :
      Run B c₀ (h ++ [(i, m)]) (c.move i s (l₁ ++ l₂) sent)

end LibRe.Parties
