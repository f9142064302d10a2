/-
LibRe.Lib.Layout — what the units of a message from one place to another mean.

A layout relates a message, two places in it and a value: `L W p q a` says that
the part of `W` from `p` up to `q` presents `a`. It may look at other parts of
the message too, as formats with back references do, so layouts are relations
on the whole message and not on the part alone.

Layouts compose in sequence (`bind`), and a stable one keeps its meaning when
the message grows behind its end. Nothing here mentions a protocol.
-/
import Mathlib.Tactic

namespace LibRe

open List

/-- `L W p q a`: the units of `W` from `p` up to `q` present `a`. -/
abbrev Layout (β α : Type) := List β → Nat → Nat → α → Prop

namespace Layout

variable {β α γ : Type}

/-- `n` units as they stand. -/
def block (n : Nat) : Layout β (List β) :=
  fun W p q xs => xs.length = n ∧ q = p + n ∧ xs <+: W.drop p

/-- A layout read through a function. -/
protected def map (f : α → γ) (L : Layout β α) : Layout β γ :=
  fun W p q c => ∃ a, L W p q a ∧ f a = c

/-- One layout behind another, which may depend on the value of the first. -/
protected def bind (L : Layout β α) (f : α → Layout β γ) : Layout β γ :=
  fun W p q c => ∃ a m, L W p m a ∧ f a W m q c

/-- A layout in front of which `n` units are left. -/
def within (n : Nat) (L : Layout β α) : Layout β α :=
  fun W p q a => n ≤ (W.drop p).length ∧ L W p q a

/-- A layout under a condition that does not depend on the message. -/
def onlyIf (c : Prop) (L : Layout β α) : Layout β α := fun W p q a => c ∧ L W p q a

/-- A layout that holds in a message holds in every message that begins with it. -/
def Stable (L : Layout β α) : Prop :=
  ∀ (W W' : List β) (p q : Nat) (a : α), W <+: W' → L W p q a → L W' p q a

/-- Two parts of a message, one behind the other. -/
theorem append_prefix_drop {xs ys W : List β} {p : Nat} :
    xs ++ ys <+: W.drop p ↔ xs <+: W.drop p ∧ ys <+: W.drop (p + xs.length) := by
  rw [← drop_drop]
  constructor
  · rintro ⟨t, ht⟩
    rw [← ht, append_assoc, drop_left]
    exact ⟨prefix_append _ _, prefix_append _ _⟩
  · rintro ⟨⟨s, hs⟩, ⟨t, ht⟩⟩
    rw [← hs, drop_left] at ht
    exact ⟨t, by rw [append_assoc, ht, hs]⟩

theorem block_stable (n : Nat) : (block n : Layout β (List β)).Stable :=
  fun _ _ _ _ _ hW h => ⟨h.1, h.2.1, h.2.2.trans (hW.drop _)⟩

variable {L : Layout β α}

theorem Stable.within (h : L.Stable) (n : Nat) : (within n L).Stable :=
  fun _ _ _ _ _ hW hL => ⟨le_trans hL.1 (hW.drop _).length_le, h _ _ _ _ _ hW hL.2⟩

theorem Stable.onlyIf (h : L.Stable) (c : Prop) : (onlyIf c L).Stable :=
  fun _ _ _ _ _ hW hL => ⟨hL.1, h _ _ _ _ _ hW hL.2⟩

theorem Stable.map (h : L.Stable) (f : α → γ) : (L.map f).Stable := by
  rintro W W' p q c hW ⟨a, ha, hf⟩
  exact ⟨a, h _ _ _ _ _ hW ha, hf⟩

theorem Stable.bind {f : α → Layout β γ} (h : L.Stable)
    (hf : ∀ a, (f a).Stable) : (L.bind f).Stable := by
  rintro W W' p q c hW ⟨a, m, ha, hc⟩
  exact ⟨a, m, h _ _ _ _ _ hW ha, hf a _ _ _ _ _ hW hc⟩

end Layout

end LibRe
