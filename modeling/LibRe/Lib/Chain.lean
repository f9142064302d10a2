/-
LibRe.Lib.Chain — singly linked lists that are threaded through their nodes.

`next` gives the pointer that a node holds. `Seg next p xs q` says that the walk from the
pointer `p` visits `xs` and then stands at the pointer `q`; a `Chain` ends at the null
pointer. Pointers determine the walk, so a chain visits no node twice, and a walk that
comes back to a node is on no chain at all.
-/
import Mathlib.Tactic

namespace LibRe.Linked

open List

variable {α : Type}

/-- The walk from `p` visits `xs` and ends at `q`. -/
def Seg (next : α → Option α) : Option α → List α → Option α → Prop
  | p, [], q => p = q
  | p, x :: xs, q => p = some x ∧ Seg next (next x) xs q

/-- A list that ends. -/
def Chain (next : α → Option α) (p : Option α) (xs : List α) : Prop := Seg next p xs none

variable {next next' : α → Option α} {p q r : Option α} {xs ys : List α} {x : α}

theorem Seg.append : ∀ {xs : List α} {p : Option α}, Seg next p xs q → Seg next q ys r →
    Seg next p (xs ++ ys) r
  | [], _, h, h' => by
      cases h
      exact h'
  | _ :: _, _, h, h' => ⟨h.1, Seg.append h.2 h'⟩

theorem Seg.of_append : ∀ {xs : List α} {p : Option α}, Seg next p (xs ++ ys) r →
    ∃ q, Seg next p xs q ∧ Seg next q ys r
  | [], p, h => ⟨p, rfl, h⟩
  | _ :: _, _, h => by
      obtain ⟨q, hxs, hys⟩ := Seg.of_append h.2
      exact ⟨q, ⟨h.1, hxs⟩, hys⟩

/-- Pointers of other nodes do not matter. -/
theorem Seg.congr : ∀ {xs : List α} {p : Option α}, Seg next p xs q → (∀ x ∈ xs, next' x = next x) →
    Seg next' p xs q
  | [], _, h, _ => h
  | x :: _, _, h, hsame => by
      refine ⟨h.1, ?_⟩
      rw [hsame x mem_cons_self]
      exact Seg.congr h.2 fun y hy => hsame y (mem_cons_of_mem _ hy)

/-- The pointers determine the chain. -/
theorem Chain.unique : ∀ {xs ys : List α} {p : Option α}, Chain next p xs →
    Chain next p ys → xs = ys
  | [], [], _, _, _ => rfl
  | [], _ :: _, _, h, h' => by
      cases h
      cases h'.1
  | _ :: _, [], _, h, h' => by
      cases h'
      cases h.1
  | x :: xs, y :: ys, _, h, h' => by
      have hhead := h.1.symm.trans h'.1
      cases hhead
      rw [Chain.unique h.2 h'.2]

/-- A walk from the head of a chain is its beginning. -/
theorem Chain.split (h : Chain next p ys) (hseg : Seg next p xs q) :
    ∃ zs, ys = xs ++ zs ∧ Chain next q zs := by
  induction xs generalizing p ys with
  | nil =>
    cases hseg
    exact ⟨ys, rfl, h⟩
  | cons x xs ih =>
    cases ys with
    | nil =>
      cases h
      cases hseg.1
    | cons y ys =>
      have hhead := h.1.symm.trans hseg.1
      cases hhead
      obtain ⟨zs, rfl, hzs⟩ := ih h.2 hseg.2
      exact ⟨zs, rfl, hzs⟩

theorem Chain.nodup (h : Chain next p xs) : xs.Nodup := by
  induction xs generalizing p with
  | nil => exact nodup_nil
  | cons x xs ih =>
    refine nodup_cons.mpr ⟨?_, ih h.2⟩
    intro hmem
    -- the walk from the second visit is the whole chain again, and shorter
    obtain ⟨as, bs, rfl⟩ := append_of_mem hmem
    obtain ⟨q, -, hq⟩ := Seg.of_append h.2
    have hagain : Chain next (some x) (x :: bs) := ⟨rfl, hq.2⟩
    have hwhole : Chain next (some x) (x :: (as ++ x :: bs)) := ⟨rfl, h.2⟩
    have hlen := congrArg List.length (Chain.unique hagain hwhole)
    rw [length_cons, length_cons, length_append, length_cons] at hlen
    omega

/-- A walk that comes back to a node. -/
theorem not_chain_of_back (hseg : Seg next p xs (some x)) (hx : x ∈ xs) : ¬ Chain next p ys := by
  intro h
  obtain ⟨zs, rfl, hzs⟩ := h.split hseg
  cases zs with
  | nil => cases hzs
  | cons z zs =>
    cases hzs.1
    exact (nodup_append.mp h.nodup).2.2 x hx x mem_cons_self rfl

end LibRe.Linked
