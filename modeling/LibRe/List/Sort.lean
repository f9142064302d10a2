/-
LibRe.List.Sort — sorted insertion into and sorting of linked lists.

`list_sort` walks over the list and carries an element to the right as long as
the sort handler does not put it before its neighbour; it starts again until a
walk changes nothing. With a handler that puts any two elements in some order,
every exchange removes an inversion, so the walks come to an end.
-/
import Mathlib.Tactic
import Mathlib.Data.List.DropRight

namespace LibRe.Lists

open List Nat

variable {α : Type}

/-! ## Insertion -/

/-- The walk from the tail of `list_insert_sorted`: behind the last element with
`behind`, or in front of all. -/
def insertBehind (behind : α → Bool) (x : α) (l : List α) : List α :=
  l.rdropWhile (fun y => !behind y) ++ x :: l.rtakeWhile (fun y => !behind y)

/-- In front of the first element with `ahead`, or behind all. -/
def insertAhead (ahead : α → Bool) (x : α) : List α → List α
  | [] => [x]
  | y :: l => if ahead y then x :: y :: l else y :: insertAhead ahead x l

theorem insertAhead_eq (ahead : α → Bool) (x : α) (l : List α) :
    insertAhead ahead x l = l.takeWhile (fun y => !ahead y) ++ x :: l.dropWhile
      (fun y => !ahead y) := by
  induction l with
  | nil => rfl
  | cons z l ih => cases hz : ahead z <;> simp [insertAhead, hz, ih]

theorem insertAhead_perm (ahead : α → Bool) (x : α) (l : List α) :
    (insertAhead ahead x l).Perm (x :: l) := by
  refine (insertAhead_eq ahead x l ▸ perm_middle).trans (List.Perm.cons x ?_)
  rw [takeWhile_append_dropWhile]

variable {ahead behind : α → Bool} {x y : α} {l : List α} {R : α → α → Prop}

@[simp] theorem mem_insertAhead : y ∈ insertAhead ahead x l ↔ y = x ∨ y ∈ l :=
  (insertAhead_perm ahead x l).mem_iff.trans mem_cons

/-- Insertion keeps the order. -/
theorem insertAhead_pairwise (htrans : ∀ a b c, R a b → R b c → R a c) (hl : l.Pairwise R)
    (hyes : ∀ y ∈ l, ahead y = true → R x y) (hno : ∀ y ∈ l, ahead y = false → R y x) :
    (insertAhead ahead x l).Pairwise R := by
  induction l with
  | nil => exact pairwise_singleton R x
  | cons z l ih =>
    obtain ⟨hz, hl⟩ := pairwise_cons.mp hl
    simp only [insertAhead]
    split
    · have hxz := hyes z (by simp) ‹_›
      simp_all
      exact fun y hy => htrans x z y hxz (hz y hy)
    · simp_all

/-- The walk from the tail is the one from the head of the reversed list. -/
theorem insertBehind_eq (behind : α → Bool) (x : α) (l : List α) :
    insertBehind behind x l = (insertAhead behind x l.reverse).reverse := by
  simp [insertAhead_eq, insertBehind, rdropWhile, rtakeWhile]

theorem insertBehind_perm (behind : α → Bool) (x : α) (l : List α) :
    (insertBehind behind x l).Perm (x :: l) := by
  rw [insertBehind_eq]
  exact (reverse_perm _).trans ((insertAhead_perm ..).trans ((reverse_perm l).cons x))

@[simp] theorem mem_insertBehind : y ∈ insertBehind behind x l ↔ y = x ∨ y ∈ l := by
  simp [insertBehind_eq]

theorem insertBehind_pairwise (htrans : ∀ a b c, R a b → R b c → R a c) (hl : l.Pairwise R)
    (hyes : ∀ y ∈ l, behind y = true → R y x) (hno : ∀ y ∈ l, behind y = false → R x y) :
    (insertBehind behind x l).Pairwise R := by
  rw [insertBehind_eq, pairwise_reverse]
  refine insertAhead_pairwise (fun a b c hab hbc => htrans c b a hbc hab)
    (pairwise_reverse.mpr hl) ?_ ?_
  · simpa using hyes
  · simpa using hno

/-! ## `list_sort` -/

variable (sh : α → α → Bool)

/-- One walk, with the element that is carried along; the flag says whether it
exchanged two elements. -/
def sortWalk : α → List α → List α × Bool
  | x, [] => ([x], false)
  | x, y :: ys =>
    if sh x y then
      let rest := sortWalk y ys
      (x :: rest.1, rest.2)
    else
      let rest := sortWalk x ys
      (y :: rest.1, true)

/-- The walks of `list_sort`; `none` when they do not come to an end. -/
def sortLoop : Nat → List α → Option (List α)
  | _, [] => some []
  | 0, _ :: _ => none
  | n + 1, x :: xs =>
    let walk := sortWalk sh x xs
    if walk.2 then sortLoop n walk.1 else some walk.1

/-- `list_sort`. -/
def listSort (l : List α) : Option (List α) := sortLoop sh (l.length * l.length + 1) l

theorem sortWalk_perm : ∀ (x : α) (ys : List α), (sortWalk sh x ys).1.Perm (x :: ys)
  | x, [] => .refl _
  | x, y :: ys => by
      rw [sortWalk]
      split
      · exact (sortWalk_perm y ys).cons x
      · exact ((sortWalk_perm x ys).cons y).trans (.swap x y ys)

/-- The pairs that stand in the wrong order. -/
def inversions : List α → Nat
  | [] => 0
  | x :: xs => xs.countP (fun y => !sh x y) + inversions xs

theorem inversions_le (l : List α) : inversions sh l ≤ l.length * l.length := by
  induction l with
  | nil => exact le_refl 0
  | cons x xs ih =>
    have hcount : xs.countP (fun y => !sh x y) ≤ xs.length := countP_le_length
    simp only [inversions, length_cons]
    nlinarith

/-- A handler that is a total preorder. -/
structure TotalPreorder : Prop where
  total : ∀ x y, sh x y = false → sh y x = true
  trans : ∀ x y z, sh x y = true → sh y z = true → sh x z = true

variable {sh}

theorem totalPreorder_of_rank {rank : α → Nat} (h : ∀ x y, sh x y = decide (rank x ≤ rank y)) :
    TotalPreorder sh where
  total := by
    simp [h]
    omega
  trans := by
    simp [h]
    omega

/-- A walk that exchanges leaves fewer inversions. -/
theorem inversions_sortWalk (hsh : TotalPreorder sh) :
    ∀ (x : α) (ys : List α),
      inversions sh (sortWalk sh x ys).1 + (sortWalk sh x ys).2.toNat ≤ inversions sh (x :: ys)
  | x, [] => le_refl _
  | x, y :: ys => by
      rw [sortWalk]
      split
      · have ih := inversions_sortWalk hsh y ys
        have hcount := (sortWalk_perm sh y ys).countP_eq (fun z => !sh x z)
        simp only [inversions] at ih ⊢
        omega
      · rename_i hxy
        have hyx := hsh.total x y (by simpa using hxy)
        have ih := inversions_sortWalk hsh x ys
        have hcount := (sortWalk_perm sh x ys).countP_eq (fun z => !sh y z)
        simp only [inversions, countP_cons, hyx, hxy, Bool.toNat_true] at ih hcount ⊢
        simp only [Bool.not_true, Bool.false_eq_true, if_false, Bool.not_false, if_true] at hcount ⊢
        omega

/-- A walk without an exchange finds the list in order. -/
theorem isChain_of_sortWalk : ∀ (x : α) (ys : List α), (sortWalk sh x ys).2 = false →
    (sortWalk sh x ys).1.IsChain (fun a b => sh a b = true) ∧ (sortWalk sh x ys).1 = x :: ys
  | x, [], _ => ⟨isChain_singleton x, rfl⟩
  | x, y :: ys, h => by
      rw [sortWalk] at h ⊢
      split at h
      · rename_i hxy
        obtain ⟨hchain, heq⟩ := isChain_of_sortWalk y ys h
        rw [heq] at hchain
        rw [if_pos hxy]
        show (x :: (sortWalk sh y ys).1).IsChain _ ∧ x :: (sortWalk sh y ys).1 = _
        rw [heq]
        exact ⟨isChain_cons_cons.mpr ⟨hxy, hchain⟩, rfl⟩
      · exact absurd h (by simp)

/-- A walk exchanges no two elements that the handler puts in either order. -/
theorem filter_sortWalk {p : α → Bool} (hp : ∀ x y, p x → p y → sh x y) :
    ∀ (x : α) (ys : List α), (sortWalk sh x ys).1.filter p = (x :: ys).filter p
  | x, [] => rfl
  | x, y :: ys => by
      rw [sortWalk]
      split
      · simp only [filter_cons, filter_sortWalk hp y ys]
      · have hxy := hp x y
        simp only [filter_cons, filter_sortWalk hp x ys]
        grind

/-- Elements that the handler does not tell apart stay in their order. -/
def Stable (sh : α → α → Bool) (l l' : List α) : Prop :=
  ∀ p : α → Bool, (∀ x y, p x → p y → sh x y) → l'.filter p = l.filter p

theorem sortLoop_sorts (hsh : TotalPreorder sh) (n : Nat) :
    ∀ l : List α, inversions sh l < n →
      ∃ l', sortLoop sh n l = some l' ∧ l'.Perm l ∧ l'.Pairwise (fun x y => sh x y = true) ∧
      Stable sh l l' := by
  induction n with
  | zero => exact fun l h => absurd h (not_lt_zero _)
  | succ n ih =>
    intro l hn
    cases l with
    | nil => exact ⟨[], rfl, .refl _, .nil, fun _ _ => rfl⟩
    | cons x xs =>
      have hdown := inversions_sortWalk hsh x xs
      have hperm := sortWalk_perm sh x xs
      have hwalk : Stable sh (x :: xs) (sortWalk sh x xs).1 := fun p hp => filter_sortWalk hp x xs
      rw [sortLoop]
      cases hflag : (sortWalk sh x xs).2 with
      | true =>
        rw [hflag] at hdown
        obtain ⟨l', hrun, hl', hsorted, hstable⟩ := ih (sortWalk sh x xs).1 (by
          simp only [Bool.toNat_true] at hdown
          omega)
        exact ⟨l', by simpa [hflag] using hrun, hl'.trans hperm, hsorted, fun p hp =>
          (hstable p hp).trans (hwalk p hp)⟩
      | false =>
        have hchain := (isChain_of_sortWalk x xs hflag).1
        have : Trans (fun a b : α => sh a b = true) (fun a b => sh a b = true)
            (fun a b => sh a b = true) := ⟨fun {a b c} => hsh.trans a b c⟩
        exact ⟨_, by simp, hperm, isChain_iff_pairwise.mp hchain, hwalk⟩

/-- `list_sort` with a total preorder ends with the elements in order, and those in the
same place of the order as they were. -/
theorem listSort_sorts (hsh : TotalPreorder sh) (l : List α) :
    ∃ l', listSort sh l = some l' ∧ l'.Perm l ∧ l'.Pairwise (fun x y => sh x y = true) ∧
    Stable sh l l' :=
  sortLoop_sorts hsh _ l (lt_succ_of_le (inversions_le sh l))

/-- `list_sort` leaves a list that is in order as it is. -/
theorem listSort_of_sorted (h : l.Pairwise fun x y => sh x y = true) : listSort sh l = some l := by
  have hwalk : ∀ (x : α) (ys : List α), (x :: ys).Pairwise (fun x y => sh x y = true) →
      sortWalk sh x ys = (x :: ys, false) := by
    intro x ys
    induction ys generalizing x with
    | nil => exact fun _ => rfl
    | cons y ys ih =>
      intro hsorted
      obtain ⟨hx, hrest⟩ := pairwise_cons.mp hsorted
      simp only [sortWalk, if_pos (hx y mem_cons_self), ih y hrest]
  cases l with
  | nil => rfl
  | cons x xs => simp only [listSort, sortLoop, hwalk x xs h, Bool.false_eq_true, if_false]

end LibRe.Lists
