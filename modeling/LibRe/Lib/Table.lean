/-
LibRe.Lib.Table — numbered objects, in the order in which they were made.

Every object of a table has a number that no other object ever had or will have, so that
a log can speak of objects that are gone. Objects are added at the end, replaced or
removed. That numbers are used once is a field of the table.
-/
import Mathlib.Tactic

namespace LibRe

open List Option

/-- Objects with their numbers; `fresh` is the next number. -/
structure Table (α : Type) where
  items : List (Nat × α)
  fresh : Nat
  nodup : (items.map Prod.fst).Nodup
  lt : ∀ item ∈ items, item.1 < fresh

variable {α : Type}

/-- A table without objects. -/
def Table.empty : Table α where
  items := []
  fresh := 0
  nodup := nodup_nil
  lt := fun _ h => nomatch h

/-- The object with this number, if it is still there. -/
def Table.get (t : Table α) (id : Nat) : Option α :=
  (t.items.find? fun item => item.1 = id).map Prod.snd

/-- What becomes of one item. -/
def Table.setItem (id : Nat) (a : Option α) (item : Nat × α) : Option (Nat × α) :=
  if item.1 = id then a.map fun a => (id, a) else some item

theorem Table.setItem_fst {id : Nat} {a : Option α} {item item' : Nat × α}
    (h : setItem id a item = some item') :
    item'.1 = item.1 := by
  unfold setItem at h
  split at h
  · next hid =>
      obtain ⟨b, -, rfl⟩ := map_eq_some_iff.mp h
      exact hid.symm
  · cases h
    rfl

theorem Table.sublist_setItems (id : Nat) (a : Option α) (items : List (Nat × α)) :
    List.Sublist ((items.filterMap (setItem id a)).map Prod.fst) (items.map Prod.fst) := by
  induction items with
  | nil => exact List.Sublist.refl _
  | cons item items ih =>
    rw [filterMap_cons]
    split
    · exact ih.cons _
    · next item' hitem =>
        rw [map_cons, map_cons, setItem_fst hitem]
        exact ih.cons_cons _

/-- The object is replaced, or removed. -/
def Table.set (t : Table α) (id : Nat) (a : Option α) : Table α where
  items := t.items.filterMap (setItem id a)
  fresh := t.fresh
  nodup := (sublist_setItems id a t.items).nodup t.nodup
  lt := by
    intro item hitem
    obtain ⟨item', hmem, heq⟩ := mem_filterMap.mp hitem
    rw [setItem_fst heq]
    exact t.lt item' hmem

/-- A new object. -/
def Table.add (t : Table α) (a : α) : Table α where
  items := t.items ++ [(t.fresh, a)]
  fresh := t.fresh + 1
  nodup := by
    rw [map_append, nodup_append]
    refine ⟨t.nodup, nodup_singleton _, ?_⟩
    rintro x hx y hy rfl
    obtain ⟨item, hitem, rfl⟩ := List.mem_map.mp hx
    exact Nat.ne_of_lt (t.lt item hitem) (mem_singleton.mp hy)
  lt := by
    intro item hitem
    rcases mem_append.mp hitem with h | h
    · exact Nat.lt_succ_of_lt (t.lt item h)
    · rw [mem_singleton.mp h]
      exact Nat.lt_succ_self _

/-- A number is used up without an object. -/
def Table.skip (t : Table α) : Table α where
  items := t.items
  fresh := t.fresh + 1
  nodup := t.nodup
  lt := fun item hitem => Nat.lt_succ_of_lt (t.lt item hitem)

variable {t : Table α} {id : Nat} {a : α}

theorem Table.get_eq_some_iff : t.get id = some a ↔ (id, a) ∈ t.items := by
  have hnodup := t.nodup
  unfold Table.get
  generalize t.items = items at hnodup
  induction items with
  | nil => simp
  | cons item items ih =>
    obtain ⟨n, b⟩ := item
    rw [map_cons, nodup_cons] at hnodup
    by_cases hn : n = id
    · subst hn
      have hrest : (n, a) ∉ items := fun h => hnodup.1 (List.mem_map.mpr ⟨(n, a), h, rfl⟩)
      simp [hrest, eq_comm]
    · simp [hn, ih, hnodup]
      omega

theorem Table.lt_of_get (h : t.get id = some a) : id < t.fresh :=
  t.lt _ (Table.get_eq_some_iff.mp h)

theorem Table.get_fresh (t : Table α) : t.get t.fresh = none := by
  by_contra hne
  obtain ⟨a, ha⟩ := ne_none_iff_exists'.mp hne
  exact lt_irrefl _ (Table.lt_of_get ha)

@[simp] theorem Table.get_empty (id : Nat) : (Table.empty : Table α).get id = none := rfl

section

variable (t : Table α)

@[simp] theorem Table.fresh_set (id : Nat) (a : Option α) : (t.set id a).fresh = t.fresh := rfl

@[simp] theorem Table.fresh_skip : t.skip.fresh = t.fresh + 1 := rfl

@[simp] theorem Table.get_skip (id : Nat) : t.skip.get id = t.get id := rfl

@[simp] theorem Table.fresh_add (a : α) : (t.add a).fresh = t.fresh + 1 := rfl

/-- What is behind a number when one object is replaced or removed. -/
theorem Table.get_set (id : Nat) (b : Option α) (id' : Nat) :
    (t.set id b).get id' = if id' = id then (t.get id).bind fun _ => b else t.get id' := by
  ext c
  have hmem : (t.set id b).get id' = some c ↔ ∃ n d, t.get n = some d ∧ setItem id b (n, d) =
      some (id', c) := by
    simp only [Table.get_eq_some_iff, Table.set, mem_filterMap, Prod.exists]
  rw [hmem]
  constructor
  · rintro ⟨n, d, hget, hset⟩
    unfold setItem at hset
    split at hset <;> simp_all
  intro h
  split at h
  · obtain ⟨d, hd, hb⟩ := bind_eq_some_iff.mp h
    exact ⟨id, d, hd, by grind [setItem]⟩
  · exact ⟨id', c, h, by grind [setItem]⟩

theorem Table.get_add (a : α) (id : Nat) :
    (t.add a).get id = if id = t.fresh then some a else t.get id := by
  ext c
  have hold := @Table.lt_of_get α t id
  simp only [Table.get_eq_some_iff, Table.add, mem_append, mem_singleton, Prod.mk.injEq] at hold ⊢
  split
  · grind
  · simp [*, Table.get_eq_some_iff]

end

end LibRe
