/-
LibRe.Av1.Layout — how units are laid out in packets.

The layout of an AV1 RTP stream is decided by sizes alone: the bytes a packet
has left, the number of elements in it, the bytes the current unit has left and
whether it is the last one. `Place.next` is one step of it, and `Place.Corner`
the one place at which a unit is cut in the middle of a packet: an element with
a length field takes one byte less than the unit has, because the shorter length
also has a shorter length field, and one byte of the packet stays free.

`Fill` is the same layout with the bytes: what one packet takes from the front
of the queue of units. Its last index counts the units that are cut in the
middle of the packet.
-/
import LibRe.Lib.Bytes
import LibRe.Lib.Leb128

namespace LibRe.AV1

open Leb128 List

variable {s : List (Nat × Bool)} {n : Nat}

/-! ## Sizes -/

/-- The longest fragment of a unit of `c` bytes that fits into `free` bytes
together with its length. -/
def fragLen (free c : Nat) : Nat :=
  let n := min c (free - 1)
  if n + groups n > free then free - groups n else n

/-- No element can be added: the packet is full. From the fourth element on an
element takes two bytes at least. -/
def Full (elem free : Nat) : Prop := free = 0 ∨ (3 < elem ∧ free < 2)

/-- The element has a length field: always from the fourth on, and before that
if it leaves room for one more element behind it. -/
def Prefixed (elem free c : Nat) (last : Bool) : Prop :=
  3 < elem ∨ (last = false ∧ c < free ∧
    fragLen free c + groups (fragLen free c) + (if elem > 2 then 2 else 1) ≤ free)

instance (elem free : Nat) : Decidable (Full elem free) := inferInstanceAs (Decidable (_ ∨ _))

instance (elem free c : Nat) (last : Bool) : Decidable (Prefixed elem free c last) :=
  inferInstanceAs (Decidable (_ ∨ _))

/-- Where the layout stands: the number of the next element of the packet, the
bytes that are free, and the sizes of what is left, each with whether it is the
last unit of the bitstream. -/
structure Place where
  elem : Nat
  free : Nat
  sizes : List (Nat × Bool)

/-- What is left of the first size. -/
def popSize (n : Nat) : List (Nat × Bool) → List (Nat × Bool)
  | [] => []
  | (c, last) :: s => if n < c then (c - n, last) :: s else s

/-- One step of the layout in packets with `maxlen` bytes of elements. -/
def Place.next (maxlen : Nat) (p : Place) : Place :=
  match p.sizes with
  | [] => p
  | (c, last) :: _ =>
    if Full p.elem p.free then { p with elem := 1, free := maxlen }
    else if Prefixed p.elem p.free c last then
      let n := fragLen p.free c
      { elem := p.elem + 1, free := p.free - (n + groups n), sizes := popSize n p.sizes }
    else { elem := 1, free := maxlen, sizes := popSize (min c p.free) p.sizes }

/-- The unit does not fit with its length field although it fits without, and
the longest fragment that does fit has a shorter length field. -/
def Place.Corner (p : Place) : Prop :=
  match p.sizes with
  | [] => False
  | (c, last) :: _ =>
    p.elem ≤ 2 ∧ last = false ∧ c < p.free ∧ p.free < c + groups c ∧
      groups (p.free - groups c) < groups c

/-- No place of the layout is such a corner. -/
def NoCorner (maxlen : Nat) (p : Place) : Prop := ∀ i, ¬ ((Place.next maxlen)^[i] p).Corner

variable {maxlen elem free c : Nat} {last : Bool}

theorem noCorner_iff (p : Place) :
    NoCorner maxlen p ↔ ¬ p.Corner ∧ NoCorner maxlen (p.next maxlen) := by
  constructor
  · intro h
    exact ⟨h 0, fun i => h (i + 1)⟩
  · rintro ⟨h0, h⟩ i
    cases i with
    | zero => exact h0
    | succ i => exact h i

theorem noCorner_nil (elem free : Nat) : NoCorner maxlen ⟨elem, free, []⟩ := by
  intro i
  have hstay : (Place.next maxlen)^[i] ⟨elem, free, []⟩ = ⟨elem, free, []⟩ :=
    Function.iterate_fixed rfl i
  rw [hstay]
  exact id

/-- The fragment is not empty, is a part of the unit and fits. -/
theorem fragLen_spec (hc : 1 ≤ c) (hfree : 2 ≤ free) :
    1 ≤ fragLen free c ∧ fragLen free c ≤ c ∧
      fragLen free c + groups (fragLen free c) ≤ free := by
  generalize hn : min c (free - 1) = n
  have hdiv := groups_le_div n
  unfold fragLen
  simp only [hn]
  by_cases hfit : n + groups n > free
  · rw [if_pos hfit]
    have hmono := groups_mono (show free - groups n ≤ n by omega)
    refine ⟨by omega, by omega, by omega⟩
  · rw [if_neg hfit]
    omega

/-- A fragment with a length field that is not the whole rest of its unit leaves
at most one byte of the packet. -/
theorem free_after_fragment (h : fragLen free c < c) (hfree : 1 ≤ free) :
    free ≤ fragLen free c + groups (fragLen free c) + 1 := by
  generalize hn : min c (free - 1) = n
  unfold fragLen at h ⊢
  simp only [hn] at h ⊢
  by_cases hfit : n + groups n > free
  · rw [if_pos hfit]
    have hgap := groups_le_groups_sub (show n < free - groups n + groups n by omega)
    omega
  · rw [if_neg hfit] at h ⊢
    omega

/-- The fragments among the first three elements that are cut although they have
a length field: exactly the corner. -/
theorem corner_iff (s : List (Nat × Bool)) :
    Place.Corner ⟨elem, free, (c, last) :: s⟩ ↔
      elem ≤ 3 ∧ Prefixed elem free c last ∧ fragLen free c < c := by
  have hdiv := groups_le_div c
  show elem ≤ 2 ∧ last = false ∧ c < free ∧ free < c + groups c ∧
    groups (free - groups c) < groups c ↔ _
  unfold Prefixed
  by_cases hlt : c < free
  · have hmin : min c (free - 1) = c := by omega
    by_cases hover : c + groups c > free
    · have hval : fragLen free c = free - groups c := by
        simp [fragLen, hmin, hover]
      have hgap := groups_le_groups_sub (show c < free - groups c + groups c by omega)
      rw [hval]
      constructor
      · rintro ⟨he, hl, -, -, hg⟩
        exact ⟨by omega, .inr ⟨hl, hlt, by rw [if_neg (by omega)]; omega⟩, by omega⟩
      rintro ⟨he, h | ⟨hl, -, hfit⟩, -⟩
      · omega
      · by_cases h3 : elem > 2
        · grind
        · rw [if_neg h3] at hfit
          exact ⟨by omega, hl, hlt, hover, by omega⟩
    · have hval : fragLen free c = c := by
        simp [fragLen, hmin, hover]
      constructor
      · omega
      · omega
  · constructor
    · omega
    · omega

theorem next_full (h : Full elem free) :
    Place.next maxlen ⟨elem, free, (c, last) :: s⟩ = ⟨1, maxlen, (c, last) :: s⟩ := if_pos h

theorem next_bare (hf : ¬ Full elem free) (hp : ¬ Prefixed elem free c last) :
    Place.next maxlen ⟨elem, free, (c, last) :: s⟩
      = ⟨1, maxlen, popSize (min c free) ((c, last) :: s)⟩ :=
  (if_neg hf).trans (if_neg hp)

theorem next_prefixed (hf : ¬ Full elem free)
    (hp : Prefixed elem free c last) (hn : fragLen free c = n) :
    Place.next maxlen ⟨elem, free, (c, last) :: s⟩
      = ⟨elem + 1, free - (n + groups n), popSize n ((c, last) :: s)⟩ := by
  subst hn
  exact (if_neg hf).trans (if_pos hp)

/-- An element with a length field among the first three leaves room for the
element behind it. -/
theorem not_full_after (he : elem ≤ 3) (hp : Prefixed elem free c last)
    (hn : fragLen free c = n) : ¬ Full (elem + 1) (free - (n + groups n)) := by
  rcases hp with h | ⟨-, -, hfit⟩
  · omega
  · unfold Full
    by_cases h3 : elem > 2
    · grind
    · grind

/-! ## Bytes -/

/-- Units that wait to be sent, with what is left of the first one in front;
each with whether it is the last of the bitstream. -/
abbrev Queue := List (Bytes × Bool)

/-- The sizes of a queue. -/
def Queue.sizes (q : Queue) : List (Nat × Bool) := q.map fun e => (e.1.length, e.2)

/-- The queue without the first `n` bytes of its first unit. -/
def Queue.pop (n : Nat) : Queue → Queue
  | [] => []
  | (o, last) :: q => if n < o.length then (o.drop n, last) :: q else q

/-- The number of bytes of a queue. -/
def Queue.total (q : Queue) : Nat := (q.map fun e => e.1.length).sum

/-- No unit of the queue is empty. -/
def Queue.Proper (q : Queue) : Prop := ∀ e ∈ q, e.1 ≠ []

/-- The elements one packet takes from a queue. `bare` says that the last
element has no length field, `y` that its unit goes on in the next packet;
`cuts` counts the units that are cut before the last element. -/
inductive Fill : (elem free : Nat) → Queue → (elems : List Bytes) → (bare y : Bool) → Queue →
    (cuts : Nat) → Prop where
  | done {elem free : Nat} : Fill elem free [] [] false false [] 0
  | full {elem free : Nat} {q : Queue} (h : Full elem free) (hq : q ≠ []) :
      Fill elem free q [] false false q 0
  | bare {elem free n : Nat} {o : Bytes} {last : Bool} {q : Queue} (hf : ¬ Full elem free)
      (hp : ¬ Prefixed elem free o.length last) (hn : min o.length free = n) :
      Fill elem free ((o, last) :: q) [o.take n] true (decide (n < o.length))
        (Queue.pop n ((o, last) :: q)) 0
  | final {elem free n : Nat} {o : Bytes} {last bare y : Bool} {q q' : Queue} {cuts : Nat}
      (hf : ¬ Full elem free) (hp : Prefixed elem free o.length last)
      (hn : fragLen free o.length = n)
      (rest : Fill (elem + 1) (free - (n + groups n)) (Queue.pop n ((o, last) :: q))
        [] bare y q' cuts) :
      Fill elem free ((o, last) :: q) [o.take n] false (decide (n < o.length)) q' 0
  | cons {elem free n : Nat} {o e : Bytes} {es : List Bytes} {last bare y : Bool}
      {q q' : Queue} {cuts : Nat} (hf : ¬ Full elem free) (hp : Prefixed elem free o.length last)
      (hn : fragLen free o.length = n)
      (rest : Fill (elem + 1) (free - (n + groups n)) (Queue.pop n ((o, last) :: q))
        (e :: es) bare y q' cuts) :
      Fill elem free ((o, last) :: q) (o.take n :: e :: es) bare y q'
        (cuts + if n < o.length then 1 else 0)

/-- A packet: its elements, whether the last has no length field, and Y. -/
structure Spec where
  elems : List Bytes
  bare : Bool
  y : Bool

/-- The packets a queue is sent in, with the number of cuts. -/
inductive Packs (maxlen : Nat) : Queue → List Spec → Nat → Prop where
  | nil : Packs maxlen [] [] 0
  | cons {q q' : Queue} {elems : List Bytes} {bare y : Bool} {cuts n : Nat} {ps : List Spec}
      (hq : q ≠ []) (first : Fill 1 maxlen q elems bare y q' cuts) (rest : Packs maxlen q' ps n) :
      Packs maxlen q (⟨elems, bare, y⟩ :: ps) (cuts + n)

/-- The bytes of a packet's elements, with their length fields. -/
def payload (bare : Bool) : List Bytes → Bytes
  | [] => []
  | [e] => if bare then e else encode 9 e.length ++ e
  | e :: e' :: es => encode 9 e.length ++ e ++ payload bare (e' :: es)

variable {q q' : Queue} {elems : List Bytes} {bare y : Bool} {cuts : Nat}

theorem pop_cons (n : Nat) (o : Bytes) (last : Bool) (q : Queue) :
    Queue.pop n ((o, last) :: q) = if n < o.length then (o.drop n, last) :: q else q := rfl

theorem sizes_cons (o : Bytes) (last : Bool) (q : Queue) :
    Queue.sizes ((o, last) :: q) = (o.length, last) :: q.sizes := rfl

theorem sizes_pop (n : Nat) (q : Queue) : (Queue.pop n q).sizes = popSize n q.sizes := by
  cases q with
  | nil => rfl
  | cons e q =>
    rw [pop_cons, sizes_cons, popSize]
    split
    · rw [sizes_cons, length_drop]
    · rfl

theorem proper_pop (h : q.Proper) : (Queue.pop n q).Proper := by
  cases q with
  | nil => exact h
  | cons e q =>
    intro e he
    rw [pop_cons] at he
    split at he
    · rcases mem_cons.mp he with rfl | he
      · simp
        omega
      · exact h e (mem_cons_of_mem _ he)
    · exact h e (mem_cons_of_mem _ he)

theorem length_pos_of_proper {o : Bytes} (h : Queue.Proper ((o, last) :: q)) : 1 ≤ o.length :=
  length_pos_iff.mpr (h (o, last) mem_cons_self)

theorem total_cons (o : Bytes) (last : Bool) (q : Queue) :
    Queue.total ((o, last) :: q) = o.length + q.total := sum_cons

theorem total_pop {o : Bytes} (last : Bool) (q : Queue) (hn : n ≤ o.length) :
    (Queue.pop n ((o, last) :: q)).total + n = Queue.total ((o, last) :: q) := by
  rw [pop_cons, total_cons]
  split
  · simp [total_cons]
    omega
  · omega

theorem Fill.proper (h : Fill elem free q elems bare y q' cuts) (hq : q.Proper) : q'.Proper := by
  induction h with
  | done | full => exact hq
  | bare => exact proper_pop hq
  | final _ _ _ _ ih | cons _ _ _ _ ih => exact ih (proper_pop hq)

/-- Nothing is taken from a queue only when the packet is full or the queue empty. -/
theorem Fill.of_nil (h : Fill elem free q [] bare y q' cuts) :
    q' = q ∧ cuts = 0 ∧ (Full elem free ∨ q = []) := by
  cases h with
  | done => exact ⟨rfl, rfl, .inr rfl⟩
  | full h _ => exact ⟨rfl, rfl, .inl h⟩

theorem Fill.bare_of_nil (h : Fill elem free q [] bare y q' cuts) : bare = false := by
  cases h with
  | done | full => rfl

/-- From a place that is not full something is taken. -/
theorem Fill.of_cons {e : Bytes} {es : List Bytes}
    (h : Fill elem free q (e :: es) bare y q' cuts) : ¬ Full elem free := by
  cases h with
  | bare hf _ _ | final hf _ _ _ | cons hf _ _ _ => exact hf

/-- The layout of a packet goes on at the place where the next packet begins,
and has a corner for every cut and no other. -/
theorem Fill.noCorner_iff (h : Fill elem free q elems bare y q' cuts) (hq : q.Proper) :
    NoCorner maxlen ⟨elem, free, q.sizes⟩ ↔ cuts = 0 ∧ NoCorner maxlen ⟨1, maxlen, q'.sizes⟩ := by
  induction h with
  | done => exact ⟨fun _ => ⟨rfl, noCorner_nil _ _⟩, fun _ => noCorner_nil _ _⟩
  | @full elem free q hf hne =>
    cases q with
    | nil => exact absurd rfl hne
    | cons e q =>
      obtain ⟨o, last⟩ := e
      have hno : ¬ Place.Corner ⟨elem, free, Queue.sizes ((o, last) :: q)⟩ := by
        rintro ⟨he, -, hlt, -⟩
        simp only at he hlt
        rcases hf with h | ⟨h, -⟩ <;> omega
      rw [AV1.noCorner_iff, sizes_cons, next_full hf]
      exact ⟨fun h => ⟨rfl, h.2⟩, fun h => ⟨hno, h.2⟩⟩
  | @bare elem free n o last q hf hp hn =>
    have hno : ¬ Place.Corner ⟨elem, free, (o.length, last) :: q.sizes⟩ :=
      fun h => hp ((corner_iff _).mp h).2.1
    rw [AV1.noCorner_iff, sizes_pop, sizes_cons, next_bare hf hp, hn]
    exact ⟨fun h => ⟨rfl, h.2⟩, fun h => ⟨hno, h.2⟩⟩
  | @final elem free n o last bare y q q' cuts hf hp hn rest ih =>
    obtain ⟨-, hcuts, hfull⟩ := rest.of_nil
    -- a corner would have left room for one more element
    have hno : ¬ Place.Corner ⟨elem, free, (o.length, last) :: q.sizes⟩ := by
      intro h
      obtain ⟨he, -, hlt⟩ := (corner_iff _).mp h
      rcases hfull with hfull | hnil
      · exact not_full_after he hp hn hfull
      · simp_all [pop_cons]
    have ih := ih (proper_pop hq)
    rw [sizes_pop, sizes_cons] at ih
    rw [AV1.noCorner_iff, sizes_cons, next_prefixed hf hp hn, ih]
    exact ⟨fun h => ⟨rfl, h.2.2⟩, fun h => ⟨hno, hcuts, h.2⟩⟩
  | @cons elem free n o e es last bare y q q' cuts hf hp hn rest ih =>
    have hcorner : Place.Corner ⟨elem, free, (o.length, last) :: q.sizes⟩ ↔ n < o.length := by
      rw [corner_iff, hn]
      refine ⟨fun h => h.2.2, fun hlt => ⟨?_, hp, hlt⟩⟩
      -- from the fourth element on a cut leaves the packet full
      by_contra he
      have hleft := free_after_fragment (show fragLen free o.length <
        o.length by rw [hn]; exact hlt) (by unfold Full at hf; omega)
      rw [hn] at hleft
      exact rest.of_cons (.inr ⟨by omega, by omega⟩)
    have ih := ih (proper_pop hq)
    rw [sizes_pop, sizes_cons] at ih
    rw [AV1.noCorner_iff, sizes_cons, next_prefixed hf hp hn, ih, hcorner]
    split
    · omega
    · simp
      omega

/-- The layout of a whole queue has a corner exactly when a unit is cut. -/
theorem Packs.noCorner_iff {ps : List Spec} (h : Packs maxlen q ps n) (hq : q.Proper) :
    NoCorner maxlen ⟨1, maxlen, q.sizes⟩ ↔ n = 0 := by
  induction h with
  | nil => exact ⟨fun _ => rfl, fun _ => noCorner_nil _ _⟩
  | cons _ first _ ih =>
    grind [Fill.noCorner_iff, Fill.proper]

end LibRe.AV1
