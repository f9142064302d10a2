/-
LibRe.Lib.Stream — a stream that arrives in segments.

A receiver keeps the units it could not use yet. When a segment arrives it
appends the segment to them and reads one item after the other until the rest
is incomplete (`wait`) or it gives the stream up (`stop`). `feed` is one
segment, `feedAll` a sequence of them.

How the stream is cut into segments does not matter when two things hold of
the function that reads one item: it answers the same when more units follow
(`Incremental`), and reading an incomplete item again gives what reading it the
first time would have given (`Resumes`). The second is asked only where a
segment really ends (`AtCuts`), so that a reader that breaks it in some places can be used
in all others. Nothing here mentions a protocol.
-/
import Mathlib.Tactic

namespace LibRe.Stream

open List

/-- What a reader makes of the units at hand. -/
inductive Step (σ ε : Type) where
  | wait (evs : List ε) (s : σ)
  | take (n : Nat) (evs : List ε) (s : σ)
  | stop (evs : List ε)

variable {σ β ε : Type}

/-- What happens while the item is read. -/
def Step.events : Step σ ε → List ε
  | .wait evs _ => evs
  | .take _ evs _ => evs
  | .stop evs => evs

/-- The receiver after some segments: what happened, and its state with the
units it keeps, unless it has given up. -/
abbrev Result (σ β ε : Type) := List ε × Option (σ × List β)

/-- Events in front of a result. -/
def after (evs : List ε) (r : Result σ β ε) : Result σ β ε := (evs ++ r.1, r.2)

@[simp] theorem after_nil (r : Result σ β ε) : after [] r = r := rfl

theorem after_after (e₁ e₂ : List ε) (r : Result σ β ε) :
    after e₁ (after e₂ r) = after (e₁ ++ e₂) r := by
  simp [after, append_assoc]

variable (next : σ → List β → Step σ ε)

/-- At most `fuel` items are read, one after the other. -/
def drain : Nat → σ → List β → Result σ β ε
  | 0, s, xs => ([], some (s, xs))
  | fuel + 1, s, xs =>
    match next s xs with
    | .wait evs s' => (evs, some (s', xs))
    | .take n evs s' => after evs (drain fuel s' (xs.drop n))
    | .stop evs => (evs, none)

/-- One segment. -/
def feed : Option (σ × List β) → List β → Result σ β ε
  | none, _ => ([], none)
  | some (s, xs), seg => drain next (xs ++ seg).length s (xs ++ seg)

/-- One segment after the other. -/
def feedAll : Option (σ × List β) → List (List β) → Result σ β ε
  | r, [] => ([], r)
  | r, seg :: segs => after (feed next r seg).1 (feedAll (feed next r seg).2 segs)

/-- The reader's answer stays the same when more units follow. -/
structure Incremental : Prop where
  empty : ∀ s, next s [] = .wait [] s
  take_bounds : ∀ s xs n evs s', next s xs = .take n evs s' → 0 < n ∧ n ≤ xs.length
  take_append : ∀ s xs n evs s' ys, next s xs = .take n evs s' →
    next s (xs ++ ys) = .take n evs s'
  stop_append : ∀ s xs evs ys, next s xs = .stop evs → next s (xs ++ ys) = .stop evs

/-- An incomplete item is read again later as if for the first time. -/
def Resumes (s : σ) (xs : List β) : Prop :=
  ∀ evs s', next s xs = .wait evs s' → evs = [] ∧ ∀ ys, next s' (xs ++ ys) = next s (xs ++ ys)

/-- The states and rests on the way through `xs`. -/
inductive Reaches : σ → List β → σ → List β → Prop where
  | here (s : σ) (xs : List β) : Reaches s xs s xs
  | take {s xs n evs s₁ s₂ rest} (item : next s xs = .take n evs s₁)
      (behind : Reaches s₁ (xs.drop n) s₂ rest) : Reaches s xs s₂ rest

variable {next} {s s' : σ} {xs : List β} {evs : List ε}

theorem Reaches.of_wait {s₁ : σ} {rest : List β}
    (hwait : next s xs = .wait evs s') (h : Reaches next s xs s₁ rest) : s₁ = s ∧ rest = xs := by
  cases h with
  | here => exact ⟨rfl, rfl⟩
  | take item _ =>
    simp_all

/-! ## Reading without fuel -/

/-- One item is read in every round, so the number of units is enough fuel. -/
theorem drain_fuel (inc : Incremental next) (m : Nat) :
    ∀ (n : Nat) (s : σ) (xs : List β), xs.length ≤ m → xs.length ≤ n →
      drain next m s xs = drain next n s xs := by
  have hempty : ∀ n s, drain next n s [] = ([], some (s, [])) := by
    intro n s
    cases n with
    | zero => rfl
    | succ n => rw [drain, inc.empty]
  induction m with
  | zero =>
    simp [hempty]
  | succ m ih =>
    intro n s xs hm hn
    cases n with
    | zero => rw [length_eq_zero_iff.mp (Nat.le_zero.mp hn), hempty, hempty]
    | succ n =>
      rw [drain, drain]
      cases hnext : next s xs with
      | wait _ _ | stop _ => rfl
      | take k evs s' =>
        obtain ⟨hk, -⟩ := inc.take_bounds _ _ _ _ _ hnext
        have hdrop := length_drop (i := k) (l := xs)
        exact congrArg (after evs) (ih n s' _ (by omega) (by omega))

/-- All items that are there. -/
def drainAll (next : σ → List β → Step σ ε) (s : σ) (xs : List β) : Result σ β ε :=
  drain next xs.length s xs

theorem drainAll_wait (inc : Incremental next)
    (h : next s xs = .wait evs s') : drainAll next s xs = (evs, some (s', xs)) := by
  rw [drainAll, drain_fuel inc _ (xs.length + 1) s xs (le_refl _) (Nat.le_succ _), drain, h]

theorem drainAll_stop (inc : Incremental next)
    (h : next s xs = .stop evs) : drainAll next s xs = (evs, none) := by
  rw [drainAll, drain_fuel inc _ (xs.length + 1) s xs (le_refl _) (Nat.le_succ _), drain, h]

theorem drainAll_take (inc : Incremental next) {n : Nat} (h : next s xs = .take n evs s') :
    drainAll next s xs = after evs (drainAll next s' (xs.drop n)) := by
  have hdrop := length_drop (i := n) (l := xs)
  rw [drainAll, drain_fuel inc _ (xs.length + 1) s xs (le_refl _) (Nat.le_succ _), drain, h]
  exact congrArg (after evs) (drain_fuel inc _ _ _ _ (by omega) (le_refl _))

/-- What holds of the events of every item holds of all of them, if it is kept
when lists of events are put together. -/
theorem drainAll_events {P : List ε → Prop} (nil : P []) (append : ∀ a b, P a → P b → P (a ++ b))
    (step : ∀ s xs, P (next s xs).events) (s : σ) (xs : List β) : P (drainAll next s xs).1 := by
  rw [drainAll]
  generalize xs.length = fuel
  induction fuel generalizing s xs with
  | zero => exact nil
  | succ fuel ih =>
    have hstep := step s xs
    rw [drain]
    cases hnext : next s xs with
    | wait _ _ | stop _ => rw [hnext] at hstep; exact hstep
    | take n evs s' =>
      rw [hnext] at hstep
      exact append _ _ hstep (ih s' _)

theorem feed_some (s : σ) (xs seg : List β) :
    feed next (some (s, xs)) seg = drainAll next s (xs ++ seg) := rfl

/-! ## Segments -/

/-- Reading what is there first and the rest when it arrives. -/
theorem drainAll_append (inc : Incremental next) (ys : List β)
    (hres : ∀ s₁ rest, Reaches next s xs s₁ rest → Resumes next s₁ rest) :
    drainAll next s (xs ++ ys) =
      after (drainAll next s xs).1 (feed next (drainAll next s xs).2 ys) := by
  induction hlen : xs.length using Nat.strongRecOn generalizing s xs with
  | ind len ih =>
    cases hnext : next s xs with
    | wait evs s' =>
      obtain ⟨rfl, hagain⟩ := hres s xs (.here s xs) _ _ hnext
      rw [drainAll_wait inc hnext, feed_some]
      -- the same item, now with more units behind it
      have hsame : next s' (xs ++ ys) = next s (xs ++ ys) := hagain ys
      rw [after_nil]
      cases h : next s (xs ++ ys) with
      | wait evs s₁ => rw [drainAll_wait inc h, drainAll_wait inc (hsame.trans h)]
      | stop evs => rw [drainAll_stop inc h, drainAll_stop inc (hsame.trans h)]
      | take n evs s₁ => rw [drainAll_take inc h, drainAll_take inc (hsame.trans h)]
    | stop evs =>
      rw [drainAll_stop inc hnext, drainAll_stop inc (inc.stop_append _ _ _ ys hnext)]
      simp [after, feed]
    | take n evs s' =>
      obtain ⟨hn, hle⟩ := inc.take_bounds _ _ _ _ _ hnext
      have hdrop : (xs.drop n).length < len := by
        simp
        omega
      have hrest := ih _ hdrop (fun s₁ rest hr => hres s₁ rest (.take hnext hr)) rfl
      rw [drainAll_take inc hnext, drainAll_take inc (inc.take_append _ _ _ _ _ ys hnext),
        drop_append_of_le_length hle, hrest, after_after]
      rfl

/-- A property of the receiver at every item it comes to in a segment that another
segment follows. -/
def AtCuts (P : σ → List β → Prop) (next : σ → List β → Step σ ε) :
    Option (σ × List β) → List (List β) → Prop
  | some (s, xs), seg :: seg' :: segs =>
    (∀ s₁ rest, Reaches next s (xs ++ seg) s₁ rest → P s₁ rest) ∧
      AtCuts P next (feed next (some (s, xs)) seg).2 (seg' :: segs)
  | _, _ => True

theorem AtCuts.mono {P Q : σ → List β → Prop} (himp : ∀ s xs, P s xs → Q s xs)
    (segs : List (List β)) : ∀ {r : Option (σ × List β)}, AtCuts P next r segs →
    AtCuts Q next r segs := by
  induction segs with
  | nil => intro r _; cases r <;> trivial
  | cons seg segs ih =>
    intro r h
    match r, segs with
    | none, _ | some _, [] => trivial
    | some (s, xs), seg' :: segs =>
      exact ⟨fun s₁ rest hr => himp _ _ (h.1 s₁ rest hr), ih h.2⟩

theorem atCuts_true (segs : List (List β)) :
    ∀ r : Option (σ × List β), AtCuts (fun _ _ => True) next r segs := by
  induction segs with
  | nil => intro r; cases r <;> trivial
  | cons seg segs ih =>
    intro r
    match r, segs with
    | none, _ | some _, [] => trivial
    | some (s, xs), seg' :: segs => exact ⟨fun _ _ _ => trivial, ih _⟩

theorem feedAll_none (segs : List (List β)) : feedAll next none segs = ([], none) := by
  induction segs with
  | nil => rfl
  | cons seg segs ih =>
    rw [feedAll, feed, ih]
    rfl

theorem feedAll_cons (inc : Incremental next) (segs : List (List β)) :
    ∀ (seg : List β) (s : σ) (xs : List β), AtCuts (Resumes next) next (some (s, xs))
      (seg :: segs) →
      feedAll next (some (s, xs)) (seg :: segs) = drainAll next s
        (xs ++ (seg :: segs).flatten) := by
  induction segs with
  | nil =>
    simp [feed_some, feedAll, after]
  | cons seg' segs ih =>
    intro seg s xs hres
    rw [AtCuts, feed_some] at hres
    obtain ⟨hfirst, hrest⟩ := hres
    rw [feedAll, flatten_cons, ← append_assoc, drainAll_append inc _ hfirst, feed_some]
    congr 1
    cases hr : (drainAll next s (xs ++ seg)).2 with
    | none => rw [feedAll_none]; rfl
    | some r =>
      rw [hr] at hrest
      exact ih seg' r.1 r.2 hrest

/-- However the stream is cut, the same happens as when it arrives at once. -/
theorem feedAll_eq (inc : Incremental next) {segs : List (List β)}
    (hres : AtCuts (Resumes next) next (some (s, [])) segs) :
    feedAll next (some (s, [])) segs = drainAll next s segs.flatten := by
  cases segs with
  | nil => rfl
  | cons seg segs => exact feedAll_cons inc segs seg s [] hres

/-! ## Readers that keep nothing of an incomplete item -/

/-- The reader waits, unchanged, until an item is `ready` at the front, and what
it does then does not depend on what follows the item. -/
structure Framed (next : σ → List β → Step σ ε) (ready : List β → Prop) : Prop where
  empty : ¬ ready []
  waits : ∀ s xs, ¬ ready xs → next s xs = .wait [] s
  reads : ∀ s xs evs s', ready xs → next s xs ≠ .wait evs s'
  append : ∀ s xs ys, ready xs → next s (xs ++ ys) = next s xs
  bounds : ∀ s xs n evs s', next s xs = .take n evs s' → 0 < n ∧ n ≤ xs.length

variable {ready : List β → Prop}

theorem Framed.ready_of_ne (h : Framed next ready) (hne : next s xs ≠ .wait [] s) : ready xs := by
  by_contra hr
  exact hne (h.waits s xs hr)

theorem Framed.incremental (h : Framed next ready) : Incremental next where
  empty := fun s => h.waits s [] h.empty
  take_bounds := h.bounds
  take_append := by
    intro s xs n evs s' ys htake
    rw [h.append s xs ys (h.ready_of_ne (by rw [htake]; nofun)), htake]
  stop_append := by
    intro s xs evs ys hstop
    rw [h.append s xs ys (h.ready_of_ne (by rw [hstop]; nofun)), hstop]

theorem Framed.resumes (h : Framed next ready) (s : σ) (xs : List β) : Resumes next s xs := by
  intro evs s' hwait
  by_cases hr : ready xs
  · exact absurd hwait (h.reads s xs evs s' hr)
  · rw [h.waits s xs hr] at hwait
    cases hwait
    exact ⟨rfl, fun _ => rfl⟩

/-- For such a reader the cut of the stream never matters. -/
theorem Framed.feedAll_eq (h : Framed next ready) (segs : List (List β)) (s : σ) :
    feedAll next (some (s, [])) segs = drainAll next s segs.flatten :=
  Stream.feedAll_eq h.incremental ((atCuts_true segs _).mono fun s xs _ => h.resumes s xs)

end LibRe.Stream
