/-
LibRe.Lib.Reader — decoders that read from the front of a list.

A reader takes units from the front and hands the rest on, or fails. Readers are
put together in sequence (`andThen`, `times`), and three things said of them go
through that: `Gives` says what holds of the values a reader returns; `Accepts` that it
reads a given list in front of anything; and `Sized` how many units it takes, which may
depend on what they are, and that what it reads does not depend on the units it leaves,
or only on how many there are. Nothing here mentions a format.
-/
import Mathlib.Tactic

namespace LibRe

open List

abbrev Reader (β ε α : Type) := List β → Except ε (α × List β)

namespace Reader

variable {β ε α γ : Type} {r : Reader β ε α} {next : α → Reader β ε γ} {a : α} {f : List β → α}
  {P : α → Prop} {size : List β → Nat} {b xs rest : List β} {n : Nat}

/-! ## Readers -/

/-- A value, and nothing read. -/
def give (a : α) : Reader β ε α := fun xs => .ok (a, xs)

def fail (err : ε) : Reader β ε α := fun _ => .error err

/-- What is made of the next `n` units. -/
def fields (err : ε) (n : Nat) (f : List β → α) : Reader β ε α := fun xs =>
  if xs.length < n then .error err else .ok (f (xs.take n), xs.drop n)

/-- The same, with a value to fall back on when there are not `n` units. -/
def fieldsOr (a : α) (n : Nat) (f : List β → α) : Reader β ε α := fun xs =>
  if xs.length < n then .ok (a, xs) else .ok (f (xs.take n), xs.drop n)

/-- At least `n` units are there. -/
def need (err : ε) (n : Nat) (r : Reader β ε α) : Reader β ε α := fun xs =>
  if xs.length < n then .error err else r xs

def andThen (r : Reader β ε α) (next : α → Reader β ε γ) : Reader β ε γ := fun xs =>
  match r xs with
  | .error err => .error err
  | .ok (a, rest) => next a rest

/-- The same reader, `n` times. -/
def times : Nat → Reader β ε α → Reader β ε (List α)
  | 0, _ => give []
  | n + 1, r => andThen r fun a => andThen (times n r) fun as => give (a :: as)

/-- A reader that knows how many units were there. -/
def byLength (r : Nat → Reader β ε α) : Reader β ε α := fun xs => r xs.length xs

/-- A reader with the units it has taken. -/
def consumed (r : Reader β ε α) : Reader β ε (List β × α) := fun xs =>
  match r xs with
  | .error err => .error err
  | .ok (a, rest) => .ok ((xs.take (xs.length - rest.length), a), rest)

/-- A reader that sees the next `n` units only. -/
def within (err : ε) (n : Nat) (r : Reader β ε α) : Reader β ε α := fun xs =>
  if xs.length < n then .error err
  else
    match r (xs.take n) with
    | .error err => .error err
    | .ok (a, rest) => .ok (a, rest ++ xs.drop n)

variable {c : γ} {err : ε} {Q : γ → Prop}

theorem andThen_ok (h : andThen r next xs = .ok (c, rest)) :
    ∃ a ys, r xs = .ok (a, ys) ∧ next a ys = .ok (c, rest) := by
  rw [andThen] at h
  split at h
  · cases h
  · exact ⟨_, _, ‹_›, h⟩

theorem need_ok (h : need err n r xs = .ok (a, rest)) : n ≤ xs.length ∧ r xs = .ok (a, rest) := by
  rw [need] at h
  split at h
  · cases h
  · exact ⟨Nat.le_of_not_lt ‹_›, h⟩

theorem fields_ok (h : fields err n f xs = .ok (a, rest)) :
    n ≤ xs.length ∧ a = f (xs.take n) ∧ rest = xs.drop n := by
  rw [fields] at h
  split at h
  · cases h
  · cases h
    exact ⟨Nat.le_of_not_lt ‹_›, rfl, rfl⟩

theorem fieldsOr_of_le (h : n ≤ xs.length) :
    (fieldsOr a n f : Reader β ε α) xs = .ok (f (xs.take n), xs.drop n) :=
  if_neg (Nat.not_lt.mpr h)

theorem fieldsOr_of_lt (h : xs.length < n) : (fieldsOr a n f : Reader β ε α) xs = .ok (a, xs) :=
  if_pos h

theorem consumed_ok (h : consumed r xs = .ok ((b, a), rest)) :
    r xs = .ok (a, rest) ∧ b = xs.take (xs.length - rest.length) := by
  rw [consumed] at h
  split at h
  · cases h
  · cases h
    exact ⟨‹_›, rfl⟩

/-! ## What is returned -/

/-- What holds of every value the reader returns. -/
def Gives (r : Reader β ε α) (P : α → Prop) : Prop := ∀ xs a rest, r xs = .ok (a, rest) → P a

theorem gives_give (h : P a) : Gives (give a : Reader β ε α) P := by
  intro xs b rest hr
  cases hr
  exact h

theorem gives_fail (err : ε) (P : α → Prop) : Gives (fail err : Reader β ε α) P := by
  intro xs a rest hr
  cases hr

theorem gives_fields (err : ε)
    (h : ∀ xs : List β, xs.length = n → P (f xs)) : Gives (fields err n f) P := by
  intro xs a rest hr
  obtain ⟨hle, rfl, -⟩ := fields_ok hr
  exact h _ (length_take_of_le hle)

theorem Gives.andThen
    (h : Gives r P) (hnext : ∀ a, P a → Gives (next a) Q) : Gives (andThen r next) Q := by
  intro xs c rest hc
  obtain ⟨a, ys, hr, hn⟩ := andThen_ok hc
  exact hnext a (h _ _ _ hr) _ _ _ hn

/-- The value of the second reader alone. -/
theorem gives_andThen (hnext : ∀ a, Gives (next a) Q) : Gives (andThen r next) Q :=
  Gives.andThen (P := fun _ => True) (fun _ _ _ _ => trivial) fun a _ => hnext a

theorem Gives.need (h : Gives r P) (err : ε) (n : Nat) : Gives (need err n r) P :=
  fun xs a rest hr => h xs a rest (need_ok hr).2

/-! ## Reading a given list -/

/-- The reader reads `b` as `a`, whatever follows it. -/
def Accepts (r : Reader β ε α) (b : List β) (a : α) : Prop := ∀ ys, r (b ++ ys) = .ok (a, ys)

theorem accepts_give (a : α) : Accepts (give a : Reader β ε α) [] a := fun _ => rfl

theorem accepts_fields (err : ε) (h : b.length = n)
    (hf : f b = a) : Accepts (fields err n f) b a := by
  intro ys
  subst hf
  rw [fields, if_neg (by rw [length_append]; omega), take_left' h, drop_left' h]

theorem accepts_fieldsOr (a : α) {c : α} (h : b.length = n)
    (hf : f b = c) : Accepts (fieldsOr a n f : Reader β ε α) b c := by
  intro ys
  subst hf
  rw [fieldsOr, if_neg (by rw [length_append]; omega), take_left' h, drop_left' h]

theorem Accepts.andThen {b' : List β}
    (h : Accepts r b a) (hnext : Accepts (next a) b' c) : Accepts (andThen r next) (b ++ b') c := by
  intro ys
  rw [Reader.andThen, append_assoc, h]
  exact hnext ys

/-- A value made of what was read. -/
theorem Accepts.map (h : Accepts r b a) (f : α → γ) :
    Accepts (Reader.andThen r fun a => give (f a)) b (f a) := by
  intro ys
  rw [Reader.andThen, h]
  rfl

theorem Accepts.need (h : Accepts r b a) (err : ε)
    (hle : n ≤ b.length) : Accepts (need err n r) b a := by
  intro ys
  rw [Reader.need, if_neg (by rw [length_append]; omega)]
  exact h ys

/-- A reader that reads a list to its end reads it inside any other. -/
theorem accepts_within (h : r b = .ok (a, [])) (err : ε) (hn : n = b.length) :
    Accepts (within err n r) b a := by
  intro ys
  rw [within, if_neg (by rw [length_append]; omega), hn, take_left, h, drop_left]
  rfl

theorem Accepts.times {enc : α → List β} (as : List α)
    (h : ∀ a ∈ as, Accepts r (enc a) a) : Accepts (times as.length r) (as.flatMap enc) as := by
  induction as with
  | nil => exact accepts_give []
  | cons a as ih =>
    have hrest := ih fun x hx => h x (mem_cons_of_mem _ hx)
    exact (h a mem_cons_self).andThen (hrest.map (a :: ·))

/-! ## Reading a part of a given size -/

/-- If it does not fail, the reader takes `n` units from the list. It would read them in
front of other units as well, if these are as many or there may be `any`. -/
def Sized (any : Prop) (r : Reader β ε α) (xs : List β) (n : Nat) : Prop :=
  ∀ a rest, r xs = .ok (a, rest) → rest = xs.drop n ∧ n ≤ xs.length ∧
    ∀ ys, any ∨ ys.length = rest.length → r (xs.take n ++ ys) = .ok (a, ys)

section

variable {any : Prop} {err : ε} {k : Nat}

theorem sized_give : Sized any (give a : Reader β ε α) xs 0 := by
  intro c rest h
  cases h
  exact ⟨rfl, Nat.zero_le _, fun _ _ => rfl⟩

theorem sized_fail : Sized any (fail err : Reader β ε α) xs n := by
  intro a rest h
  cases h

theorem sized_fields : Sized any (fields err n f) xs n := by
  intro a rest h
  obtain ⟨hle, rfl, rfl⟩ := fields_ok h
  exact ⟨rfl, hle, fun ys _ => accepts_fields err (length_take_of_le hle) rfl ys⟩

theorem sized_fieldsOr (h : n ≤ xs.length) : Sized any (fieldsOr a n f : Reader β ε α) xs n := by
  intro c rest hr
  rw [fieldsOr_of_le h] at hr
  cases hr
  exact ⟨rfl, h, fun ys _ => accepts_fieldsOr a (length_take_of_le h) rfl ys⟩

variable {r' : Reader β ε α}

theorem sized_ite {c : Prop} [Decidable c] (h : c → Sized any r xs n)
    (h' : ¬ c → Sized any r' xs n) :
    Sized any (if c then r else r') xs n := by
  split
  · exact h ‹_›
  · exact h' ‹_›

theorem Sized.andThen (h : Sized any r xs n)
    (hnext : ∀ a, r xs = .ok (a, xs.drop n) → Sized any (next a) (xs.drop n) k) :
    Sized any (andThen r next) xs (n + k) := by
  intro c rest hc
  obtain ⟨a, ys, hr, hn⟩ := andThen_ok hc
  obtain ⟨rfl, hle, hfirst⟩ := h a ys hr
  obtain ⟨rfl, hle', hsecond⟩ := hnext a hr c rest hn
  rw [length_drop] at hle'
  refine ⟨drop_drop, by omega, fun zs hzs => ?_⟩
  rw [take_add, append_assoc, Reader.andThen, hfirst _ (hzs.imp_right fun hlen => ?_)]
  · exact hsecond zs hzs
  · rw [length_append, hlen, ← length_append, take_append_drop]

/-- The size may be given in another way for lists that are read. -/
theorem Sized.congr (h : Sized any r xs n)
    (hk : ∀ a rest, r xs = .ok (a, rest) → n ≤ xs.length → n = k) : Sized any r xs k := by
  intro a rest hr
  have hread := h a rest hr
  rwa [hk a rest hr hread.2.1] at hread

/-- A reader that reads like another one from lists of this length. -/
theorem Sized.of_eq (h : Sized False r xs n) (heq : ∀ ys, ys.length = xs.length → r' ys = r ys) :
    Sized False r' xs n := by
  intro a rest hr
  rw [heq xs rfl] at hr
  obtain ⟨rfl, hn, hsame⟩ := h a rest hr
  refine ⟨rfl, hn, fun ys hys => ?_⟩
  rw [heq _ (by rw [length_append, hys.resolve_left not_false, ← length_append, take_append_drop]),
    hsame ys hys]

theorem Sized.need (h : k ≤ xs.length → Sized False r xs n) : Sized False (need err k r) xs n := by
  by_cases hle : k ≤ xs.length
  · exact (h hle).of_eq fun ys hys => if_neg (by omega)
  · exact Sized.of_eq (r := fail err) sized_fail fun ys hys => if_pos (by omega)

theorem sized_byLength {r : Nat → Reader β ε α} (h : Sized False (r xs.length) xs n) :
    Sized False (byLength r) xs n :=
  h.of_eq fun ys hys => by rw [byLength, hys]

/-- Nothing is taken when the units are not there. -/
theorem sized_fieldsOr_if : Sized False (fieldsOr a n f : Reader β ε α) xs (if xs.length < n then 0
    else n) := by
  split
  · exact (sized_give (a := a)).of_eq fun _ hys => fieldsOr_of_lt (by omega)
  · exact sized_fieldsOr (by omega)

theorem Sized.consumed (h : Sized any r xs n) : Sized any (consumed r) xs n := by
  rintro ⟨c, a⟩ rest hc
  obtain ⟨hr, rfl⟩ := consumed_ok hc
  obtain ⟨rfl, hn, hsame⟩ := h a rest hr
  refine ⟨rfl, hn, fun ys hys => ?_⟩
  have htake : ∀ zs : List β, (xs.take n ++ zs).take ((xs.take n ++ zs).length - zs.length) =
      xs.take n := by
    simp
  have hxs := htake (xs.drop n)
  rw [take_append_drop] at hxs
  rw [Reader.consumed, hsame ys hys, hxs]
  simp only [htake]

/-- The size of `n` parts in sequence. -/
def timesSize (size : List β → Nat) : Nat → List β → Nat
  | 0, _ => 0
  | n + 1, xs => size xs + timesSize size n (xs.drop (size xs))

theorem Sized.times (h : ∀ xs, Sized any r xs (size xs)) (n : Nat) :
    ∀ xs, Sized any (times n r) xs (timesSize size n xs) := by
  induction n with
  | zero => exact fun _ => sized_give
  | succ n ih => exact fun xs => (h xs).andThen fun a _ => (ih _).andThen fun as _ => sized_give

theorem timesSize_const (n : Nat) : ∀ xs : List β, timesSize (fun _ => k) n xs = n * k := by
  induction n with
  | zero => simp [timesSize]
  | succ n ih =>
    intro xs
    rw [timesSize, ih, Nat.succ_mul, add_comm]

end

end Reader

end LibRe
