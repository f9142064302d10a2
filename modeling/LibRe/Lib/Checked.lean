/-
LibRe.Lib.Checked — C functions that fail, and that may do what C leaves undefined.

A function works on a state, may return an error code, and may index an array
outside its bounds or shift by more than the width of the type: such a `Fault`
is not a value of C and ends the run. `forLoop` is the counting loop that
returns the first error of its body. Its rules are for loops that read a fixed
number of units from an input in every round.
-/
import Mathlib.Tactic

namespace LibRe.Checked

/-- What C leaves undefined. -/
inductive Fault where
  | index (size i : Nat)
  | shift (n : Nat)
  deriving DecidableEq, Repr

/-- The outcome of a function: a fault, or an error code (none is success) and
the state it leaves. -/
abbrev Run (ε σ : Type) := Except Fault (Option ε × σ)

variable {ε σ α : Type}

/-- `if (err) return err;` between two calls. -/
def andThen (r : Run ε σ) (next : σ → Run ε σ) : Run ε σ :=
  match r with
  | .error f => .error f
  | .ok (some e, s) => .ok (some e, s)
  | .ok (none, s) => next s

/-- `n` rounds of a loop, from `i` on. -/
def forLoop (body : Nat → σ → Run ε σ) : Nat → Nat → σ → Run ε σ
  | 0, _, s => .ok (none, s)
  | n + 1, i, s => andThen (body i s) (forLoop body n (i + 1))

/-- `a[i] = v` -/
def put {size : Nat} (a : Vector α size) (i : Nat) (v : α) : Except Fault (Vector α size) :=
  if h : i < size then .ok (a.set i v) else .error (.index size i)

/-- `a[i][j] = v` -/
def put2 {rows size : Nat} (a : Vector (Vector α size) rows) (i j : Nat) (v : α) :
    Except Fault (Vector (Vector α size) rows) :=
  if h : i < rows then
    match put a[i] j v with
    | .error f => .error f
    | .ok row => .ok (a.set i row)
  else .error (.index rows i)

/-- `a[i]`, and what is done with it. -/
def fetch {size : Nat} (a : Vector α size) (i : Nat) (next : α → Run ε σ) : Run ε σ :=
  if h : i < size then next a[i] else .error (.index size i)

/-- `a[i][j]`, and what is done with it. -/
def fetch2 {rows size : Nat} (a : Vector (Vector α size) rows) (i j : Nat) (next : α → Run ε σ) :
    Run ε σ :=
  fetch a i fun row => fetch row j next

/-- `x << n` on 32 bits. -/
def shiftLeft (x n : Nat) : Except Fault Nat :=
  if n < 32 then .ok (x <<< n % 2 ^ 32) else .error (.shift n)

/-! ## Stores -/

variable {i j rows size : Nat}

theorem put_of_lt (a : Vector α size) (v : α) (h : i < size) :
    ∃ a', put a i v = .ok a' := ⟨_, dif_pos h⟩

variable (cols : Nat → Nat) (a : Vector (Vector α size) rows) (v : Nat → Nat → α)

theorem put2_of_lt (v : α) (hi : i < rows) (hj : j < size) : ∃ a', put2 a i j v = .ok a' := by
  obtain ⟨row, hrow⟩ := put_of_lt a[i] v hj
  refine ⟨a.set i row, ?_⟩
  rw [put2, dif_pos hi, hrow]

theorem put_of_ge (a : Vector α size) (v : α) (h : size ≤ i) :
    put a i v = .error (.index size i) := dif_neg (Nat.not_lt.mpr h)

theorem put2_of_ge (v : α) (hi : i < rows)
    (hj : size ≤ j) : put2 a i j v = .error (.index size j) := by
  rw [put2, dif_pos hi, put_of_ge _ _ hj]

/-! ## Arrays of numbers -/

/-- The number at a place. -/
def cell {size : Nat} (a : Vector Nat size) (i : Nat) : Nat := a[i]?.getD 0

/-- The number at a place of a row. -/
def cell2 {rows size : Nat} (a : Vector (Vector Nat size) rows) (i j : Nat) : Nat :=
  (a[i]?.map (cell · j)).getD 0

theorem fetch_eq (a : Vector Nat size) (h : i < size) (next : Nat → Run ε σ) :
    fetch a i next = next (cell a i) := by
  rw [fetch, dif_pos h, cell, Vector.getElem?_eq_getElem h, Option.getD_some]

theorem fetch2_eq (a : Vector (Vector Nat size) rows) (hi : i < rows) (hj : j < size)
    (next : Nat → Run ε σ) : fetch2 a i j next = next (cell2 a i j) := by
  rw [fetch2, fetch, dif_pos hi, fetch_eq _ hj, cell2, Vector.getElem?_eq_getElem hi,
    Option.map_some, Option.getD_some]

/-! ## Arrays filled from the front -/

/-- The first `n` places hold the values of `v`. -/
def upTo {size : Nat} (a : Vector α size) (v : Nat → α) (n : Nat) : Vector α size :=
  Vector.ofFn fun k => if k.val < n then v k.val else a[k]

/-- The first `n i` places of every row `i` hold the values of `v i`. -/
def table {rows size : Nat} (a : Vector (Vector α size) rows) (v : Nat → Nat → α) (n : Nat → Nat) :
    Vector (Vector α size) rows :=
  Vector.ofFn fun k => upTo a[k] (v k.val) (n k.val)

theorem upTo_zero (a : Vector α size) (v : Nat → α) : upTo a v 0 = a := by
  simp [upTo]

theorem table_zero : table a v (fun _ => 0) = a := by
  simp [upTo_zero, table]

theorem cell_upTo {n : Nat} (a : Vector Nat size) (v : Nat → Nat) (hi : i < n) (hsize : i < size) :
    cell (upTo a v n) i = v i := by
  simp [cell, upTo, hsize, hi]

theorem cell2_table (a : Vector (Vector Nat size) rows) (v : Nat → Nat → Nat) (n : Nat → Nat)
    (hi : i < rows) (hj : j < n i) (hsize : j < size) : cell2 (table a v n) i j = v i j := by
  have hrow : (table a v n)[i]? = some (upTo a[i] (v i) (n i)) := by
    simp [table, hi]
  rw [cell2, hrow, Option.map_some, Option.getD_some, cell_upTo _ _ hj hsize]

theorem put_upTo (a : Vector α size) (v : Nat → α) (h : i < size) :
    put (upTo a v i) i (v i) = .ok (upTo a v (i + 1)) := by
  rw [put, dif_pos h]
  refine congrArg Except.ok (Vector.ext fun k hk => ?_)
  by_cases heq : i = k
  · simp [upTo, heq]
  · grind [upTo]

theorem put2_table {n n' : Nat → Nat}
    (hi : i < rows) (hj : j < size) (hn : n i = j) (hn' : n' i = j + 1)
    (hother : ∀ k, k ≠ i → n' k = n k) :
    put2 (table a v n) i j (v i j) = .ok (table a v n') := by
  have hrow : (table a v n)[i] = upTo a[i] (v i) j := by simp [table, hn]
  rw [put2, dif_pos hi, hrow, put_upTo _ _ hj]
  refine congrArg Except.ok (Vector.ext fun k hk => ?_)
  by_cases heq : i = k
  · simp_all [table]
  · simp [table, heq, hother k (Ne.symm heq)]

/-- Rows below `i` are complete, and `j` places of row `i` are filled. -/
def filling (i j k : Nat) : Nat := if k < i then cols k else if k = i then j else 0

theorem filling_start : filling cols 0 0 = fun _ => 0 := by
  funext k
  simp [filling]

theorem filling_of_lt {k : Nat} (h : k < i) (j : Nat) : filling cols i j k = cols k := if_pos h

theorem filling_row (i : Nat) : filling cols i (cols i) = filling cols (i + 1) 0 := by
  funext k
  rcases lt_trichotomy k i with h | h | h
  · rw [filling, filling, if_pos h, if_pos (by omega)]
  · rw [filling, filling, if_neg (by omega), if_pos h, if_pos (by omega), h]
  · rw [filling, filling, if_neg (by omega), if_neg (by omega), if_neg (by omega), ite_self]

theorem put2_filling (cols : Nat → Nat) (hi : i < rows) (hj : j < size) :
    put2 (table a v (filling cols i j)) i j (v i j) = .ok (table a v (filling cols i (j + 1))) := by
  refine put2_table a v hi hj ?_ ?_ fun k hk => ?_
  · rw [filling, if_neg (lt_irrefl i), if_pos rfl]
  · rw [filling, if_neg (lt_irrefl i), if_pos rfl]
  · rw [filling, filling, if_neg hk, if_neg hk]

/-! ## Loops -/

@[simp] theorem andThen_some (e : ε) (s : σ) (next : σ → Run ε σ) :
    andThen (.ok (some e, s)) next = .ok (some e, s) := rfl

@[simp] theorem andThen_none (s : σ) (next : σ → Run ε σ) : andThen (.ok (none, s)) next = next s :=
  rfl

theorem andThen_eq_none {r : Run ε σ} {next : σ → Run ε σ} {s : σ}
    (h : andThen r next = .ok (none, s)) :
    ∃ s', r = .ok (none, s') ∧ next s' = .ok (none, s) := by
  rcases r with f | ⟨_ | e, s'⟩
  · cases h
  · exact ⟨s', rfl, h⟩
  · cases h

theorem andThen_assoc (r : Run ε σ) (f g : σ → Run ε σ) :
    andThen (andThen r f) g = andThen r (fun s => andThen (f s) g) := by
  rcases r with f | ⟨_ | e, s⟩ <;> rfl

theorem forLoop_add (body : Nat → σ → Run ε σ) (m n : Nat) : ∀ (i : Nat) (s : σ),
    forLoop body (m + n) i s = andThen (forLoop body m i s) (forLoop body n (i + m)) := by
  induction m with
  | zero =>
    intro i s
    rw [zero_add]
    rfl
  | succ m ih =>
    intro i s
    have hnext : forLoop body (m + n) (i + 1)
        = fun s => andThen (forLoop body m (i + 1) s) (forLoop body n (i + (m + 1))) := by
      grind
    rw [Nat.succ_add, forLoop, forLoop, andThen_assoc, hnext]

section Reading

variable {β : Type} (input : σ → List β) (k : Nat)

/-- The function reads `m` units of `k` elements each, or fails when it has read
all units there are. -/
def Reads (m : Nat) (pre post : σ → Prop) (failed : σ → Prop) (f : σ → Run ε σ) : Prop :=
  ∀ s, pre s →
    if k * m ≤ (input s).length then
      ∃ s', f s = .ok (none, s') ∧ input s' = (input s).drop (k * m) ∧ post s'
    else
      ∃ e s', f s = .ok (some e, s') ∧ input s' = (input s).drop (k * ((input s).length / k)) ∧
        failed s'

variable {input k} {inv : Nat → σ → Prop} {failed : σ → Prop} {body : Nat → σ → Run ε σ}

/-- A loop over such functions, with an invariant for each round. -/
theorem forLoop_reads {m : Nat} (hk : 0 < k) (n : Nat) : ∀ i : Nat,
    (∀ j, i ≤ j → j < i + n → Reads input k m (inv j) (inv (j + 1)) failed (body j)) →
    Reads input k (n * m) (inv i) (inv (i + n)) failed (forLoop body n i) := by
  induction n with
  | zero =>
    intro i _ s hs
    rw [Nat.zero_mul, Nat.mul_zero, if_pos (Nat.zero_le _)]
    exact ⟨s, rfl, rfl, hs⟩
  | succ n ih =>
    intro i hbody s hs
    have hfirst := hbody i (le_refl _) (by omega) s hs
    have hsplit : k * ((n + 1) * m) = k * m + k * (n * m) := by ring
    rw [hsplit, forLoop]
    by_cases hone : k * m ≤ (input s).length
    · rw [if_pos hone] at hfirst
      obtain ⟨s₁, hrun, hin, hs₁⟩ := hfirst
      have hrest := ih (i + 1) (fun j hj hlt => hbody j (by omega) (by omega)) s₁ hs₁
      have hindex : i + 1 + n = i + (n + 1) := by omega
      have hlen : (input s₁).length = (input s).length - k * m := by rw [hin, List.length_drop]
      rw [hrun, andThen_none]
      by_cases hall : k * m + k * (n * m) ≤ (input s).length
      · rw [if_pos (by omega), hindex] at hrest
        obtain ⟨s', hrun', hin', hs'⟩ := hrest
        rw [if_pos hall]
        refine ⟨s', hrun', ?_, hs'⟩
        rw [hin', hin, List.drop_drop]
      · rw [if_neg (by omega)] at hrest
        obtain ⟨e, s', hrun', hin', hs'⟩ := hrest
        rw [if_neg hall]
        refine ⟨e, s', hrun', ?_, hs'⟩
        -- the units of the first round and those behind it
        have hunits : k * m + k * (((input s).length - k * m) / k) =
            k * ((input s).length / k) := by
          have hdiv : (input s).length / k = m + ((input s).length - k * m) / k := by
            conv_lhs => rw [← Nat.add_sub_cancel' hone, add_comm, Nat.add_mul_div_left _ _ hk]
            omega
          rw [hdiv, mul_add]
        rw [hin', hlen, hin, List.drop_drop, hunits]
    · rw [if_neg hone] at hfirst
      obtain ⟨e, s', hrun, hin, hs'⟩ := hfirst
      rw [if_neg (by omega), hrun, andThen_some]
      exact ⟨e, s', rfl, hin, hs'⟩

/-- A loop over the rows of a table. -/
theorem forLoop_rows {inv : σ → Prop} {row : Nat → σ → Run ε σ} {body : Nat → Nat → σ → Run ε σ}
    {n : Nat} (hk : 0 < k) (hrow : ∀ i < rows, ∀ s, inv s → row i s = forLoop (body i) n 0 s)
    (hbody : ∀ i < rows, ∀ j < n, Reads input k 1 inv inv failed (body i j)) :
    Reads input k (rows * n) inv inv failed (forLoop row rows 0) := by
  have hone : ∀ i, 0 ≤ i → i < 0 + rows → Reads input k n inv inv failed (row i) := by
    intro i _ hi s hs
    have hloop := forLoop_reads hk n 0 (fun j _ hj => hbody i (by omega) j (by omega)) s hs
    rwa [mul_one, ← hrow i (by omega) s hs] at hloop
  exact forLoop_reads hk rows 0 hone

/-- A loop whose body stores what it has read in an array of `cap` places: it
faults when it gets to read one unit more. -/
theorem forLoop_capped {cap : Nat} (hk : 0 < k) (n : Nat)
    (hbody : ∀ j < cap, Reads input k 1 (inv j) (inv (j + 1)) failed (body j))
    (hcap : ∀ s, inv cap s → if k ≤ (input s).length then ∃ f, body cap s = .error f
      else ∃ e s', body cap s = .ok (some e, s') ∧ input s' = input s ∧ failed s')
    {s : σ} (hs : inv 0 s) :
    if cap < n ∧ k * (cap + 1) ≤ (input s).length then ∃ f, forLoop body n 0 s = .error f
    else if k * n ≤ (input s).length then
      ∃ s', forLoop body n 0 s = .ok (none, s') ∧ input s' = (input s).drop (k * n) ∧ inv n s'
    else ∃ e s', forLoop body n 0 s = .ok (some e, s') ∧ failed s' := by
  by_cases hn : n ≤ cap
  · have hloop := forLoop_reads hk n 0 (fun j _ hj => hbody j (by omega)) s hs
    rw [if_neg (by omega)]
    rw [mul_one, zero_add] at hloop
    by_cases hall : k * n ≤ (input s).length
    · simp_all
    · rw [if_neg hall] at hloop ⊢
      obtain ⟨e, s', hrun, -, hs'⟩ := hloop
      exact ⟨e, s', hrun, hs'⟩
  · obtain ⟨m, rfl⟩ : ∃ m, n = cap + (m + 1) := ⟨n - cap - 1, by omega⟩
    have hloop := forLoop_reads hk cap 0 (fun j _ hj => hbody j (by omega)) s hs
    rw [mul_one, zero_add] at hloop
    rw [forLoop_add, zero_add]
    have hmul : k * (cap + (m + 1)) = k * (cap + 1) + k * m := by ring
    have hsucc : k * (cap + 1) = k * cap + k := by ring
    by_cases hall : k * cap ≤ (input s).length
    · rw [if_pos hall] at hloop
      obtain ⟨s₁, hrun, hin, hs₁⟩ := hloop
      have hlast := hcap s₁ hs₁
      rw [hin, List.length_drop] at hlast
      rw [hrun, andThen_none, forLoop]
      by_cases hmore : k * (cap + 1) ≤ (input s).length
      · rw [if_pos (by omega)] at hlast
        obtain ⟨f, hf⟩ := hlast
        rw [if_pos ⟨by omega, hmore⟩, hf]
        exact ⟨f, rfl⟩
      · rw [if_neg (by omega)] at hlast
        obtain ⟨e, s', herr, -, hs'⟩ := hlast
        rw [if_neg (fun h => hmore h.2), if_neg (by omega), herr]
        exact ⟨e, s', rfl, hs'⟩
    · rw [if_neg hall] at hloop
      obtain ⟨e, s', hrun, -, hs'⟩ := hloop
      rw [if_neg (by omega), if_neg (by omega), hrun]
      exact ⟨e, s', rfl, hs'⟩

end Reading

end LibRe.Checked
