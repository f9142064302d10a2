/-
LibRe.Mbuf.Parse — decoders of a memory buffer and the layouts they accept.

A decoder takes a buffer, reads from its position on and hands the buffer back
with the position moved. `Parses dec L` says that it accepts exactly the
layout `L`: it succeeds when the bytes in use have that layout at the position,
with the value the layout presents, and leaves the position at its end. The
rules follow the shapes decoders are written in: a fixed number of bytes behind
a check of what is left, and one decoder after another.
-/
import LibRe.Lib.Layout
import LibRe.Mbuf.MbufTheorems

namespace LibRe

open Bytes Layout List

/-- A decoder. -/
abbrev Decoder (α : Type) := Mbuf → Except Errno (α × Mbuf)

variable {α γ : Type}

/-- The decoder accepts exactly the layout. -/
def Parses (dec : Decoder α) (L : Layout UInt8 α) : Prop :=
  ∀ (mb mb' : Mbuf) (a : α),
    dec mb = .ok (a, mb') ↔ ∃ q, L mb.bytes mb.pos q a ∧ mb' = mbufSetPos mb q

/-- The same for buffers with at least `n` bytes left, which the caller has checked. -/
def ParsesIf (n : Nat) (dec : Decoder α) (L : Layout UInt8 α) : Prop :=
  ∀ (mb mb' : Mbuf) (a : α), n ≤ mb.left.length →
    (dec mb = .ok (a, mb') ↔ ∃ q, L mb.bytes mb.pos q a ∧ mb' = mbufSetPos mb q)

/-- A buffer that holds a message, at a place in it. -/
def Mbuf.ofBytes (W : Bytes) (p : Nat) : Mbuf :=
  { buf := W, pos := p, end_ := W.length, end_le := Mbuf.full_le W }

@[simp] theorem Mbuf.ofBytes_bytes (W : Bytes) (p : Nat) : (Mbuf.ofBytes W p).bytes = W :=
  take_length

variable {dec : Decoder α} {L : Layout UInt8 α} {q n : Nat} {f : Bytes → α}

/-- What a decoder accepts has one value and one end. -/
theorem Parses.functional (h : Parses dec L)
    {W : Bytes} {p q' : Nat} {a a' : α} (h1 : L W p q a) (h2 : L W p q' a') :
    q = q' ∧ a = a' := by
  have hb := Mbuf.ofBytes_bytes W p
  have e1 := (h (Mbuf.ofBytes W p) _ a).mpr ⟨q, hb.symm ▸ h1, rfl⟩
  have e2 := (h (Mbuf.ofBytes W p) _ a').mpr ⟨q', hb.symm ▸ h2, rfl⟩
  rw [e1] at e2
  injection e2 with heq
  injection heq with ha hm
  exact ⟨congrArg Mbuf.pos hm, ha⟩

theorem bind_eq_ok_iff {ε : Type} {x : Except ε α} {f : α → Except ε γ} {c : γ} :
    x >>= f = .ok c ↔ ∃ a, x = .ok a ∧ f a = .ok c := by
  cases x <;> simp [bind, Except.bind]

/-- One decoder after another. -/
theorem Parses.bind {k : α → Decoder γ}
    {F : α → Layout UInt8 γ} (h : Parses dec L) (hk : ∀ a, Parses (k a) (F a)) :
    Parses (fun mb => dec mb >>= fun r => k r.1 r.2) (L.bind F) := by
  intro mb mb' c
  refine bind_eq_ok_iff.trans ⟨?_, ?_⟩
  · rintro ⟨⟨a, m⟩, hd, hc⟩
    obtain ⟨q, hL, rfl⟩ := (h mb m a).mp hd
    obtain ⟨q', hF, rfl⟩ := (hk a _ mb' c).mp hc
    exact ⟨q', ⟨a, q, hL, hF⟩, rfl⟩
  · rintro ⟨q', ⟨a, q, hL, hF⟩, rfl⟩
    exact ⟨_, (h mb _ a).mpr ⟨q, hL, rfl⟩, (hk a (mbufSetPos mb q) _ c).mpr ⟨q', hF, rfl⟩⟩

/-- A decoded value put into a larger one. -/
theorem Parses.map (f : α → γ) (h : Parses dec L) :
    Parses (fun mb => dec mb >>= fun r => .ok (f r.1, r.2)) (L.map f) := by
  intro mb mb' c
  refine bind_eq_ok_iff.trans ⟨?_, ?_⟩
  · rintro ⟨⟨a, m⟩, hd, hc⟩
    obtain ⟨q, hL, rfl⟩ := (h mb m a).mp hd
    cases hc
    exact ⟨q, ⟨a, hL, rfl⟩, rfl⟩
  · rintro ⟨q, ⟨a, hL, rfl⟩, rfl⟩
    exact ⟨_, (h mb _ a).mpr ⟨q, hL, rfl⟩, rfl⟩

/-- The block of `n` bytes at the position, when so many are left. -/
theorem block_iff {mb : Mbuf} {xs : Bytes} :
    block n mb.bytes mb.pos q xs ↔
      n ≤ mb.left.length ∧ xs = mb.left.take n ∧ q = mb.pos + n := by
  rw [left_eq]
  constructor
  · rintro ⟨hlen, hq, hpre⟩
    have hxs : xs = (mb.bytes.drop mb.pos).take n := hlen ▸ prefix_iff_eq_take.mp hpre
    exact ⟨hlen ▸ hpre.length_le, hxs, hq⟩
  · rintro ⟨hle, rfl, hq⟩
    exact ⟨by rw [length_take]; omega, hq, take_prefix _ _⟩

theorem Parses.parsesIf (h : Parses dec L) (n : Nat) :
    ParsesIf n dec L := fun mb mb' a _ => h mb mb' a

/-- A decoder behind a check of what is left. -/
theorem ParsesIf.guard (h : ParsesIf n dec L) (err : Errno) :
    Parses (fun mb => if mbufGetLeft mb < n then .error err else dec mb) (within n L) := by
  intro mb mb' a
  show (if mbufGetLeft mb < n then .error err else dec mb) = .ok (a, mb') ↔ _
  rw [mbufGetLeft_eq]
  by_cases hn : mb.left.length < n
  · rw [if_pos hn]
    constructor
    · simp
    · rintro ⟨q, ⟨hle, -⟩, -⟩
      rw [← left_eq] at hle
      omega
  · rw [if_neg hn, h mb mb' a (Nat.le_of_not_lt hn)]
    constructor
    · rintro ⟨q, hL, hmb⟩
      exact ⟨q, ⟨left_eq mb ▸ Nat.le_of_not_lt hn, hL⟩, hmb⟩
    · rintro ⟨q, ⟨-, hL⟩, hmb⟩
      exact ⟨q, hL, hmb⟩

/-- A decoder behind a check of something else. -/
theorem ParsesIf.onlyIf {c : Prop} [Decidable c] (h : c → ParsesIf n dec L) (err : Errno) :
    ParsesIf n (fun mb => if ¬ c then .error err else dec mb) (onlyIf c L) := by
  intro mb mb' a hn
  show (if ¬ c then .error err else dec mb) = .ok (a, mb') ↔ _
  by_cases hc : c
  · rw [if_neg (not_not_intro hc), h hc mb mb' a hn]
    constructor
    · rintro ⟨q, hL, hmb⟩
      exact ⟨q, ⟨hc, hL⟩, hmb⟩
    · rintro ⟨q, ⟨-, hL⟩, hmb⟩
      exact ⟨q, hL, hmb⟩
  · rw [if_pos hc]
    constructor
    · simp
    · rintro ⟨q, ⟨hc', -⟩, -⟩
      exact absurd hc' hc

/-- Fields of a fixed size, read when so many bytes are left. -/
theorem ParsesIf.fields
    (hread : ∀ mb : Mbuf, n ≤ mb.left.length →
      dec mb = .ok (f (mb.left.take n), mbufAdvance mb n)) : ParsesIf n dec ((block n).map f) := by
  intro mb mb' a hn
  rw [hread mb hn]
  constructor
  · intro hd
    cases hd
    exact ⟨mb.pos + n, ⟨_, block_iff.mpr ⟨hn, rfl, rfl⟩, rfl⟩, rfl⟩
  · rintro ⟨q, ⟨xs, hb, rfl⟩, rfl⟩
    obtain ⟨-, rfl, rfl⟩ := block_iff.mp hb
    rfl

/-- Fields of a fixed size, read after a check that so many bytes are left. -/
theorem Parses.fields {err : Errno} (hread : ∀ mb : Mbuf, n ≤ mb.left.length →
      dec mb = .ok (f (mb.left.take n), mbufAdvance mb n)) :
    Parses (fun mb => if mbufGetLeft mb < n then .error err else dec mb) ((block n).map f) := by
  intro mb mb' a
  rw [(ParsesIf.fields hread).guard err mb mb' a]
  constructor
  · rintro ⟨q, ⟨-, hL⟩, hmb⟩
    exact ⟨q, hL, hmb⟩
  · rintro ⟨q, hL, hmb⟩
    obtain ⟨xs, hb, -⟩ := id hL
    exact ⟨q, ⟨left_eq mb ▸ (block_iff.mp hb).1, hL⟩, hmb⟩

end LibRe
