/-
LibRe.Srtp.Replay — SRTP replay protection (`src/srtp/replay.c`).

`srtpReplayCheck` works on two 64-bit words, as the source does. It refines
the window of `LibRe.Lib.SlidingWindow` at width 64: `window_srtpReplayCheck`
carries every result about that window over to the words.
-/
import LibRe.Lib.SlidingWindow

namespace LibRe.SRTP

open SlidingWindow Option

/-- `struct replay`. -/
structure Replay where
  bitmap : UInt64
  lix : UInt64
  deriving DecidableEq, Repr

/-- `srtp_replay_init`. -/
def srtpReplayInit : Replay := { bitmap := 0, lix := 0 }

/-- `SRTP_WINDOW_SIZE`. -/
def srtpWindowSize : UInt64 := 64

/-- `srtp_replay_check`: the state after a packet that is permitted, `none`
for a packet that is not (which leaves the state alone). -/
def srtpReplayCheck (replay : Replay) (ix : UInt64) : Option Replay :=
  if ix > replay.lix then
    let diff := ix - replay.lix
    let bitmap := if diff < srtpWindowSize then replay.bitmap <<< diff ||| 1 else 1
    some { bitmap, lix := ix }
  else
    let diff := replay.lix - ix
    if diff ≥ srtpWindowSize then none
    else if replay.bitmap &&& (1 <<< diff) != 0 then none
    else some { replay with bitmap := replay.bitmap ||| (1 <<< diff) }

/-- The window the two words stand for. -/
def Replay.window (replay : Replay) : Window := ⟨replay.lix.toNat, replay.bitmap.toNat⟩

/-- The test of one bit of the bitmap. -/
theorem and_shiftLeft_ne_zero {b d : UInt64} (hd : d.toNat < 64) :
    (b &&& (1 <<< d) != 0) = b.toNat.testBit d.toNat := by
  have hshift : ((1 : UInt64) <<< d).toNat = 2 ^ d.toNat := by
    have hlt : 2 ^ d.toNat < 2 ^ 64 := Nat.pow_lt_pow_right (by decide) hd
    rw [UInt64.toNat_shiftLeft, Nat.mod_eq_of_lt hd]
    show 1 <<< d.toNat % 2 ^ 64 = 2 ^ d.toNat
    rw [Nat.one_shiftLeft, Nat.mod_eq_of_lt hlt]
  have hand : (b &&& (1 <<< d)).toNat = (b.toNat.testBit d.toNat).toNat * 2 ^ d.toNat := by
    rw [UInt64.toNat_and, hshift, Nat.and_two_pow]
  have hpos : 0 < 2 ^ d.toNat := Nat.two_pow_pos _
  cases hb : b.toNat.testBit d.toNat with
  | false =>
    rw [hb] at hand
    have hz : b &&& (1 <<< d) = 0 := UInt64.toNat_inj.mp (by rw [hand]; simp)
    simp [hz]
  | true =>
    rw [hb] at hand
    have hz : b &&& (1 <<< d) ≠ 0 := by
      intro hz
      rw [hz, Bool.toNat_true, one_mul, UInt64.toNat_zero] at hand
      omega
    simpa using hz

/-- The check on the words is the check on the window. -/
theorem window_srtpReplayCheck (replay : Replay) (ix : UInt64) :
    (srtpReplayCheck replay ix).map Replay.window = check 64 replay.window ix.toNat := by
  obtain ⟨bitmap, lix⟩ := replay
  show _ = check 64 ⟨lix.toNat, bitmap.toNat⟩ ix.toNat
  by_cases hlt : lix < ix
  · have hlt' : lix.toNat < ix.toNat := UInt64.lt_iff_toNat_lt.mp hlt
    have hdiff := UInt64.toNat_sub_of_le _ _ (UInt64.le_of_lt hlt)
    have hw : (ix - lix < srtpWindowSize) ↔ ix.toNat - lix.toNat < 64 := by
      rw [UInt64.lt_iff_toNat_lt, hdiff]
      rfl
    rw [srtpReplayCheck, check, if_pos hlt, if_pos hlt', map_some]
    by_cases hd : ix.toNat - lix.toNat < 64
    · simp only [if_pos (hw.mpr hd), if_pos hd, Replay.window, UInt64.toNat_or,
        UInt64.toNat_shiftLeft, hdiff, Nat.mod_eq_of_lt hd]
      show some (Window.mk _ (_ % 2 ^ 64 ||| 1 % 2 ^ 64)) = _
      rw [← Nat.or_mod_two_pow]
    · simp_all [if_neg, Replay.window]
  · have hle : ix ≤ lix := UInt64.not_lt.mp hlt
    have hlt' : ¬ lix.toNat < ix.toNat := fun h => hlt (UInt64.lt_iff_toNat_lt.mpr h)
    have hdiff := UInt64.toNat_sub_of_le _ _ hle
    have hw : (lix - ix ≥ srtpWindowSize) ↔ 64 ≤ lix.toNat - ix.toNat := by
      rw [ge_iff_le, UInt64.le_iff_toNat_le, hdiff]
      rfl
    rw [srtpReplayCheck, check, if_neg hlt, if_neg hlt']
    by_cases hd : 64 ≤ lix.toNat - ix.toNat
    · simp only [if_pos (hw.mpr hd), if_pos hd, map_none]
    have hd' : (lix - ix).toNat < 64 := by rw [hdiff]; omega
    have hpow : 2 ^ (lix.toNat - ix.toNat) < 2 ^ 64 :=
      Nat.pow_lt_pow_right (by decide) (by omega)
    simp only [if_neg (fun h => hd (hw.mp h)), if_neg hd, and_shiftLeft_ne_zero hd', hdiff]
    cases hb : bitmap.toNat.testBit (lix.toNat - ix.toNat) with
    | true => rfl
    | false =>
      simp only [Bool.false_eq_true, if_false, map_some, Replay.window,
        UInt64.toNat_or, UInt64.toNat_shiftLeft, hdiff,
        Nat.mod_eq_of_lt (show lix.toNat - ix.toNat < 64 by omega)]
      show some (Window.mk _ (_ ||| 1 <<< _ % 2 ^ 64)) = _
      rw [Nat.one_shiftLeft, Nat.mod_eq_of_lt hpow]

variable {replay replay' : Replay} {ix : UInt64}

/-- An index above the last one is permitted and becomes the last one. -/
theorem srtpReplayCheck_of_lt (h : replay.lix < ix) :
    ∃ r, srtpReplayCheck replay ix = some r ∧ r.lix = ix := by
  simp [srtpReplayCheck, h]

/-- The first index of a fresh window is permitted, whatever it is. -/
theorem srtpReplayCheck_init (ix : UInt64) :
    ∃ r, srtpReplayCheck srtpReplayInit ix = some r ∧ r.lix = ix := by
  by_cases h : srtpReplayInit.lix < ix
  · exact srtpReplayCheck_of_lt h
  have hz : ix = 0 := by
    have h' : ¬ (0 : UInt64).toNat < ix.toNat := fun h' => h (UInt64.lt_iff_toNat_lt.mpr h')
    apply UInt64.toNat_inj.mp
    simp only [UInt64.toNat_zero] at h' ⊢
    omega
  subst hz
  exact ⟨{ bitmap := 1, lix := 0 }, by decide, rfl⟩

/-- A permitted index moves the last one up or leaves it. -/
theorem lix_of_srtpReplayCheck (h : srtpReplayCheck replay ix = some replay') :
    replay'.lix = if replay.lix < ix then ix else replay.lix := by
  unfold srtpReplayCheck at h
  split at h
  · rename_i hlt
    have hlt' : replay.lix < ix := hlt
    simp only [some.injEq] at h
    rw [if_pos hlt', ← h]
  · rename_i hlt
    have hlt' : ¬ replay.lix < ix := hlt
    rw [if_neg hlt']
    simp only [ite_none_left_eq_some, some.injEq] at h
    rw [← h.2.2]

/-- The indices the replay state turns away. -/
def Replay.Refuses (replay : Replay) (ix : UInt64) : Prop := Refused 64 replay.window ix.toNat

theorem srtpReplayCheck_eq_none_iff : srtpReplayCheck replay ix = none ↔ replay.Refuses ix := by
  rw [Replay.Refuses, ← check_eq_none_iff, ← window_srtpReplayCheck, map_eq_none_iff]

variable {jx : UInt64} {hist : List UInt64}

/-- What is refused behind a permitted index. -/
theorem refuses_iff (h : srtpReplayCheck replay ix = some replay') :
    replay'.Refuses jx ↔ jx = ix ∨ replay.Refuses jx ∨ jx.toNat + 64 ≤ replay'.lix.toNat := by
  have hwin := window_srtpReplayCheck replay ix
  rw [h, map_some] at hwin
  rw [← UInt64.toNat_inj]
  exact refused_check_iff (by decide) hwin.symm

/-! ## A stream of indices -/

/-- One index is offered; the indices that were permitted are listed. -/
def offer (s : Replay × List UInt64) (ix : UInt64) : Replay × List UInt64 :=
  match srtpReplayCheck s.1 ix with
  | some replay => (replay, ix :: s.2)
  | none => s

/-- A fresh state and the indices `hist` offered to it, the latest first in the list. -/
def afterIndices (hist : List UInt64) : Replay × List UInt64 :=
  hist.foldr (fun ix s => offer s ix) (srtpReplayInit, [])

/-- The highest of the indices offered, 0 before the first. -/
def highestIx : List UInt64 → Nat
  | [] => 0
  | ix :: hist => max ix.toNat (highestIx hist)

theorem highestIx_le (h : ∀ jx ∈ hist, jx < ix) : highestIx hist ≤ ix.toNat := by
  induction hist with
  | nil => simp [highestIx]
  | cons jx hist ih => simp_all [highestIx, UInt64.lt_iff_toNat_lt, le_of_lt]

/-- The words say what was permitted: besides that, all that is 64 or more behind is refused. -/
structure Remembers (hist : List UInt64) (s : Replay × List UInt64) : Prop where
  lix : s.1.lix.toNat = highestIx hist
  refuses : ∀ ix, s.1.Refuses ix ↔ ix ∈ s.2 ∨ ix.toNat + 64 ≤ highestIx hist
  nodup : s.2.Nodup
  offered : ∀ ix ∈ s.2, ix ∈ hist

theorem Remembers.offer {s : Replay × List UInt64} (h : Remembers hist s) (ix : UInt64) :
    Remembers (ix :: hist) (offer s ix) := by
  have hlix := h.lix
  unfold SRTP.offer
  split
  · rename_i replay' hcheck
    have hnew : ¬ s.1.Refuses ix := by simp [← srtpReplayCheck_eq_none_iff, hcheck]
    have htop : replay'.lix.toNat = highestIx (ix :: hist) := by
      rw [lix_of_srtpReplayCheck hcheck, highestIx, ← hlix]
      split <;> simp_all [UInt64.lt_iff_toNat_lt]
      omega
    refine ⟨htop, fun jx => ?_, by simp_all [h.refuses, h.nodup], by simp +contextual [h.offered]⟩
    rw [refuses_iff hcheck, h.refuses, htop, highestIx, List.mem_cons]
    grind
  · rename_i hcheck
    rw [srtpReplayCheck_eq_none_iff] at hcheck
    have htop : highestIx (ix :: hist) = highestIx hist := by
      have := hcheck.1
      simp_all [Replay.window, highestIx]
    exact ⟨htop ▸ hlix, htop ▸ h.refuses, h.nodup, by simp +contextual [h.offered]⟩

theorem remembers_afterIndices (hist : List UInt64) : Remembers hist (afterIndices hist) := by
  unfold afterIndices
  induction hist with
  | nil =>
    refine ⟨rfl, ?_, by simp, by simp⟩
    simp [Replay.Refuses, Refused, Replay.window, srtpReplayInit, highestIx]
  | cons ix hist ih => exact ih.offer ix

/-- An index is permitted if and only if it was not permitted before and is above the highest
one minus 64; so each is permitted once at most, and every new highest one is. -/
theorem replay_permits_iff (hist : List UInt64) (ix : UInt64) :
    ((srtpReplayCheck (afterIndices hist).1 ix).isSome ↔
      ix ∉ (afterIndices hist).2 ∧ (highestIx hist : Int) - 64 < ix.toNat) ∧
    (afterIndices hist).2.Nodup ∧
    ((∀ jx ∈ hist, jx < ix) → (srtpReplayCheck (afterIndices hist).1 ix).isSome) := by
  have h := remembers_afterIndices hist
  have hiff : (srtpReplayCheck (afterIndices hist).1 ix).isSome ↔
      ix ∉ (afterIndices hist).2 ∧ highestIx hist < ix.toNat + 64 := by
    simp [isSome_iff_ne_none, srtpReplayCheck_eq_none_iff, h.refuses]
  refine ⟨hiff.trans (and_congr_right fun _ => by omega), h.nodup, fun hnew =>
    hiff.mpr ⟨fun hmem => ?_, ?_⟩⟩
  · exact absurd (hnew ix (h.offered ix hmem)) (UInt64.lt_irrefl ix)
  · exact (highestIx_le hnew).trans_lt (by omega)

end LibRe.SRTP
