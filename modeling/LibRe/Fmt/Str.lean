/-
LibRe.Fmt.Str — C strings (`src/fmt/str.c`).

A string is the list of its bytes in front of the terminating NUL, so a string
holds no NUL itself; `cString` is what a reader of a block of memory sees of
it. Letters are compared as `tolower` and `strcasecmp` do in the "C" locale.
-/
import LibRe.Lib.Bytes
import Mathlib.Data.List.TakeWhile

namespace LibRe

open List

/-- The bytes of a text in ASCII. -/
def asciiBytes (s : String) : Bytes := s.toList.map fun c => UInt8.ofNat c.toNat

/-- The string at the front of a block of memory: up to the first NUL. -/
def cString (xs : Bytes) : Bytes := xs.takeWhile (· != 0)

/-- A string by itself. -/
structure CStr where
  bytes : Bytes
  no_nul : (0 : UInt8) ∉ bytes
  deriving DecidableEq

theorem zero_not_mem_cString (xs : Bytes) : (0 : UInt8) ∉ cString xs := by
  intro h
  have hne := mem_takeWhile_imp h
  exact absurd hne (by decide)

/-- The string in a block of memory. -/
def CStr.ofMem (xs : Bytes) : CStr := { bytes := cString xs, no_nul := zero_not_mem_cString xs }

/-- `tolower`. -/
def toLower (c : UInt8) : UInt8 := if 65 ≤ c ∧ c ≤ 90 then c + 32 else c

/-- A string in lower case. -/
def lower (s : Bytes) : Bytes := s.map toLower

/-- `0 == str_casecmp(s1, s2)`. -/
def strCaseeq (s1 s2 : Bytes) : Bool := lower s1 == lower s2

/-! ## Letter case -/

/-- Changing the case of a byte makes and removes neither NULs nor dots. -/
theorem toLower_eq_iff (c : UInt8) : (toLower c = 0 ↔ c = 0) ∧ (toLower c = 46 ↔ c = 46) := by
  unfold toLower
  grind

@[simp] theorem length_lower (s : Bytes) : (lower s).length = s.length := length_map _

@[simp] theorem lower_append (s t : Bytes) : lower (s ++ t) = lower s ++ lower t :=
  map_append

@[simp] theorem lower_cons (c : UInt8) (s : Bytes) :
    lower (c :: s) = toLower c :: lower s := rfl

@[simp] theorem lower_nil : lower [] = [] := rfl

theorem mem_lower_iff {s : Bytes} : (0 ∈ lower s ↔ 0 ∈ s) ∧ (46 ∈ lower s ↔ 46 ∈ s) := by
  simp [lower, List.mem_map, toLower_eq_iff]

theorem strCaseeq_iff {s t : Bytes} : strCaseeq s t = true ↔ lower s = lower t := by
  rw [strCaseeq, beq_iff_eq]

/-- A block without NULs is a string as it stands. -/
theorem cString_of_no_nul {xs : Bytes} (h : (0 : UInt8) ∉ xs) : cString xs = xs := by
  apply takeWhile_eq_self_iff.mpr
  intro x hx
  have hne : x ≠ 0 := fun h0 => h (h0 ▸ hx)
  simpa using hne

theorem CStr.ofMem_bytes (s : CStr) : CStr.ofMem s.bytes = s := by
  obtain ⟨bytes, no_nul⟩ := s
  simp only [CStr.ofMem, cString_of_no_nul no_nul]

end LibRe
