/-
LibRe.Uri.Uric — URI components, escaped and unescaped (`src/uri/uric.c`).

A character that the component may have stands as it is; any other one is printed with
`%%%02X`. For `%X` the printer takes an `unsigned`. Where `char` is signed, a byte above
0x7f arrives there as a negative `int`, and is printed with eight digits instead of two.
The print handler does not fail.
-/
import LibRe.Fmt.Unicode

namespace LibRe.Uri

open List

/-! ## Characters -/

/-- `isalnum` -/
def isAlnum (c : UInt8) : Bool := (48 ≤ c && c ≤ 57) || (65 ≤ c && c ≤ 90) || (97 ≤ c && c ≤ 122)

/-- `is_mark` -/
def isMark (c : UInt8) : Bool := c ∈ asciiBytes "-_.!~*'()"

/-- `is_unreserved` -/
def isUnreserved (c : UInt8) : Bool := isAlnum c || isMark c

/-- `is_user_unreserved` -/
def isUserUnreserved (c : UInt8) : Bool := c ∈ asciiBytes "&=+$,;?/"

/-- `is_hnv_unreserved` -/
def isHnvUnreserved (c : UInt8) : Bool := c ∈ asciiBytes "[]/?:+$"

/-- `is_param_unreserved` -/
def isParamUnreserved (c : UInt8) : Bool := c ∈ asciiBytes "[]/:&+$"

/-- `is_user` -/
def isUser (c : UInt8) : Bool := isUnreserved c || isUserUnreserved c

/-- `is_paramchar` -/
def isParamchar (c : UInt8) : Bool := isParamUnreserved c || isUnreserved c

/-- `is_hvalue` -/
def isHvalue (c : UInt8) : Bool := isHnvUnreserved c || isUnreserved c

/-! ## Escaping -/

/-- A `char` as the `unsigned` that the printer takes. -/
def charArg (signed : Bool) (c : UInt8) : Nat :=
  if signed ∧ 0x80 ≤ c then 0xffffff00 + c.toNat else c.toNat

/-- `local_itoa` for `%X`, with the digits so far. -/
def localItoa : Nat → Nat → Bytes → Bytes
  | 0, _, num => num
  | fuel + 1, n, num =>
    let num := hexChar (UInt8.ofNat (n % 16)) :: num
    if n / 16 = 0 then num else localItoa fuel (n / 16) num

/-- `write_padded` for `%02X` -/
def writePadded (p : Bytes) : Bytes := List.replicate (2 - p.length) 48 ++ p

/-- One character of `comp_escape`. -/
def escapeChar (signed : Bool) (eh : UInt8 → Bool) (c : UInt8) : Bytes :=
  if eh c then [c] else 37 :: writePadded (localItoa 64 (charArg signed c) [])

/-- `comp_escape` -/
def compEscape (signed : Bool) (eh : UInt8 → Bool) (pl : Bytes) : Bytes :=
  pl.flatMap (escapeChar signed eh)

/-- `comp_unescape`: what is printed, and the error. -/
def compUnescape (eh : UInt8 → Bool) : Bytes → Bytes × Option Errno
  | [] => ([], none)
  | c :: rest =>
    if eh c then (compUnescape eh rest).map (c :: ·) id
    else if c = 37 then
      match rest with
      | hi :: lo :: rest =>
        (compUnescape eh rest).map (UInt8.ofNat (chHex hi * 16 + chHex lo) :: ·) id
      | _ => ([], some .EBADMSG)
    else ([], some .EINVAL)

/-- `uri_user_escape` -/
def uriUserEscape (signed : Bool) : Bytes → Bytes := compEscape signed isUser

/-- `uri_user_unescape` -/
def uriUserUnescape : Bytes → Bytes × Option Errno := compUnescape isUser

/-- `uri_param_escape` -/
def uriParamEscape (signed : Bool) : Bytes → Bytes := compEscape signed isParamchar

/-- `uri_param_unescape` -/
def uriParamUnescape : Bytes → Bytes × Option Errno := compUnescape isParamchar

/-- `uri_header_escape` -/
def uriHeaderEscape (signed : Bool) : Bytes → Bytes := compEscape signed isHvalue

/-- `uri_header_unescape` -/
def uriHeaderUnescape : Bytes → Bytes × Option Errno := compUnescape isHvalue

/-! ## Reading back -/

/-- What is escaped is legal in the component, and the same when it is unescaped. -/
def Restores (escape : Bytes → Bytes) (unescape : Bytes → Bytes × Option Errno)
    (eh : UInt8 → Bool) (pl : Bytes) : Prop :=
  unescape (escape pl) = (pl, none) ∧ ∀ ch ∈ escape pl, eh ch = true ∨ ch = 37

/-- The two digits of a byte, and those of the number that a negative `char` becomes. -/
theorem itoa_spec (c : UInt8) :
    ∃ hi lo, isAlnum hi = true ∧ isAlnum lo = true ∧ chHex hi * 16 + chHex lo = c.toNat ∧
      writePadded (localItoa 64 c.toNat []) = [hi, lo] ∧
      writePadded (localItoa 64 (0xffffff00 + c.toNat) []) = [70, 70, 70, 70, 70, 70, hi, lo] := by
  refine ⟨hexChar (c / 16), hexChar (c % 16), ?_⟩
  revert c
  decide +kernel

section

variable {eh : UInt8 → Bool} (halnum : ∀ c, isAlnum c = true → eh c = true)
  (hother : ∀ c, c = 37 ∨ 0x80 ≤ c → eh c = false) (signed : Bool)

theorem compUnescape_plain {c : UInt8} (h : eh c = true) (rest : Bytes) :
    compUnescape eh (c :: rest) = (compUnescape eh rest).map (c :: ·) id := by
  conv_lhs => unfold compUnescape
  exact if_pos h

include halnum hother

theorem escapeChar_spec (c : UInt8) :
    (∀ ch ∈ escapeChar signed eh c, eh ch = true ∨ ch = 37) ∧
      ∃ out, (∀ rest, compUnescape eh (escapeChar signed eh c ++ rest) = (compUnescape eh rest).map
        (out ++ ·) id) ∧
        if signed ∧ 0x80 ≤ c then out.length = 7 else out = [c] := by
  by_cases h : eh c = true
  · have hlow : ¬ 0x80 ≤ c := by
      intro hc
      simp [hother c (.inr hc)] at h
    exact ⟨by simp [escapeChar, h],
      [c], by simp [escapeChar, compUnescape_plain, h], by simp [hlow]⟩
  · obtain ⟨hi, lo, hhi, hlo, hval, htwo, height⟩ := itoa_spec c
    have hF : eh 70 = true := halnum 70 (by decide)
    have hescaped : ∀ hi lo rest, compUnescape eh (37 :: hi :: lo :: rest) =
        (compUnescape eh rest).map (UInt8.ofNat (chHex hi * 16 + chHex lo) :: ·) id := by
      simp [compUnescape, hother 37 (.inl rfl)]
    by_cases hs : signed ∧ 0x80 ≤ c
    · have hesc : escapeChar signed eh c = [37, 70, 70, 70, 70, 70, 70, hi, lo] := by
        simp [escapeChar, charArg, h, hs, height]
      refine ⟨by simp [hesc, hF, halnum, hhi, hlo], [UInt8.ofNat (chHex 70 * 16 + chHex 70), 70, 70,
        70, 70, hi, lo], ?_, by simp [hs]⟩
      simp [hesc, hescaped, compUnescape_plain, hF, halnum, hhi, hlo, Prod.map]
    · have hesc : escapeChar signed eh c = [37, hi, lo] := by
        simp [escapeChar, charArg, h, hs, htwo]
      exact ⟨by simp [hesc, halnum, hhi, hlo], [c], by simp [hesc, hescaped, hval], by simp [hs]⟩

theorem reads_back_iff (pl : Bytes) :
    Restores (compEscape signed eh) (compUnescape eh) eh pl ↔
    (signed = true → ∀ c ∈ pl, c < 0x80) := by
  have hlegal : ∀ ch ∈ compEscape signed eh pl, eh ch = true ∨ ch = 37 := by
    intro ch hch
    obtain ⟨c, -, hch⟩ := mem_flatMap.mp hch
    exact (escapeChar_spec halnum hother signed c).1 ch hch
  -- nothing is lost, so one byte that comes back as seven is not made up for
  have hback : ∃ out, compUnescape eh (compEscape signed eh pl) = (out, none) ∧
      pl.length ≤ out.length ∧
      (out = pl ↔ (signed = true → ∀ c ∈ pl, c < 0x80)) := by
    clear hlegal
    induction pl with
    | nil => exact ⟨[], rfl, by simp⟩
    | cons c pl ih =>
      obtain ⟨outs, hrest, hlen, hiff⟩ := ih
      obtain ⟨-, out, hout, hc⟩ := escapeChar_spec halnum hother signed c
      refine ⟨out ++ outs, ?_, ?_⟩
      · rw [compEscape, flatMap_cons, hout, ← compEscape, hrest]
        rfl
      split at hc
      case isTrue hs =>
        refine ⟨by simp [hc]; omega, iff_of_false (fun heq => ?_) fun h => ?_⟩
        · have := congrArg length heq
          simp [hc] at this
          omega
        · exact absurd (h hs.1 c (by simp)) (by simpa using hs.2)
      case isFalse hs =>
        subst hc
        have hlow : signed = true → c < 0x80 := by simpa using hs
        refine ⟨by simpa using hlen, ?_⟩
        simp +contextual [hiff, hlow]
  obtain ⟨out, hout, -, hiff⟩ := hback
  rw [Restores, hout, and_iff_left hlegal, Prod.mk.injEq, and_iff_left rfl, hiff]

end

/-- A byte above 0x7f is lost where `char` is signed, and only that. -/
theorem escaped_component_reads_back_iff (signed : Bool) (pl : Bytes) :
    (Restores (uriUserEscape signed) uriUserUnescape isUser pl ↔
      (signed = true → ∀ c ∈ pl, c < 0x80)) ∧
      (Restores (uriParamEscape signed) uriParamUnescape isParamchar pl ↔
        (signed = true → ∀ c ∈ pl, c < 0x80)) ∧
      (Restores (uriHeaderEscape signed) uriHeaderUnescape isHvalue pl ↔
        (signed = true → ∀ c ∈ pl, c < 0x80)) := by
  refine ⟨reads_back_iff ?_ ?_ signed pl, reads_back_iff ?_ ?_ signed pl,
    reads_back_iff ?_ ?_ signed pl⟩
  all_goals decide +kernel

/-- The byte 0xe5, a letter of Latin-1, comes back as seven bytes. -/
theorem latin_user_not_restored : ¬ ∀ signed pl, Restores (uriUserEscape signed) uriUserUnescape
    isUser pl := by
  intro h
  have hread := (h true [0xe5]).1
  revert hread
  decide +kernel

end LibRe.Uri
