/-
LibRe.Rtmp.AmfTheorems — AMF values are read back as they were written.

`AmfArg.tree` is the value that a dictionary has for an argument: ECMA arrays become
objects, and elements without a key get their index. The decoder reads what the encoder
wrote for a value, whatever follows it (`value_reads`). Inside an object it goes on as
long as keys are not empty, and the end marker is an empty key, so it stops where the
encoder has closed the object (`entries_reads`).
-/
import LibRe.Rtmp.Amf

namespace LibRe.Rtmp.Amf

open Bytes Reader Digits List Nat

/-! ## What is decoded -/

mutual

/-- The value in the dictionary. -/
def AmfArg.tree : AmfArg → OdictValue
  | .number v => .double v
  | .boolean b => .bool b
  | .string str => .string (str.getD (CStr.ofMem []))
  | .null => .null
  | .container .STRICT_ARRAY args => .array (args.elements 0)
  | .container _ args => .object args.entries

/-- The entries of arguments with keys. -/
def AmfArgs.entries : AmfArgs → Odict
  | .nil => .nil
  | .cons key v rest => .cons (key.getD (CStr.ofMem [])) v.tree rest.entries

/-- The entries of arguments without keys, from an index on. -/
def AmfArgs.elements (i : Nat) : AmfArgs → Odict
  | .nil => .nil
  | .cons _ v rest => .cons (index i) v.tree (rest.elements (i + 1))

end

/-- A key that can be told from the end of an object. -/
def KeyValid (key : Option CStr) : Prop := ∃ k, key = some k ∧ k.bytes ≠ [] ∧ k.bytes.length ≤ 65535

mutual

/-- Strings have up to 65535 bytes, objects and ECMA arrays are not empty and have keys
that are not empty, strict arrays have 1 to 65536 elements. -/
def AmfArg.Valid : AmfArg → Prop
  | .string str => ∃ s, str = some s ∧ s.bytes.length ≤ 65535
  | .container .ROOT _ => False
  | .container .STRICT_ARRAY args => args.count ≠ 0 ∧ args.count ≤ 65536 ∧ args.AllValid
  | .container _ args => args.count ≠ 0 ∧ args.Keyed ∧ args.AllValid
  | _ => True

def AmfArgs.AllValid : AmfArgs → Prop
  | .nil => True
  | .cons _ v rest => v.Valid ∧ rest.AllValid

def AmfArgs.Keyed : AmfArgs → Prop
  | .nil => True
  | .cons key _ rest => KeyValid key ∧ rest.Keyed

end

/-! ## Parts -/

variable {n : Nat} {key : CStr} {dict : Odict}

/-- What is written for a string or a key. -/
def strBytes (s : CStr) : Bytes := be16 (UInt16.ofNat s.bytes.length) ++ s.bytes

theorem accepts_byte (x : UInt8) : Accepts byte [x] x := accepts_fields _ rfl rfl

theorem accepts_len (v : UInt16) : Accepts (fields Errno.ENODATA 2 ofBe16) (be16 v) v := by
  refine accepts_fields _ (length_be16 v) ?_
  rw [← append_nil (be16 v), ofBe16_be16_append]

theorem accepts_count (v : UInt32) : Accepts (fields Errno.ENODATA 4 ofBe32) (be32 v) v := by
  refine accepts_fields _ (length_be32 v) ?_
  rw [← append_nil (be32 v), ofBe32_be32_append]

variable {s : CStr} {container : Container}

theorem toNat_length (h : s.bytes.length ≤ 65535) :
    (UInt16.ofNat s.bytes.length).toNat = s.bytes.length := by
  simp
  omega

theorem accepts_lenString (h : s.bytes.length ≤ 65535) :
    Accepts (lenString (UInt16.ofNat s.bytes.length).toNat) s.bytes s := by
  rw [toNat_length h]
  exact accepts_fields _ rfl (CStr.ofMem_bytes s)

theorem accepts_number (v : UInt64) :
    Accepts (amfDecodeValue (n + 1) key dict) (0x00 :: hexBytes 8 v.toNat)
    (odictEntryAdd key (.double v) dict) := by
  have hfield : Accepts (fields Errno.ENODATA 8 ofBe) (hexBytes 8 v.toNat) v.toNat := by
    simp [accepts_fields, ofBe_hexBytes]
  have hvalue := hfield.map fun i => odictEntryAdd key (.double (UInt64.ofNat i)) dict
  rw [UInt64.ofNat_toNat] at hvalue
  exact (accepts_byte 0x00).andThen hvalue

theorem accepts_boolean (b : Bool) :
    Accepts (amfDecodeValue (n + 1) key dict) [0x01, if b then 1 else 0]
    (odictEntryAdd key (.bool b) dict) := by
  have hvalue := (accepts_byte (if b then 1 else 0)).map fun b =>
    odictEntryAdd key (.bool (b != 0)) dict
  have hback : ((if b then (1 : UInt8) else 0) != 0) = b := by cases b <;> rfl
  rw [hback] at hvalue
  exact (accepts_byte 0x01).andThen hvalue

theorem accepts_string (h : s.bytes.length ≤ 65535) :
    Accepts (amfDecodeValue (n + 1) key dict) (0x02 :: strBytes s)
    (odictEntryAdd key (.string s) dict) := by
  have hvalue := (accepts_lenString h).map fun str => odictEntryAdd key (.string str) dict
  exact (accepts_byte 0x02).andThen ((accepts_len _).andThen hvalue)

/-- A reader of objects that reads `bytes` to the end marker, with any number of bytes
behind it. -/
theorem accepts_object {bytes : Bytes} {entries : Odict}
    (h : ∀ left, bytes.length ≤ left → Accepts (amfDecodeObject (amfDecodeValue n) left .nil)
      bytes entries) :
    Accepts (andThen (byLength fun left => amfDecodeObject (amfDecodeValue n) left .nil)
      fun object =>
      give (odictEntryAdd key (.object object) dict)) bytes
        (odictEntryAdd key (.object entries) dict) := by
  have hobject : Accepts (byLength fun left => amfDecodeObject (amfDecodeValue n) left .nil) bytes
      entries := by
    intro ys
    exact h _ (by rw [length_append]; omega) ys
  exact hobject.map fun object => odictEntryAdd key (.object object) dict

/-! ## Values -/

theorem keyWritten_of_hasKey (hkey : container.hasKey) {k : CStr} (h : k.bytes.length ≤ 65535) :
    keyWritten container (some k) = (strBytes k, none) := by
  unfold keyWritten
  rw [if_pos hkey]
  dsimp only
  rw [rtmpAmfEncodeKey, if_neg (not_lt.mpr h)]
  rfl

theorem keyWritten_of_not_hasKey (hkey : container.hasKey = false) (key : Option CStr) :
    keyWritten container key = ([], none) := by
  simp [keyWritten, hkey]

theorem length_strBytes (s : CStr) : (strBytes s).length = s.bytes.length + 2 := by
  rw [strBytes, length_append, length_be16, add_comm]

mutual

/-- A valid value is written without an error, and what was written is read back, if the
depth that is left is that of the bytes. -/
theorem value_reads : ∀ v : AmfArg, v.Valid → ∃ bytes, encodeArg v = (bytes, none) ∧ bytes ≠ [] ∧
    ∀ n, bytes.length ≤ n → ∀ key dict, Accepts (amfDecodeValue n key dict) bytes
      (odictEntryAdd key v.tree dict)
  | .number v, _ => by
      refine ⟨0x00 :: hexBytes 8 v.toNat, rfl, cons_ne_nil _ _, fun n hn key dict => ?_⟩
      cases n with
      | zero => cases hn
      | succ n => exact accepts_number v
  | .boolean b, _ => by
      refine ⟨[0x01, if b then 1 else 0], rfl, cons_ne_nil _ _, fun n hn key dict => ?_⟩
      cases n with
      | zero => cases hn
      | succ n => exact accepts_boolean b
  | .null, _ => by
      refine ⟨[0x05], rfl, cons_ne_nil _ _, fun n hn key dict => ?_⟩
      cases n with
      | zero => cases hn
      | succ n => exact (accepts_byte 0x05).andThen (accepts_give _)
  | .string str, h => by
      obtain ⟨s, rfl, hlen⟩ := h
      refine ⟨0x02 :: strBytes s, ?_, cons_ne_nil _ _, fun n hn key dict => ?_⟩
      · rw [encodeArg, rtmpAmfEncodeString, if_neg (not_lt.mpr hlen)]
        rfl
      · cases n with
        | zero => cases hn
        | succ n => exact accepts_string hlen
  | .container .ROOT args, h => h.elim
  | .container .OBJECT args, h => by
      obtain ⟨hcount, hkeyed, hvalid⟩ := h
      obtain ⟨bytes, henc, hread⟩ := entries_reads args hkeyed hvalid
      refine ⟨0x03 :: (bytes ++ objectEnd), ?_, cons_ne_nil _ _, fun n hn key dict => ?_⟩
      · show vencodeContainer .OBJECT args.count (encodeArgs .OBJECT args) = _
        rw [vencodeContainer, if_neg hcount, henc .OBJECT rfl]
        rfl
      · cases n with
        | zero => cases hn
        | succ n =>
          simp only [length_cons, length_append] at hn
          exact (accepts_byte 0x03).andThen (accepts_object fun left hleft =>
            hread n left (by omega) hleft .nil)
  | .container .ECMA_ARRAY args, h => by
      obtain ⟨hcount, hkeyed, hvalid⟩ := h
      obtain ⟨bytes, henc, hread⟩ := entries_reads args hkeyed hvalid
      refine ⟨0x08 :: (be32 (UInt32.ofNat args.count) ++ (bytes ++ objectEnd)), ?_, cons_ne_nil _ _,
        fun n hn key dict => ?_⟩
      · show vencodeContainer .ECMA_ARRAY args.count (encodeArgs .ECMA_ARRAY args) = _
        rw [vencodeContainer, if_neg hcount, henc .ECMA_ARRAY rfl]
        rfl
      · cases n with
        | zero => cases hn
        | succ n =>
          simp only [length_cons, length_append] at hn
          exact (accepts_byte 0x08).andThen ((accepts_count _).andThen
            (accepts_object fun left hleft => hread n left (by omega) hleft .nil))
  | .container .STRICT_ARRAY args, h => by
      obtain ⟨hcount, hmax, hvalid⟩ := h
      obtain ⟨bytes, henc, -, hread⟩ := elements_reads args hvalid
      refine ⟨0x0a :: (be32 (UInt32.ofNat args.count) ++ bytes), ?_, cons_ne_nil _ _,
        fun n hn key dict => ?_⟩
      · show vencodeContainer .STRICT_ARRAY args.count (encodeArgs .STRICT_ARRAY args) = _
        rw [vencodeContainer, if_neg hcount, henc .STRICT_ARRAY rfl]
        exact congrArg (fun rest => (0x0a :: (be32 (UInt32.ofNat args.count) ++ rest), none))
          (append_nil bytes)
      · cases n with
        | zero => cases hn
        | succ n =>
          simp only [length_cons, length_append] at hn
          have hlen : (UInt32.ofNat args.count).toNat = args.count := by
            simp
            omega
          refine (accepts_byte 0x0a).andThen ((accepts_count _).andThen ?_)
          rw [hlen, if_neg (by omega)]
          have helems := (hread n (by omega) 0 .nil).1
          exact helems.map fun object => odictEntryAdd key (.array object) dict

/-- The entries of an object up to its end marker. -/
theorem entries_reads : ∀ args : AmfArgs, args.Keyed → args.AllValid → ∃ bytes,
    (∀ container : Container, container.hasKey → encodeArgs container args = (bytes, none)) ∧
      ∀ n left, bytes.length ≤ n → (bytes ++ objectEnd).length ≤ left → ∀ dict,
        Accepts (amfDecodeObject (amfDecodeValue n) left dict) (bytes ++ objectEnd)
        (dict.append args.entries)
  | .nil, _, _ => by
      refine ⟨[], fun _ _ => rfl, fun n left _ hleft dict ys => ?_⟩
      cases left with
      | zero => cases hleft
      | succ left =>
        rw [AmfArgs.entries, Odict.append_nil]
        rfl
  | .cons key v rest, hkeyed, hvalid => by
      obtain ⟨⟨k, rfl, hne, hlen⟩, hkeyed⟩ := hkeyed
      obtain ⟨first, hfirst, -, hreadFirst⟩ := value_reads v hvalid.1
      obtain ⟨others, hothers, hreadOthers⟩ := entries_reads rest hkeyed hvalid.2
      refine ⟨strBytes k ++ (first ++ others), fun container hkey => ?_,
        fun n left hn hleft dict => ?_⟩
      · rw [encodeArgs, keyWritten_of_hasKey hkey hlen, hfirst, hothers container hkey]
        rfl
      simp only [length_append, length_strBytes] at hn hleft
      have hkeylen : 0 < k.bytes.length := length_pos_iff.mpr hne
      have hlen0 : ¬ UInt16.ofNat k.bytes.length = 0 := by
        intro hzero
        have hnat := toNat_length hlen
        rw [hzero, UInt16.toNat_zero] at hnat
        omega
      cases left with
      | zero => omega
      | succ left =>
        have hrest := hreadOthers n left (by omega) (by rw [length_append]; omega)
          (odictEntryAdd k v.tree dict)
        rw [odictEntryAdd_append] at hrest
        have hvalue := (hreadFirst n (by omega) k dict).andThen hrest
        intro ys
        rw [amfDecodeObject]
        beta_reduce
        rw [if_neg (by simp only [length_append, length_strBytes]; omega), strBytes]
        have hentry := hvalue ys
        simp only [append_assoc] at hentry ⊢
        rw [andThen, accepts_len]
        dsimp only
        rw [if_neg hlen0, andThen, accepts_lenString hlen]
        exact hentry

/-- Elements one after the other, up to a number of them or to the end. -/
theorem elements_reads : ∀ args : AmfArgs, args.AllValid → ∃ bytes,
    (∀ container : Container, container.hasKey = false → encodeArgs container args =
      (bytes, none)) ∧
      args.count ≤ bytes.length ∧
      ∀ n, bytes.length ≤ n → ∀ i o,
        Accepts (amfDecodeElements (amfDecodeValue n) args.count i o) bytes
          (o.append (args.elements i)) ∧
          ∀ left, args.count ≤ left →
            amfDecodeRoot (amfDecodeValue n) left i o bytes = .ok (o.append (args.elements i), [])
  | .nil, _ => by
      refine ⟨[], fun _ _ => rfl, zero_le _, fun n _ i o => ⟨fun ys => ?_, fun left _ => ?_⟩⟩
      · rw [AmfArgs.elements, Odict.append_nil]
        rfl
      · rw [AmfArgs.elements, Odict.append_nil]
        cases left <;> rfl
  | .cons key v rest, hvalid => by
      obtain ⟨first, hfirst, hne, hreadFirst⟩ := value_reads v hvalid.1
      obtain ⟨others, hothers, hcount, hreadOthers⟩ := elements_reads rest hvalid.2
      have hpos : 0 < first.length := length_pos_iff.mpr hne
      refine ⟨first ++ others, fun container hkey => ?_, ?_, fun n hn i o => ?_⟩
      · rw [encodeArgs, keyWritten_of_not_hasKey hkey, hfirst, hothers container hkey]
        rfl
      · rw [AmfArgs.count, length_append]
        omega
      rw [length_append] at hn
      have hvalue := hreadFirst n (by omega) (index i) o
      obtain ⟨helems, hroot⟩ := hreadOthers n (by omega) (i + 1) (odictEntryAdd (index i) v.tree o)
      rw [odictEntryAdd_append] at helems
      refine ⟨hvalue.andThen helems, fun left hleft => ?_⟩
      rw [AmfArgs.count] at hleft
      cases left with
      | zero => omega
      | succ left =>
        rw [amfDecodeRoot]
        beta_reduce
        rw [if_neg (by rw [length_append]; omega), andThen, hvalue,
          AmfArgs.elements, ← odictEntryAdd_append]
        exact hroot left (by omega)

end

/-- What `rtmp_amf_vencode_object` writes for the values of the root container is decoded
to their tree, with nothing left; and it fails only if there are none. -/
theorem amf_read_back (args : AmfArgs) (hvalid : args.AllValid) :
    (args.count ≠ 0 → (rtmpAmfVencodeObject .ROOT args).2 = none) ∧
      rtmpAmfDecode (rtmpAmfVencodeObject .ROOT args).1 = .ok (args.elements 0, []) := by
  obtain ⟨bytes, henc, hcount, hread⟩ := elements_reads args hvalid
  cases args with
  | nil => exact ⟨fun h => absurd rfl h, rfl⟩
  | cons key v rest =>
    have hne : (AmfArgs.cons key v rest).count ≠ 0 := succ_ne_zero _
    have hwritten : rtmpAmfVencodeObject .ROOT (.cons key v rest) = (bytes, none) := by
      rw [rtmpAmfVencodeObject, vencodeContainer, if_neg hne, henc .ROOT rfl]
      exact congrArg (fun bytes => (bytes, none)) (append_nil bytes)
    rw [hwritten]
    refine ⟨fun _ => rfl, ?_⟩
    exact (hread bytes.length (le_refl _) 0 .nil).2 bytes.length hcount

/-- A number, and an object with a strict array in it. -/
def reply : AmfArgs :=
  .cons none (.number 0x3ff0000000000000) <|
  .cons none (.container .OBJECT
    (.cons (some ⟨[97], by decide⟩) (.container .STRICT_ARRAY (.cons none (.boolean true)
      (.cons none .null .nil))) .nil)) .nil

theorem reply_read_back : reply.AllValid ∧ rtmpAmfDecode (rtmpAmfVencodeObject .ROOT reply).1 =
    .ok (reply.elements 0, []) := by
  have hvalid : reply.AllValid := by
    refine ⟨trivial, ⟨by decide, ⟨⟨_, rfl, by decide, by decide⟩, trivial⟩,
      ⟨by decide, by decide, trivial, trivial, trivial⟩, trivial⟩,
      trivial⟩
  exact ⟨hvalid, (amf_read_back reply hvalid).2⟩

end LibRe.Rtmp.Amf
