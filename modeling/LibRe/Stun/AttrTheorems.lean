/-
LibRe.Stun.AttrTheorems — STUN attributes are decoded as they were encoded.

For each branch of the two `switch` statements the reader accepts what the writer has
written (`value_accepts`). Two of them, the 16-bit and the 8-bit numbers, read less than
was written and leave the rest to the loop that skips padding. `accepts_attr` puts the
type, the length and the padding around the value.
-/
import LibRe.Stun.Attr

namespace LibRe.Stun

open Bytes Reader Read List

variable {tid : Option Bytes} {kind : AttrKind} {v : AttrValue}

/-! ## Addresses -/

theorem xorPort_xorPort (tid : Option Bytes) (port : UInt16) :
    xorPort tid (xorPort tid port) = port := by
  unfold xorPort
  split
  · rw [UInt16.xor_assoc, UInt16.xor_self, UInt16.xor_zero]
  · rfl

theorem xorIn_xorIn (tid : Option Bytes) (addr : UInt32) : xorIn tid (xorIn tid addr) = addr := by
  unfold xorIn
  split
  · rw [UInt32.xor_assoc, UInt32.xor_self, UInt32.xor_zero]
  · rfl

/-- Xoring twice with as many bytes. -/
theorem xorBytes_xorBytes {xs ks : Bytes} (h : xs.length = ks.length) :
    xorBytes (xorBytes xs ks) ks = xs := by
  induction xs generalizing ks with
  | nil => rfl
  | cons x xs ih =>
    cases ks with
    | nil => cases h
    | cons k ks =>
      have hrest := ih (Nat.succ.inj h)
      simp only [xorBytes, zipWith_cons_cons] at hrest ⊢
      rw [hrest, UInt8.xor_assoc, UInt8.xor_self, UInt8.xor_zero]

/-- A transaction ID, if there is one, has twelve bytes. -/
def TidOk (tid : Option Bytes) : Prop := ∀ t ∈ tid, t.length = 12

variable {addr6 bytes : Bytes}

theorem xorIn6_xorIn6 (htid : TidOk tid)
    (h : addr6.length = 16) : xorIn6 tid (xorIn6 tid addr6) = addr6 := by
  cases tid with
  | none => rfl
  | some tid =>
    have hlen := htid tid rfl
    exact xorBytes_xorBytes (by rw [h, length_append, hlen]; rfl)

theorem length_xorIn6 (htid : TidOk tid)
    (h : addr6.length = 16) : (xorIn6 tid addr6).length = 16 := by
  cases tid with
  | none => exact h
  | some tid =>
    have hlen := htid tid rfl
    rw [xorIn6, in6XorTid, length_xorBytes, h, length_append, hlen]
    rfl

theorem accepts_family (family : UInt8) (port : UInt16) :
    Accepts (checked 4 fun xs => ((xs.drop 1).headD 0, ofBe16 (xs.drop 2)))
      ([0, family] ++ be16 port) (family, port) := by
  refine accepts_fields _ rfl ?_
  have hport : ofBe16 (([0, family] ++ be16 port).drop 2) = port := ofBe16_be16_append port []
  rw [hport]
  rfl

/-- An Internet address is read back, with the exclusive or taken away again. -/
theorem addr_accepts {addr : Sa} (h : addr ≠ .unspec) (htid : TidOk tid) :
    ∃ bytes, stunAddrEncode addr tid = .ok bytes ∧ Accepts (stunAddrDecode tid) bytes addr := by
  cases addr with
  | unspec => exact absurd rfl h
  | inet addr port =>
    refine ⟨_, rfl, ?_⟩
    refine Accepts.andThen (accepts_family 1 (xorPort tid port)) ?_
    have hread := (accepts_word (xorIn tid addr)).map fun a => Sa.inet (xorIn tid a)
      (xorPort tid (xorPort tid port))
    rw [xorIn_xorIn, xorPort_xorPort] at hread
    simp only [xorPort_xorPort]
    exact hread
  | inet6 addr port =>
    refine ⟨_, rfl, ?_⟩
    refine Accepts.andThen (accepts_family 2 (xorPort tid port)) ?_
    have hlen := length_xorIn6 htid (length_hexBytes 16 addr.toNat)
    have hbytes : Accepts (checked 16 id) (xorIn6 tid (hexBytes 16 addr.toNat))
        (xorIn6 tid (hexBytes 16 addr.toNat)) := accepts_fields _ hlen rfl
    have hread := hbytes.map fun a =>
      Sa.inet6 (BitVec.ofNat 128 (ofBe (xorIn6 tid a))) (xorPort tid (xorPort tid port))
    have haddr : BitVec.ofNat 128 (ofBe (hexBytes 16 addr.toNat)) = addr := by
      rw [ofBe_hexBytes]
      apply BitVec.eq_of_toNat_eq
      have hlt := addr.isLt
      rw [BitVec.toNat_ofNat, Nat.mod_eq_of_lt (show addr.toNat < 256 ^ 16 from hlt),
        Nat.mod_eq_of_lt hlt]
    rw [xorIn6_xorIn6 htid (length_hexBytes 16 addr.toNat), haddr, xorPort_xorPort] at hread
    simp only [xorPort_xorPort]
    exact hread

/-! ## Values -/

/-- A value that the branch of its type can write and read: an Internet address, a code
whose hundreds fit three bits, not more unknown types than the array holds. -/
def AttrValue.Valid : AttrKind → AttrValue → Prop
  | .addr, .sa addr => addr ≠ .unspec
  | .xorAddr, .sa addr => addr ≠ .unspec
  | .changeReq, .changeReq _ _ => True
  | .str, .str _ => True
  | .msgIntegrity, .msgIntegrity mac => mac.length = 20
  | .errCode, .errCode code _ => code.toNat < 800
  | .unknownAttr, .unknownAttr typev => typev.length ≤ typevSize
  | .uint16, .uint16 _ => True
  | .uint32, .uint32 _ => True
  | .mb, .mb _ => True
  | .uint8, .uint8 _ => True
  | .evenPort, .evenPort _ => True
  | .noValue, .noValue => True
  | .uint64, .uint64 _ => True
  | _, _ => False

instance (kind : AttrKind) (v : AttrValue) : Decidable (v.Valid kind) := by
  cases kind <;> cases v <;> unfold AttrValue.Valid <;> infer_instance

/-- Only an address to be xored depends on the transaction ID. -/
theorem valueEncode_tid (h : kind ≠ .xorAddr) (v : AttrValue) (tid tid' : Option Bytes) :
    valueEncode kind v tid = valueEncode kind v tid' := by
  cases kind <;> cases v <;> first | rfl | exact absurd rfl h

theorem valueEncode_msgIntegrity (mac : Bytes) :
    valueEncode .msgIntegrity (.msgIntegrity mac) tid = .ok (mac.take 20) := rfl

theorem valueEncode_uint32 (v : UInt32) : valueEncode .uint32 (.uint32 v) tid = .ok (be32 v) := rfl

theorem valueEncode_mb (data : Bytes) : valueEncode .mb (.mb data) tid = .ok data := rfl

/-- The value is written as `read ++ skipped`: what the reader reads, and what it leaves
to be skipped with the padding. -/
def ReadBack (kind : AttrKind) (v : AttrValue) (etid tid : Option Bytes) : Prop :=
  ∃ read skipped, valueEncode kind v etid = .ok (read ++ skipped) ∧
    Accepts (valueDecode kind (read ++ skipped).length tid) read v ∧
      skipped.length + (4 - (read ++ skipped).length % 4) % 4 < 4

variable {etid : Option Bytes}

theorem readBack_whole (henc : valueEncode kind v etid = .ok bytes)
    (hdec : Accepts (valueDecode kind bytes.length tid) bytes v) : ReadBack kind v etid tid := by
  refine ⟨bytes, [], ?_, ?_, ?_⟩
  · rw [append_nil, henc]
  · simp [hdec]
  · simp
    omega

theorem accepts_readU16 (v : UInt16) : Accepts readU16 (be16 v) v := by
  refine accepts_fieldsOr 0 rfl ?_
  rw [← append_nil (be16 v), ofBe16_be16_append]

theorem accepts_readU32 (v : UInt32) : Accepts readU32 (be32 v) v := by
  refine accepts_fieldsOr 0 rfl ?_
  rw [← append_nil (be32 v), ofBe32_be32_append]

theorem accepts_readU64 (v : UInt64) : Accepts readU64 (hexBytes 8 v.toNat) v := by
  refine accepts_fieldsOr 0 (length_hexBytes 8 _) ?_
  have hlt : v.toNat < 256 ^ 8 := v.toNat_lt
  rw [ofBe_hexBytes, Nat.mod_eq_of_lt hlt, UInt64.ofNat_toNat]

theorem readBack_changeReq (ip port : Bool) :
    ReadBack .changeReq (.changeReq ip port) etid tid := by
  refine readBack_whole rfl ?_
  have hread := (accepts_readU32 (UInt32.ofNat (ip.toNat * 4 + port.toNat * 2))).map fun n =>
    AttrValue.changeReq (n.toNat / 4 % 2 = 1) (n.toNat / 2 % 2 = 1)
  have hbits : AttrValue.changeReq
      ((UInt32.ofNat (ip.toNat * 4 + port.toNat * 2)).toNat / 4 % 2 = 1)
      ((UInt32.ofNat (ip.toNat * 4 + port.toNat * 2)).toNat / 2 % 2 = 1) = .changeReq ip port := by
    cases ip <;> cases port <;> rfl
  rw [hbits] at hread
  exact hread

theorem readBack_errCode {code : UInt16} (h : code.toNat < 800) (reason : Bytes) :
    ReadBack .errCode (.errCode code reason) etid tid := by
  refine readBack_whole rfl ?_
  have hhundreds : (UInt8.ofNat (code.toNat / 100)).toNat = code.toNat / 100 := by
    simp
    omega
  have hrest : (UInt8.ofNat (code.toNat % 100)).toNat = code.toNat % 100 := by
    simp
    omega
  have hcode : UInt16.ofNat (code.toNat / 100 % 8 * 100 + code.toNat % 100) = code := by
    simp [Nat.div_lt_of_lt_mul, Nat.mod_eq_of_lt, Nat.div_add_mod', h]
  have hlen : 4 + reason.length - 4 = reason.length := Nat.add_sub_cancel_left 4 _
  have hreason : Accepts (checked reason.length id) reason reason := accepts_fields _ rfl rfl
  have hskip : Accepts (checked 2 fun _ => ()) [0, 0] () := accepts_fields _ rfl rfl
  show Accepts _ ([0, 0] ++ ([_] ++ ([_] ++ reason))) _
  refine Accepts.andThen hskip (Accepts.andThen (accepts_readU8 _)
    (Accepts.andThen (accepts_readU8 _) ?_))
  simp only [hhundreds, hrest, hcode]
  exact hreason.map _

theorem readBack_unknownAttr {typev : List UInt16} (h : typev.length ≤ typevSize) :
    ReadBack .unknownAttr (.unknownAttr typev) etid tid := by
  refine readBack_whole rfl ?_
  have hlen : (typev.flatMap be16).length / 2 = typev.length := by
    simp
  have hread := (Accepts.times typev fun v _ => accepts_readU16 v).map fun typev =>
    AttrValue.unknownAttr (typev.take typevSize)
  rw [take_of_length_le h] at hread
  rw [valueDecode, hlen]
  exact hread

/-- Every valid value is read back. -/
theorem value_readBack (h : v.Valid kind) (htid : TidOk tid)
    (hetid : kind = .xorAddr → etid = tid) :
    ReadBack kind v etid tid := by
  match kind, v, h with
  | .addr, .sa addr, h =>
    -- not xored
    have hnone : TidOk none := fun _ ht => nomatch ht
    obtain ⟨bytes, henc, hdec⟩ := addr_accepts h hnone
    exact readBack_whole henc (hdec.map _)
  | .xorAddr, .sa addr, h =>
    obtain ⟨bytes, henc, hdec⟩ := addr_accepts h htid
    rw [← hetid rfl] at henc
    exact readBack_whole henc (hdec.map _)
  | .changeReq, .changeReq _ _, _ => exact readBack_changeReq _ _
  | .str, .str _, _ | .mb, .mb _, _ =>
    exact readBack_whole rfl (Accepts.map (accepts_fields _ rfl rfl) _)
  | .msgIntegrity, .msgIntegrity mac, h =>
    have hmac : valueEncode .msgIntegrity (.msgIntegrity mac) etid = .ok mac := by
      rw [valueEncode_msgIntegrity, take_of_length_le (le_of_eq h)]
    refine readBack_whole hmac ?_
    rw [valueDecode, if_neg (fun hne => hne h)]
    exact Accepts.map (accepts_fields _ h rfl) _
  | .errCode, .errCode code _, h => exact readBack_errCode h _
  | .unknownAttr, .unknownAttr typev, h => exact readBack_unknownAttr h
  | .uint16, .uint16 _, _ =>
    exact ⟨_, [0, 0], rfl, (accepts_readU16 _).map _, show 2 + (4 - 4 % 4) % 4 < 4 by decide⟩
  | .uint32, .uint32 _, _ => exact readBack_whole rfl ((accepts_readU32 _).map _)
  | .uint8, .uint8 _, _ =>
    exact ⟨[_], [0, 0, 0], rfl, (accepts_readU8 _).map _, show 3 + (4 - 4 % 4) % 4 < 4 by decide⟩
  | .evenPort, .evenPort r, _ =>
    refine readBack_whole rfl ?_
    have hread := (accepts_readU8 (UInt8.ofNat (r.toNat * 128))).map fun b =>
      AttrValue.evenPort (b.toNat / 128 = 1)
    have hbit : AttrValue.evenPort ((UInt8.ofNat (r.toNat * 128)).toNat / 128 = 1) =
        .evenPort r := by
      cases r <;> rfl
    rw [hbit] at hread
    exact hread
  | .noValue, .noValue, _ => exact readBack_whole rfl (accepts_give _)
  | .uint64, .uint64 _, _ =>
    refine readBack_whole rfl ?_
    exact (accepts_readU64 _).map _

/-! ## Attributes -/

theorem length_paddingBytes (padding : UInt8) (len : Nat) :
    (paddingBytes padding len).length = (4 - len % 4) % 4 := length_replicate

theorem length_attrBytes (type : UInt16) (bytes : Bytes) (padding : UInt8) :
    (attrBytes type bytes padding).length = 4 + bytes.length + (4 - bytes.length % 4) % 4 := by
  simp only [attrBytes, length_append, length_be16, length_paddingBytes]

/-- An attribute is read back if its length fits the field for it. -/
theorem accepts_attr {type : UInt16} (h : v.Valid (attrKind type)) {tid : Bytes}
    (htid : TidOk (some tid))
    (padding : UInt8) (henc : valueEncode (attrKind type) v (some tid) = .ok bytes)
    (hlen : bytes.length < 65536) :
    Accepts (stunAttrDecode tid) (attrBytes type bytes padding) ⟨type, v⟩ := by
  obtain ⟨read, skipped, henc', hread, hskip⟩ := value_readBack h htid fun _ => rfl
  cases henc.symm.trans henc'
  have hhead : Accepts (checked 4 fun xs => (ofBe16 xs, (ofBe16 (xs.drop 2)).toNat))
      (be16 type ++ be16 (UInt16.ofNat (read ++ skipped).length))
        (type, (read ++ skipped).length) := by
    refine accepts_fields _ rfl ?_
    have htype : ofBe16 (be16 type ++ be16 (UInt16.ofNat (read ++ skipped).length)) = type :=
      ofBe16_be16_append _ _
    have hlength : ofBe16 ((be16 type ++ be16 (UInt16.ofNat (read ++ skipped).length)).drop 2) =
        UInt16.ofNat (read ++ skipped).length := ofBe16_be16_append _ []
    rw [htype, hlength, UInt16.toNat_ofNat', Nat.mod_eq_of_lt hlen]
  have hpad := length_paddingBytes padding (read ++ skipped).length
  rw [attrBytes, append_assoc (be16 type ++ _)]
  refine Accepts.andThen hhead (Accepts.need ?_ _ (prefix_append _ _).length_le)
  intro ys
  have hsplit : read ++ skipped ++ paddingBytes padding (read ++ skipped).length ++ ys =
      read ++ (skipped ++ paddingBytes padding (read ++ skipped).length ++ ys) := by
    simp only [append_assoc]
  rw [byLength, hsplit, andThen, hread]
  have hslurp :
      slurp (read ++ (skipped ++ paddingBytes padding (read ++ skipped).length ++ ys)).length
      (skipped ++ paddingBytes padding (read ++ skipped).length ++ ys) = .ok ((), ys) := by
    rw [slurp, slurpPadding_append]
    · simp_all
    · simp
      omega
    · grind
  simp only [andThen, hslurp]
  rfl

end LibRe.Stun
