/-
LibRe.Rtmp.AmfDepth — how deep the values in an AMF message are nested.

`amf_decode_value` and `amf_decode_object` call each other for every object and every
array inside another one, and no number limits how often. What bounds the depth is the
length of the message alone: another level costs four bytes at least, for the type and
a key of one byte, since the end of the message closes all objects that are open.
`Costs` sets the depth of what a reader returns against the bytes it takes.
-/
import LibRe.Rtmp.Amf

namespace LibRe

mutual

/-- The number of values one inside the other, this one included. -/
def OdictValue.depth : OdictValue → Nat
  | .object o | .array o => o.depth + 1
  | _ => 1

def Odict.depth : Odict → Nat
  | .nil => 0
  | .cons _ v rest => max v.depth rest.depth

end

theorem depth_odictEntryAdd (key : CStr) (v : OdictValue) :
    ∀ o : Odict, (odictEntryAdd key v o).depth = max v.depth o.depth
  | .nil => rfl
  | .cons key' v' rest =>
    by rw [odictEntryAdd, Odict.depth, depth_odictEntryAdd key v rest, Odict.depth, max_left_comm]

namespace Rtmp.Amf

open Reader

variable {α γ : Type} {depth : α → Nat} {m k : Nat} {key : CStr} {dict : Odict}

/-- A reader whose result is no deeper than `m`, or than `k` bytes more than it takes allow. -/
def Costs (r : Reader UInt8 Errno α) (depth : α → Nat) (m k : Nat) : Prop :=
  ∀ xs a rest, r xs = .ok (a, rest) → rest.length ≤ xs.length ∧
    (depth a ≤ m ∨ 4 * depth a ≤ xs.length - rest.length + k)

theorem Costs.give {a : α} (h : depth a ≤ m) : Costs (give a) depth m k := by
  intro xs b rest hr
  cases hr
  exact ⟨le_refl _, .inl h⟩

theorem Costs.fail (err : Errno) : Costs (fail err) depth m k := by
  intro xs a rest hr
  cases hr

variable {f : Bytes → γ} {n : Nat} {r : Reader UInt8 Errno Odict}

/-- Bytes in front. -/
theorem Costs.after {next : γ → Reader UInt8 Errno α} (h : ∀ c, Costs (next c) depth m (n + k)) :
    Costs (andThen (fields .ENODATA n f) next) depth m k := by
  intro xs a rest hr
  obtain ⟨c, ys, hc, hr⟩ := andThen_ok hr
  obtain ⟨hle, -, rfl⟩ := fields_ok hc
  have hnext := h c _ _ _ hr
  rw [List.length_drop] at hnext
  omega

theorem Costs.andThen {next : Odict → Reader UInt8 Errno Odict} (h : Costs r Odict.depth m k)
    (hnext : ∀ dict, Costs (next dict) Odict.depth dict.depth k) :
    Costs (andThen r next) Odict.depth m k := by
  intro xs a rest hr
  obtain ⟨dict, ys, hdict, hr⟩ := andThen_ok hr
  have hfirst := h _ _ _ hdict
  have hrest := hnext dict _ _ _ hr
  omega

theorem Costs.mono {r : Reader UInt8 Errno α} {k' : Nat} (h : Costs r depth m k) (hk : k ≤ k') :
    Costs r depth m k' := by
  intro xs a rest hr
  have hcost := h _ _ _ hr
  omega

/-- A loop that stops where the bytes end. -/
theorem Costs.whileLeft (h : Costs r Odict.depth dict.depth k) :
    Costs (fun xs => if xs.length = 0 then .ok (dict, xs) else r xs) Odict.depth dict.depth k := by
  intro xs a rest hr
  beta_reduce at hr
  split at hr
  · cases hr
    exact ⟨le_refl _, .inl (le_refl _)⟩
  · exact h xs a rest hr

/-- A value that is added to the dictionary. -/
theorem Costs.entry {r : Reader UInt8 Errno α} {f : α → OdictValue}
    (h : Costs r (fun a => (f a).depth) 1 k) (hk : 4 ≤ k) :
    Costs (Reader.andThen r fun a => Reader.give (odictEntryAdd key (f a) dict)) Odict.depth
      dict.depth k := by
  intro xs a rest hr
  obtain ⟨c, ys, hc, hr⟩ := andThen_ok hr
  cases hr
  have hvalue : _ ∧ ((f c).depth ≤ 1 ∨ 4 * (f c).depth ≤ _) := h _ _ _ hc
  rw [depth_odictEntryAdd]
  omega

/-- A value without others inside. -/
theorem Costs.leaf {g : γ → OdictValue} (h : ∀ c, (g c).depth = 1) (hk : 4 ≤ k) :
    Costs (Reader.andThen (fields .ENODATA n f) fun c => Reader.give (odictEntryAdd key (g c) dict))
      Odict.depth dict.depth k := by
  refine .entry (fun xs a rest hr => ?_) hk
  obtain ⟨hle, -, rfl⟩ := fields_ok hr
  simp [h]

section

variable {value : CStr → DictReader} (hvalue : ∀ key dict, Costs (value key dict) Odict.depth
  dict.depth 3)

include hvalue

theorem amfDecodeObject_costs (n : Nat) : ∀ dict, Costs (amfDecodeObject value n dict) Odict.depth
    dict.depth 0 := by
  induction n with
  | zero => exact fun dict => .give (le_refl _)
  | succ n ih =>
    intro dict
    refine .whileLeft (.after fun len => ?_)
    split
    · refine .after fun val => ?_
      split
      · exact .give (le_refl _)
      · exact .fail _
    · -- a key has a byte at least
      have hlen : len.toNat ≠ 0 := fun h => absurd (UInt16.toNat_inj.mp h) ‹_›
      exact .after fun key => ((hvalue key dict).mono (by omega)).andThen fun dict =>
        (ih dict).mono (by omega)

theorem amfDecodeElements_costs (n : Nat) : ∀ i dict, Costs (amfDecodeElements value n i dict)
    Odict.depth dict.depth 3 := by
  induction n with
  | zero => exact fun i dict => .give (le_refl _)
  | succ n ih => exact fun i dict => (hvalue _ dict).andThen fun dict => ih (i + 1) dict

theorem amfDecodeRoot_costs (n : Nat) : ∀ i dict, Costs (amfDecodeRoot value n i dict) Odict.depth
    dict.depth 3 := by
  induction n with
  | zero => exact fun i dict => .give (le_refl _)
  | succ n ih =>
    exact fun i dict => .whileLeft ((hvalue _ dict).andThen fun dict => ih (i + 1) dict)

end

theorem amfDecodeValue_costs (n : Nat) : ∀ key dict, Costs (amfDecodeValue n key dict) Odict.depth
    dict.depth 3 := by
  induction n with
  | zero => exact fun key dict => .fail _
  | succ n ih =>
    intro key dict
    have hobject : Costs (Reader.andThen (byLength fun left => amfDecodeObject (amfDecodeValue n)
        left .nil) fun object =>
        Reader.give (odictEntryAdd key (.object object) dict)) Odict.depth dict.depth 4 := by
      refine .entry (fun xs object rest hr => ?_) (le_refl _)
      have hcost := amfDecodeObject_costs ih _ .nil _ _ _ hr
      simp only [OdictValue.depth, Odict.depth] at hcost ⊢
      omega
    refine .after fun type => ?_
    split
    · exact .leaf (fun _ => rfl) (by decide)
    · exact .leaf (fun _ => rfl) (by decide)
    · exact .after fun len => .leaf (fun _ => rfl) (by decide)
    · intro xs a rest hr
      cases hr
      simp only [depth_odictEntryAdd, OdictValue.depth]
      omega
    · exact .after fun _ => hobject.mono (by decide)
    · exact hobject
    · refine .after fun len => ?_
      split
      · exact .fail _
      · refine .entry (fun xs object rest hr => ?_) (by decide)
        have hcost := amfDecodeElements_costs ih _ _ .nil _ _ _ hr
        simp only [OdictValue.depth, Odict.depth] at hcost ⊢
        omega
    · exact .fail _

/-- The message that is nested as deep as its length allows: objects with one key of one byte, and
no end. -/
def nested : Nat → Bytes
  | 0 => [0x05]
  | d + 1 => [0x03, 0x00, 0x01, 0x61] ++ nested d

theorem length_nested (d : Nat) : (nested d).length = 4 * d + 1 := by
  induction d with
  | zero => rfl
  | succ d ih => simp [nested, ih, mul_add]

theorem nested_decoded (d : Nat) : ∀ n key dict, d < n →
    ∃ v, amfDecodeValue n key dict (nested d) = .ok (odictEntryAdd key v dict, []) ∧
    v.depth = d + 1 := by
  induction d with
  | zero =>
    intro n key dict hn
    obtain ⟨n, rfl⟩ : ∃ m, n = m + 1 := Nat.exists_eq_succ_of_ne_zero (by omega)
    exact ⟨.null, rfl, rfl⟩
  | succ d ih =>
    intro n key dict hn
    obtain ⟨n, rfl⟩ : ∃ m, n = m + 1 := Nat.exists_eq_succ_of_ne_zero (by omega)
    obtain ⟨v, hv, hdepth⟩ := ih n (CStr.ofMem [0x61]) .nil (by omega)
    refine ⟨.object (.cons (CStr.ofMem [0x61]) v .nil), ?_, ?_⟩
    · have hobject : byLength (fun left => amfDecodeObject (amfDecodeValue n) left .nil)
          ([0x00, 0x01, 0x61] ++ nested d) =
          .ok (.cons (CStr.ofMem [0x61]) v .nil, []) := by
        show andThen (amfDecodeValue n (CStr.ofMem [0x61]) .nil)
          (amfDecodeObject _ ((nested d).length + 2)) (nested d) = _
        rw [Reader.andThen, hv]
        rfl
      show Reader.andThen (byLength fun left => amfDecodeObject (amfDecodeValue n) left .nil) _
        ([0x00, 0x01, 0x61] ++ nested d) = _
      rw [Reader.andThen, hobject]
      rfl
    · simp [OdictValue.depth, Odict.depth, hdepth]

theorem rtmpAmfDecode_nested (d : Nat) : ∃ msg, rtmpAmfDecode (nested d) = .ok (msg, []) ∧
    msg.depth = d + 1 := by
  have hlen := length_nested d
  obtain ⟨v, hv, hdepth⟩ := nested_decoded d (nested d).length (index 0) .nil (by omega)
  refine ⟨.cons (index 0) v .nil, ?_, by simp [Odict.depth, hdepth]⟩
  obtain ⟨n, hn⟩ : ∃ n, (nested d).length = n + 1 := ⟨_, hlen⟩
  rw [rtmpAmfDecode, byLength, hn, amfDecodeRoot]
  rw [hn] at hv
  simp only [hn, Nat.succ_ne_zero, if_false]
  rw [Reader.andThen, hv]
  cases n <;> rfl

/-- Messages of up to `n` bytes are not nested deeper than a given depth exactly if there are no
more than four of these bytes for every level: there is no other limit. -/
theorem amf_depth_bounded_iff (n maxdepth : Nat) :
    (∀ buf : Bytes, buf.length ≤ n → ∀ msg rest, rtmpAmfDecode buf = .ok (msg, rest) →
      msg.depth ≤ maxdepth) ↔
      n ≤ 4 * maxdepth := by
  refine ⟨fun h => ?_, fun hn buf hbuf msg rest hmsg => ?_⟩
  · obtain ⟨msg, hmsg, hdepth⟩ := rtmpAmfDecode_nested maxdepth
    have hlen := length_nested maxdepth
    by_contra hn
    have hle := h _ (by omega) _ _ hmsg
    omega
  · have hcost := amfDecodeRoot_costs (amfDecodeValue_costs buf.length) _ 0 .nil _ _ _ hmsg
    rw [Odict.depth] at hcost
    omega

/-- A message may be nested as deep as one likes. -/
theorem amf_depth_unbounded : ¬ ∃ maxdepth, ∀ (buf : Bytes) (msg : Odict) (rest : Bytes),
    rtmpAmfDecode buf = .ok (msg, rest) → msg.depth ≤ maxdepth := by
  rintro ⟨maxdepth, h⟩
  obtain ⟨msg, hmsg, hdepth⟩ := rtmpAmfDecode_nested maxdepth
  have hle := h _ _ _ hmsg
  omega

end Rtmp.Amf

end LibRe
