/-
LibRe.Dns.Message — a message that is written step by step.

`Writes` is the contract of every step, for names and for the fixed fields
between them, and it composes. With it the encoder of names is put together
(`dnsDnameEncode_writes`), and any number of names written one after another
into one message, with one table and any choice of compression, are read back
where they stand (`encoded_names_decode`).
-/
import LibRe.Dns.DnameTheorems

namespace LibRe.Dns

open Bytes Layout List Nat

/-! ## Steps that write -/

/-- A step from `m` to `m'` that writes something, after which `S` holds: in
every message with what was written at its place and with a table that was
right, the table is right after the step, and `S` holds. -/
structure Writes (start : Nat) (m m' : Msg) (S : Bytes → Prop) : Prop where
  pos_le : m'.mb.pos ≤ m'.mb.end_
  wrote : ∃ w, m'.mb.written = m.mb.written ++ w ∧
    ∀ W, w <+: W.drop m.mb.pos → (∀ dn ∈ entries m.htDname, Right W start dn) →
      (∀ dn ∈ entries m'.htDname, Right W start dn) ∧ S W

variable {start : Nat} {comp : Bool} {m m' m'' : Msg} {S T : Bytes → Prop}

theorem Writes.mono (h : Writes start m m' S) (hST : ∀ W, S W → T W) : Writes start m m' T := by
  obtain ⟨hp, w, hw, hall⟩ := h
  refine ⟨hp, w, hw, fun W hpre hright => ?_⟩
  obtain ⟨ht, hS⟩ := hall W hpre hright
  exact ⟨ht, hST _ hS⟩

section

variable (hp : m.mb.pos ≤ m.mb.end_)
include hp

/-- The position moves forward. -/
theorem Writes.pos_mono (h : Writes start m m' S) : m.mb.pos ≤ m'.mb.pos := by
  obtain ⟨hp', w, hw, -⟩ := h
  rw [← length_written hp, ← length_written hp', hw, length_append]
  exact le_add_right _ _

/-- Nothing is written. -/
theorem Writes.refl : Writes start m m (fun _ => True) :=
  ⟨hp, [], (List.append_nil _).symm, fun _ _ hright => ⟨hright, trivial⟩⟩

/-- One step after another. -/
theorem Writes.trans (h : Writes start m m' S)
    (h' : Writes start m' m'' T) : Writes start m m'' (fun W => S W ∧ T W) := by
  obtain ⟨hp', w, hw, hall⟩ := h
  obtain ⟨hp'', w', hw', hall'⟩ := h'
  refine ⟨hp'', w ++ w', by rw [hw', hw, append_assoc], fun W hpre hright => ?_⟩
  obtain ⟨hpre, hpre'⟩ := append_prefix_drop.mp hpre
  have hplace : m.mb.pos + w.length = m'.mb.pos := by
    rw [← length_written hp, ← length_written hp', hw, length_append]
  obtain ⟨hright', hS⟩ := hall W hpre hright
  obtain ⟨hright'', hT⟩ := hall' W (hplace ▸ hpre') hright'
  exact ⟨hright'', hS, hT⟩

/-- What was written is there. -/
theorem Writes.room (h : Writes start m m' S) :
    Writes start m m' (fun W => m'.mb.pos - m.mb.pos ≤ (W.drop m.mb.pos).length ∧ S W) := by
  obtain ⟨hp', w, hw, hall⟩ := h
  refine ⟨hp', w, hw, fun W hpre hright => ?_⟩
  obtain ⟨ht, hS⟩ := hall W hpre hright
  have hlen : m'.mb.pos - m.mb.pos = w.length := by
    grind [length_written]
  exact ⟨ht, hlen ▸ hpre.length_le, hS⟩

end

theorem foldl_write (m : Msg) (blocks : List Bytes) :
    blocks.foldl Msg.write m = { m with mb := blocks.foldl mbufWriteMem m.mb } := by
  induction blocks generalizing m with
  | nil => rfl
  | cons xs blocks ih => exact ih (m.write xs)

/-- Blocks of bytes, one behind the other. -/
theorem writes_blocks (start : Nat) (hp : m.mb.pos ≤ m.mb.end_) (blocks : List Bytes) :
    (blocks.foldl Msg.write m).mb.pos = m.mb.pos + blocks.flatten.length ∧
      Writes start m (blocks.foldl Msg.write m) (fun W => blocks.flatten <+: W.drop m.mb.pos) := by
  obtain ⟨hw, hle⟩ := foldl_mbufWriteMem hp blocks
  rw [foldl_write]
  refine ⟨?_, hle, blocks.flatten, hw, fun _ hpre hright => ⟨hright, hpre⟩⟩
  rw [← length_written hle, hw, length_append, length_written hp]

/-- What was written can be read in the message that is there at the end. -/
theorem Writes.shape (hp : m.mb.pos ≤ m.mb.end_) (h : Writes start m m' S)
    (hright : ∀ dn ∈ entries m.htDname, Right m'.mb.bytes start dn) : S m'.mb.bytes := by
  obtain ⟨hp', w, hw, hall⟩ := h
  have hpre : m.mb.written ++ w <+: m'.mb.bytes.drop 0 := hw ▸ written_prefix_bytes m'.mb
  have hpre' := (append_prefix_drop.mp hpre).2
  rw [zero_add, length_written hp] at hpre'
  exact (hall _ hpre' hright).2

/-- Every name of the table stands at its offset, whatever is written behind the message. -/
def TableStands (start : Nat) (m : Msg) : Prop :=
  ∀ dn ∈ entries m.htDname, ∀ W, m.mb.written <+: W → Right W start dn

theorem Writes.shape_of_stands (hp : m.mb.pos ≤ m.mb.end_) (h : Writes start m m' S)
    (ht : TableStands start m) :
    S m'.mb.bytes := by
  refine h.shape hp fun dn hdn => ht dn hdn _ ?_
  obtain ⟨-, w, hw, -⟩ := h
  exact (prefix_append _ w).trans (hw ▸ written_prefix_bytes m'.mb)

/-! ## A name -/

/-- A part of the message reads as this name, up to letter case. -/
def NameIs (start p q : Nat) (n : DomainName) (W : Bytes) : Prop :=
  ∃ name, nameLayout start W p q name ∧ lower name = lower n.plain

variable {labels : List Bytes} {n : Nat}

/-- A name is short enough to be decoded. -/
theorem Spells.layout {W : Bytes} {p q k : Nat}
    (hv : ∀ l ∈ labels, ValidLabel l) (hle : (joinDots labels).length < nameBufSize)
    (h : Spells W start p q k labels) (hk : k ≤ compLoop + 2) :
    ∃ name, nameLayout start W p q name ∧ lower name = lower (joinDots labels) := by
  obtain ⟨labels', j, hat, hlow, hj⟩ := h
  have hlen : (joinDots labels').length = (joinDots labels).length := by
    rw [← length_lower, hlow, length_lower]
  have hno : (0 : UInt8) ∉ joinDots labels' := by
    rw [← mem_lower_iff.1, hlow, mem_lower_iff.1]
    exact joinDots_no_nul hv
  exact ⟨joinDots labels', ⟨labels', j, hat, by omega, by omega, (cString_of_no_nul hno).symm⟩,
    hlow⟩

theorem length_nameText_le (labels : List Bytes) (fqdn : Bool) :
    (nameText labels fqdn).length ≤ (joinDots labels).length + 1 := by
  rw [nameText, length_append]
  split <;> simp

theorem DomainName.length_text (n : DomainName) : n.text.length ≤ 254 := by
  have hlen := length_nameText_le n.labels n.fqdn
  have hle := n.length_le
  rw [DomainName.text]
  omega

/-- The root: a zero byte. -/
theorem Puts.rootName (fqdn : Bool) (hp : m.mb.pos ≤ m.mb.end_) (hs : start ≤ m.mb.pos) (hn : 0 < n)
    (dn : Option Dname) :
    Puts start n m (startLabel m (nameText [] fqdn) start dn)
      (fun W => Spells W start m.mb.pos (m.mb.pos + 1) n []) := by
  refine ⟨mbufWriteMem_pos_le _ _, [0], mbufWriteMem_written hp _, fun W hpre hright => ?_⟩
  have hat : ∀ k, 0 < k → Spells W start m.mb.pos (m.mb.pos + 1) k [] :=
    fun k hk => ⟨[], 0, .root hpre, rfl, hk⟩
  refine ⟨fun d hd => ?_, hat n hn⟩
  rcases startLabel_entries hs dn hd with hold | ⟨hname, hpos⟩
  · exact .inl hold
  · have hlen : 0 < d.name.length := length_pos_of_ne_nil d.isset
    exact .inr (Spells.right (by simp) hname (hpos.symm ▸ hat _ hlen))

/-- `dns_dname_encode` of valid labels succeeds and writes them. -/
theorem dnsDnameEncode_puts (comp : Bool) (fqdn : Bool)
    (hv : ∀ l ∈ labels, ValidLabel l) (hp : m.mb.pos ≤ m.mb.end_) (hs : start ≤ m.mb.pos) :
    ∃ m', dnsDnameEncode m (nameText labels fqdn) start comp = (none, m') ∧
      m'.mb.pos ≤ m.mb.pos + (nameText labels fqdn).length + 2 ∧
      Puts start ((nameText labels fqdn).length + 1) m m'
        (fun W => Spells W start m.mb.pos m'.mb.pos ((nameText labels fqdn).length + 1)
          labels) := by
  unfold dnsDnameEncode
  split
  · next dn hdn =>
    refine ⟨_, rfl, ?_, .pointer hp hv hdn (lt_succ_self _)⟩
    show m.mb.pos + 2 ≤ _
    omega
  · next comp _ _ _ =>
    cases labels with
    | nil =>
      have hput := Puts.rootName fqdn hp hs (succ_pos (nameText [] fqdn).length)
        (dnameLookup m.htDname (nameText [] fqdn))
      have hlen : m.mb.pos + 1 ≤ m.mb.pos + (nameText [] fqdn).length + 2 := by omega
      refine ⟨_, ?_, hlen, hput⟩
      cases fqdn with
      | true => rfl
      | false =>
        have hzero : m.mb.pos + 1 - m.mb.pos - 1 = 0 := by omega
        exact if_pos hzero
    | cons label labels =>
      have hdot : ¬ nameText (label :: labels) fqdn = [dot] := by
        intro hdot
        obtain ⟨c, rest, hl⟩ := exists_cons_of_length_pos (hv label mem_cons_self).pos
        have hc : c = dot := by
          simp [nameText, joinDots, hl] at hdot
          exact hdot.1
        exact (hv label mem_cons_self).no_dot (by simp [hl, hc])
      rw [if_neg hdot]
      obtain ⟨m', hrun, hlen, hput⟩ := encodeLoop_puts comp labels label fqdn hv hp hs _ rfl
      exact ⟨m', hrun, hlen, hput.mono (le_succ _) fun W h => h.mono (le_succ _)⟩

/-- What is right for the names that are looked at is right for all of them. -/
theorem Puts.writes (h : Puts start n m m' S) : Writes start m m' S := by
  obtain ⟨hp, w, hw, hall⟩ := h
  refine ⟨hp, w, hw, fun W hpre hright => ?_⟩
  obtain ⟨hnew, hS⟩ := hall W hpre fun d hd _ => hright d hd
  exact ⟨fun d hd => (hnew d hd).elim (hright d) id, hS⟩

/-- `dns_dname_encode` of a domain name succeeds and writes it. -/
theorem dnsDnameEncode_writes (comp : Bool) (n : DomainName) (hp : m.mb.pos ≤ m.mb.end_)
    (hs : start ≤ m.mb.pos) :
    ∃ m', dnsDnameEncode m n.text start comp = (none, m') ∧ m'.mb.pos ≤ m.mb.pos + 256 ∧
      Writes start m m' (NameIs start m.mb.pos m'.mb.pos n) := by
  obtain ⟨m', hrun, hlen, hput⟩ := dnsDnameEncode_puts comp n.fqdn n.valid hp hs
  have htext : (nameText n.labels n.fqdn).length ≤ 254 := n.length_text
  have hplain : (joinDots n.labels).length < nameBufSize := lt_of_le_of_lt n.length_le (by decide)
  have hfuel : 255 ≤ compLoop + 2 := by decide
  exact ⟨m', hrun, by omega, hput.writes.mono fun W h => h.layout n.valid hplain (by omega)⟩

/-! ## Names one after another -/

/-- Names encoded one after another, each with compression on or off: the first
error, the message, and where each name begins and ends. -/
def encodeNames (start : Nat) : Msg → List (Bytes × Bool) →
    Option Errno × Msg × List (Nat × Nat)
  | m, [] => (none, m, [])
  | m, (name, comp) :: names =>
    match dnsDnameEncode m name start comp with
    | (some err, m') => (some err, m', [])
    | (none, m') =>
      let (err, m'', spans) := encodeNames start m' names
      (err, m'', (m.mb.pos, m'.mb.pos) :: spans)

/-- The names and the choices as they are handed to the encoder. -/
def inputs (names : List (DomainName × Bool)) : List (Bytes × Bool) :=
  names.map fun n => (n.1.text, n.2)

theorem encodeNames_writes (names : List (DomainName × Bool)) (hp : m.mb.pos ≤ m.mb.end_)
    (hs : start ≤ m.mb.pos) :
    ∃ m' spans, encodeNames start m (inputs names) = (none, m', spans) ∧
      Writes start m m' (fun W =>
        List.Forall₂ (fun n span => NameIs start span.1 span.2 n.1 W) names spans) := by
  induction names generalizing m with
  | nil => exact ⟨m, [], rfl, (Writes.refl hp).mono fun _ _ => .nil⟩
  | cons n names ih =>
    obtain ⟨m', hrun, -, hwrites⟩ := dnsDnameEncode_writes n.2 n.1 hp hs
    obtain ⟨m'', spans, hruns, hrest⟩ :=
      ih hwrites.pos_le (le_trans hs (hwrites.pos_mono hp))
    refine ⟨m'', (m.mb.pos, m'.mb.pos) :: spans, ?_, ?_⟩
    · simp_all [inputs, encodeNames]
    · exact (hwrites.trans hp hrest).mono fun W h => .cons h.1 h.2

/-- Every name of a message is read back, up to letter case and the dot at the
end, where it was written, and the decoder stops where its encoding ends. -/
theorem encoded_names_decode {bsize : UInt32} {ht : Hash Dname} (hht : hashAlloc bsize = .ok ht)
    {mb : Mbuf} (hp : mb.pos ≤ mb.end_) {start : Nat} (hs : start ≤ mb.pos)
    (names : List (DomainName × Bool)) :
    ∃ m spans, encodeNames start ⟨mb, some ht⟩ (inputs names) = (none, m, spans) ∧
      List.Forall₂ (fun n span => ∃ name,
        dnsDnameDecode start (mbufSetPos m.mb span.1) = .ok (name, mbufSetPos m.mb span.2) ∧
          lower name = lower n.1.plain) names spans := by
  obtain ⟨m, spans, hrun, hwrites⟩ := encodeNames_writes (m := ⟨mb, some ht⟩) names hp hs
  have hempty : ∀ dn ∈ entries (some ht), Right m.mb.bytes start dn := by
    intro dn hdn
    have hnil : entries (some ht) = [] := hashAlloc_elems hht
    rw [hnil] at hdn
    cases hdn
  refine ⟨m, spans, hrun, (hwrites.shape hp hempty).imp ?_⟩
  rintro n span ⟨name, hlayout, hlow⟩
  exact ⟨name, (dnsDnameDecode_parses start (mbufSetPos m.mb span.1) _ name).mpr
    ⟨span.2, hlayout, rfl⟩, hlow⟩

/-- A table with four buckets. -/
def sampleTable : Hash Dname := { bsize := 4, bucket := [[], [], [], []], length_bucket := rfl }

/-- The name "A.b". -/
def sampleName : DomainName :=
  { labels := [[65], [98]], fqdn := false, valid := by decide, length_le := by decide }

/-- The name "a.B.", which differs in letter case and in the dot. -/
def sampleNameDot : DomainName :=
  { labels := [[97], [66]], fqdn := true, valid := by decide, length_le := by decide }

theorem encoded_names_decode_sample :
    hashAlloc 4 = .ok sampleTable ∧
      ∃ m spans, encodeNames 0 ⟨Mbuf.ofBytes [] 0, some sampleTable⟩
          (inputs [(sampleName, true), (sampleNameDot, false), (sampleName, true)]) =
        (none, m, spans) ∧
        List.Forall₂ (fun n span => ∃ name,
          dnsDnameDecode 0 (mbufSetPos m.mb span.1) = .ok (name, mbufSetPos m.mb span.2) ∧
            lower name = lower n.1.plain)
          [(sampleName, true), (sampleNameDot, false), (sampleName, true)] spans := by
  have halloc : hashAlloc 4 = .ok sampleTable := rfl
  exact ⟨halloc, encoded_names_decode halloc (le_refl 0) (le_refl 0) _⟩

end LibRe.Dns
