/-
LibRe.Dns.DnameTheorems — what the name encoder writes.

All statements are about one fixed message `W`, the one that is there when
everything has been written. A step of the encoder puts some bytes `w` at the
position; *in any message that has `w` there* and in which the table was right,
the table is right afterwards and the bytes spell the name (`Writes`). Stated
like this the facts stay true when a length field between two names is filled
in later, as the encoder of resource records does.

While a name is being written, its own longer suffixes are in the table but not
yet in the message. They cannot be found: what a lookup finds has the length of
the suffix it looks for.
-/
import LibRe.Dns.NameLayout

namespace LibRe.Dns

open Bytes Layout List

variable {label W : Bytes} {ls labels : List Bytes} {fqdn : Bool} {dn : Dname}

/-! ## Domain names -/

/-- What may stand between two dots. -/
structure ValidLabel (label : Bytes) : Prop where
  pos : 1 ≤ label.length
  le : label.length ≤ 63
  no_nul : (0 : UInt8) ∉ label
  no_dot : dot ∉ label

instance (label : Bytes) : Decidable (ValidLabel label) :=
  decidable_of_iff (1 ≤ label.length ∧ label.length ≤ 63 ∧ (0 : UInt8) ∉ label ∧ dot ∉ label)
    ⟨fun h => ⟨h.1, h.2.1, h.2.2.1, h.2.2.2⟩, fun h => ⟨h.pos, h.le, h.no_nul, h.no_dot⟩⟩

theorem ValidLabel.ne_nil (h : ValidLabel label) : label ≠ [] := ne_nil_of_length_pos h.pos

/-- The length of a label fits its byte. -/
theorem ValidLabel.length_byte (h : ValidLabel label) :
    label.length = (UInt8.ofNat label.length).toNat ∧ UInt8.ofNat label.length ≠ 0 := by
  have hpos := h.pos
  have hle := h.le
  have hval : (UInt8.ofNat label.length).toNat = label.length := by
    simp
    omega
  refine ⟨hval.symm, fun h0 => ?_⟩
  rw [h0] at hval
  exact absurd hval (by simp; omega)

/-- Labels as a C string, with or without a dot at the end. -/
def nameText (labels : List Bytes) (fqdn : Bool) : Bytes :=
  joinDots labels ++ if fqdn then [dot] else []

/-- A domain name: labels of 1 to 63 bytes, at most 253 bytes altogether. The
root has no labels and is written as the empty string or as a single dot. -/
structure DomainName where
  labels : List Bytes
  fqdn : Bool
  valid : ∀ label ∈ labels, ValidLabel label
  length_le : (joinDots labels).length ≤ 253

/-- The string that is handed to the encoder. -/
def DomainName.text (n : DomainName) : Bytes := nameText n.labels n.fqdn

/-- The string without the dot at the end. -/
def DomainName.plain (n : DomainName) : Bytes := joinDots n.labels

/-- A string without a dot at the end. -/
def stripDot (s : Bytes) : Bytes := if s.getLast? = some dot then s.dropLast else s

theorem joinDots_cons_cons (l l' : Bytes) (ls : List Bytes) :
    joinDots (l :: l' :: ls) = l ++ dot :: joinDots (l' :: ls) := by
  simp [joinDots]

@[simp] theorem joinDots_singleton (l : Bytes) : joinDots [l] = l := by
  simp [joinDots]

variable {l : Bytes} {q p n' : Nat}

/-- A label before a name that is not the root. -/
theorem joinDots_cons (h : joinDots ls ≠ []) : joinDots (l :: ls) = l ++ dot :: joinDots ls := by
  cases ls with
  | nil => exact absurd rfl h
  | cons l' ls => exact joinDots_cons_cons l l' ls

theorem nameText_cons_cons (l l' : Bytes) (ls : List Bytes) (fqdn : Bool) :
    nameText (l :: l' :: ls) fqdn = l ++ dot :: nameText (l' :: ls) fqdn := by
  simp [joinDots_cons_cons, nameText]

theorem joinDots_ne_nil (h : ValidLabel l) : joinDots (l :: ls) ≠ [] := by
  intro hnil
  exact h.ne_nil (append_eq_nil_iff.mp hnil).1

theorem joinDots_no_nul (h : ∀ l ∈ ls, ValidLabel l) : (0 : UInt8) ∉ joinDots ls := by
  cases ls with
  | nil => simp [joinDots]
  | cons l ls =>
    intro hmem
    rcases mem_append.mp hmem with hhead | htail
    · exact (h l mem_cons_self).no_nul hhead
    · obtain ⟨l', hl', hin⟩ := mem_flatMap.mp htail
      rcases mem_cons.mp hin with hdot | hin
      · exact absurd hdot (by decide)
      · exact (h l' (mem_cons_of_mem _ hl')).no_nul hin

/-- A name does not end in a dot by itself. -/
theorem getLast?_joinDots (h : ∀ l ∈ ls, ValidLabel l) : (joinDots ls).getLast? ≠ some dot := by
  induction ls with
  | nil => simp [joinDots]
  | cons l ls ih =>
    cases ls with
    | nil =>
      rw [joinDots_singleton]
      intro hlast
      exact (h l mem_cons_self).no_dot (mem_of_getLast? hlast)
    | cons l' ls =>
      have htail : ∀ x ∈ l' :: ls, ValidLabel x := fun x hx => h x (mem_cons_of_mem _ hx)
      have hne : joinDots (l' :: ls) ≠ [] := joinDots_ne_nil (htail l' mem_cons_self)
      rw [joinDots_cons_cons, getLast?_append_of_ne_nil _ (cons_ne_nil _ _)]
      rw [getLast?_cons_of_ne_nil hne]
      exact ih htail

theorem stripDot_lower_nameText (h : ∀ l ∈ ls, ValidLabel l)
    (fqdn : Bool) : stripDot (lower (nameText ls fqdn)) = lower (joinDots ls) := by
  cases fqdn with
  | true =>
    have hlow : lower (nameText ls true) = lower (joinDots ls) ++ [dot] := by
      simp only [nameText, if_true, lower_append]
      rfl
    rw [hlow, stripDot, getLast?_concat, if_pos rfl, dropLast_concat]
  | false =>
    have hlast : (lower (joinDots ls)).getLast? ≠ some dot := by
      rw [lower, getLast?_map]
      intro hmap
      obtain ⟨c, hc, hlow⟩ := Option.map_eq_some_iff.mp hmap
      exact getLast?_joinDots h (hc ▸ congrArg some ((toLower_eq_iff c).2.mp hlow))
    simp only [nameText, Bool.false_eq_true, if_false, append_nil, stripDot, hlast]

/-! ## Names and tables in a message -/

/-- The bytes from `p` to `q` spell these labels, up to letter case, and follow
fewer than `n` pointers. -/
def Spells (W : Bytes) (start p q n : Nat) (labels : List Bytes) : Prop :=
  ∃ labels' j, NameAt W start p labels' q j ∧ lower (joinDots labels') = lower (joinDots labels) ∧
    j < n

/-- A table entry is right in a message: its name stands at its offset. -/
def Right (W : Bytes) (start : Nat) (dn : Dname) : Prop :=
  ∃ labels q j, NameAt W start (dn.pos + start) labels q j ∧
    lower (joinDots labels) = stripDot (lower dn.name) ∧ j < dn.name.length

/-- A name that has been written makes its entry right. -/
theorem Spells.right (hv : ∀ l ∈ labels, ValidLabel l) (hname : dn.name = nameText labels fqdn)
    (h : Spells W start (dn.pos + start) q dn.name.length labels) : Right W start dn := by
  obtain ⟨labels', j, hat, hlow, hj⟩ := h
  refine ⟨labels', q, j, hat, ?_, hj⟩
  rw [hname, stripDot_lower_nameText hv, hlow]

/-- The two bytes of a pointer. -/
theorem pointer_value {pos : Nat} (h : pos ≤ offsetMask) :
    (pointerWord pos).toNat = 0xc000 + pos := by
  have hlt : pos < 2 ^ 14 := Nat.lt_succ_of_le h
  have hor : 3 <<< 14 ||| pos = 3 <<< 14 + pos := (Nat.shiftLeft_add_eq_or_of_lt hlt 3).symm
  have hmask : (compMask.toUInt16 <<< 8).toNat = 3 <<< 14 := by decide
  rw [pointerWord, UInt16.toNat_or, UInt16.toNat_ofNat', Nat.mod_eq_of_lt (by omega), hmask,
    Nat.or_comm, hor]
  rfl

/-- A pointer to an entry that is right spells what was looked for. -/
theorem Right.spells_pointer (h : Right W start dn) (hv : ∀ l ∈ labels, ValidLabel l)
    (hname : lower dn.name = lower (nameText labels fqdn))
    (hw : be16 (pointerWord dn.pos) <+: W.drop p) :
    Spells W start p (p + 2) ((nameText labels fqdn).length + 1) labels := by
  obtain ⟨labels', q, j, hat, hlow, hj⟩ := h
  have hval := pointer_value dn.pos_le
  have hoff : (0xc000 + dn.pos) &&& offsetMask = dn.pos := by
    have hmask : offsetMask = 2 ^ 14 - 1 := rfl
    have hlt : dn.pos ≤ offsetMask := dn.pos_le
    rw [hmask, Nat.and_two_pow_sub_one_eq_mod]
    omega
  have hlen : dn.name.length = (nameText labels fqdn).length := by
    rw [← length_lower, hname, length_lower]
  rw [← hoff, ← hval] at hat
  refine ⟨labels', j + 1, .pointer hw (by omega) hat, ?_, by omega⟩
  rw [hlow, hname, stripDot_lower_nameText hv]

/-- A label in front of a name. -/
theorem Spells.more (hl : ValidLabel label) (hv : ∀ l ∈ labels, ValidLabel l)
    (hw : UInt8.ofNat label.length :: label <+: W.drop p)
    (h : Spells W start (p + 1 + label.length) q n labels) :
    Spells W start p q n (label :: labels) := by
  obtain ⟨labels', j, hat, hlow, hj⟩ := h
  have hle := hl.le
  obtain ⟨hval, hzero⟩ := hl.length_byte
  refine ⟨label :: labels', j, .label hw hval hzero (by omega) (hval ▸ hat), ?_, hj⟩
  cases labels with
  | nil =>
    cases labels' with
    | nil => rfl
    | cons l ls =>
      have hnil : l ++ ls.flatMap (dot :: ·) = [] := map_eq_nil_iff.mp hlow
      exact absurd (append_eq_nil_iff.mp hnil).1 (hat.label_ne_nil l mem_cons_self)
  | cons l ls =>
    have hne : joinDots (l :: ls) ≠ [] := joinDots_ne_nil (hv l mem_cons_self)
    have hne' : joinDots labels' ≠ [] := by
      intro hnil
      rw [hnil] at hlow
      exact hne (map_eq_nil_iff.mp hlow.symm)
    rw [joinDots_cons hne', joinDots_cons hne]
    simp only [lower_append, lower_cons, hlow]

theorem Spells.mono (h : Spells W start p q n labels) (hn : n ≤ n') :
    Spells W start p q n' labels := by
  obtain ⟨labels', j, hat, hlow, hj⟩ := h
  exact ⟨labels', j, hat, hlow, by omega⟩

/-! ## Steps of the encoder -/

variable {start n : Nat} {comp : Bool} {m m' : Msg} {text : Bytes} {S T : Bytes → Prop}

/-- A step from `m` to `m'` that writes something, after which `S` holds. Of the
table it needs only the names shorter than `n`; what it adds to it is right. -/
structure Puts (start n : Nat) (m m' : Msg) (S : Bytes → Prop) : Prop where
  pos_le : m'.mb.pos ≤ m'.mb.end_
  wrote : ∃ w, m'.mb.written = m.mb.written ++ w ∧
    ∀ W, w <+: W.drop m.mb.pos →
      (∀ dn ∈ entries m.htDname, dn.name.length < n → Right W start dn) →
      (∀ dn ∈ entries m'.htDname, dn ∈ entries m.htDname ∨ Right W start dn) ∧ S W

theorem Puts.mono (h : Puts start n m m' S) (hn : n ≤ n') (hST : ∀ W, S W → T W) :
    Puts start n' m m' T := by
  obtain ⟨hp, w, hw, hall⟩ := h
  refine ⟨hp, w, hw, fun W hpre hright => ?_⟩
  obtain ⟨ht, hS⟩ := hall W hpre fun d hd hlt => hright d hd (by omega)
  exact ⟨ht, hST W hS⟩

/-- A zero byte is the root. -/
theorem Puts.root (hp : m.mb.pos ≤ m.mb.end_) (hn : 0 < n) :
    Puts start n m (m.write [0]) (fun W => Spells W start m.mb.pos (m.write [0]).mb.pos n []) :=
  ⟨mbufWriteMem_pos_le _ _, [0], mbufWriteMem_written hp _,
    fun _ hpre _ => ⟨fun _ hd => .inl hd, [], 0, .root hpre, rfl, hn⟩⟩

/-- A pointer to a name that was found. -/
theorem Puts.pointer (hp : m.mb.pos ≤ m.mb.end_) (hv : ∀ l ∈ labels, ValidLabel l)
    (hdn : dnameLookup m.htDname (nameText labels fqdn) = some dn)
    (hn : (nameText labels fqdn).length < n) :
    Puts start n m { m with mb := dnameEncodePointer m.mb dn.pos }
      (fun W => Spells W start m.mb.pos (dnameEncodePointer m.mb dn.pos).pos n labels) := by
  obtain ⟨hmem, hname⟩ := dnameLookup_sound hdn
  have hlen : dn.name.length = (nameText labels fqdn).length := by
    rw [← length_lower, hname, length_lower]
  refine ⟨mbufWriteMem_pos_le _ _, _, mbufWriteMem_written hp _, fun W hpre hright =>
    ⟨fun _ hd => .inl hd, ?_⟩⟩
  exact ((hright dn hmem (by omega)).spells_pointer hv hname hpre).mono hn

/-- What `startLabel` leaves: a reserved byte, and at most the new name in the table. -/
theorem startLabel_entries (hs : start ≤ m.mb.pos) (dn : Option Dname) {d : Dname}
    (hd : d ∈ entries (startLabel m text start dn).htDname) :
    d ∈ entries m.htDname ∨ d.name = text ∧ d.pos + start = m.mb.pos := by
  simp only [startLabel] at hd
  split at hd
  · rcases mem_dnameAppend hd with hold | ⟨hname, hpos⟩
    · exact .inl hold
    · simp [sizeSub, hname, hpos, hs]
  · exact .inl hd

/-- The message with a label written, and with the name that begins there in the table. -/
def labelled (start : Nat) (m : Msg) (text label : Bytes) (dn : Option Dname) : Msg :=
  { startLabel m text start dn with
    mb := (label.foldl mbufWriteU8 (mbufWriteU8 m.mb 0)).store m.mb.pos [UInt8.ofNat label.length] }

/-- Blocks of bytes, one behind the other. -/
theorem foldl_mbufWriteMem {mb : Mbuf} (hp : mb.pos ≤ mb.end_) (blocks : List Bytes) :
    (blocks.foldl mbufWriteMem mb).written = mb.written ++ blocks.flatten ∧
      (blocks.foldl mbufWriteMem mb).pos ≤ (blocks.foldl mbufWriteMem mb).end_ := by
  induction blocks generalizing mb with
  | nil => exact ⟨(append_nil _).symm, hp⟩
  | cons xs blocks ih =>
    obtain ⟨hw, hle⟩ := ih (mbufWriteMem_pos_le mb xs)
    refine ⟨?_, hle⟩
    rw [foldl_cons, hw, mbufWriteMem_written hp, append_assoc, flatten_cons]

theorem foldl_mbufWriteU8_pos (mb : Mbuf) (xs : Bytes) :
    (xs.foldl mbufWriteU8 mb).pos = mb.pos + xs.length := by
  induction xs generalizing mb with
  | nil => rfl
  | cons x xs ih =>
    rw [foldl_cons, ih, length_cons]
    show mb.pos + 1 + xs.length = _
    omega

@[simp] theorem labelled_pos (start : Nat) (m : Msg) (text label : Bytes) (dn : Option Dname) :
    (labelled start m text label dn).mb.pos = m.mb.pos + 1 + label.length := by
  simp [labelled, foldl_mbufWriteU8_pos, mbufWriteU8]

theorem labelled_written (start : Nat) (hp : m.mb.pos ≤ m.mb.end_) (text label : Bytes)
    (dn : Option Dname) :
    (labelled start m text label dn).mb.pos ≤ (labelled start m text label dn).mb.end_ ∧
      (labelled start m text label dn).mb.written = m.mb.written ++ UInt8.ofNat label.length ::
        label := by
  obtain ⟨hfold, hle⟩ := foldl_mbufWriteMem (mbufWriteMem_pos_le m.mb [0]) (label.map ([·]))
  rw [mbufWriteMem_written hp, append_assoc, ← flatMap_def, flatMap_singleton'] at hfold
  rw [foldl_map] at hfold hle
  refine ⟨?_, ?_⟩
  · rw [labelled, store_pos, store_end]
    exact hle
  · rw [labelled, ← length_written hp]
    exact store_written hle hfold rfl rfl

/-- A label has been written, and what comes behind it spells the rest of the name. -/
theorem Puts.more (hl : ValidLabel label) (hv : ∀ l ∈ labels, ValidLabel l)
    (hp : m.mb.pos ≤ m.mb.end_)
    (hs : start ≤ m.mb.pos) (htext : text = nameText (label :: labels) fqdn) {dn : Option Dname}
    (h : Puts start text.length (labelled start m text label dn) m'
      (fun W => Spells W start (labelled start m text label dn).mb.pos m'.mb.pos
        text.length labels)) :
    Puts start text.length m m' (fun W => Spells W start m.mb.pos m'.mb.pos text.length
      (label :: labels)) := by
  obtain ⟨hp', w, hw, hall⟩ := h
  obtain ⟨-, hlw⟩ := labelled_written start hp text label dn
  refine ⟨hp', (UInt8.ofNat label.length :: label) ++ w, ?_, fun W hpre hright => ?_⟩
  · rw [hw, hlw, append_assoc]
  obtain ⟨hlabel, hrest⟩ := append_prefix_drop.mp hpre
  rw [labelled_pos] at hall
  have hplace : m.mb.pos + (UInt8.ofNat label.length :: label).length = m.mb.pos + 1 +
      label.length := by
    simp
    omega
  -- the entry of the name itself has its length, so it is never looked at
  obtain ⟨hnew, hspells⟩ := hall W (hplace ▸ hrest) fun d hd hlt => by
    rcases startLabel_entries hs dn hd with hold | ⟨hname, -⟩
    · exact hright d hold hlt
    · simp [hname] at hlt
  have hspells := hspells.more hl hv hlabel
  refine ⟨fun d hd => ?_, hspells⟩
  rcases hnew d hd with hmem | hr
  · rcases startLabel_entries hs dn hmem with hold | ⟨hname, hdpos⟩
    · exact .inl hold
    · rw [← hdpos, ← hname] at hspells
      have hall : ∀ l ∈ label :: labels, ValidLabel l := forall_mem_cons.mpr ⟨hl, hv⟩
      exact .inr (hspells.right hall (hname.trans htext))
  · exact .inr hr

/-! ## The encoder, label by label -/

/-- The characters of a label are copied. -/
theorem encodeLoop_label (h : dot ∉ label) (pos : Nat) (rest : Bytes) (m : Msg) :
    dnameEncodeLoop start comp m pos (label ++ rest) =
      dnameEncodeLoop start comp { m with mb := label.foldl mbufWriteU8 m.mb } pos rest := by
  induction label generalizing m with
  | nil => rfl
  | cons c label ih =>
    have hc : ¬ c = dot := fun hc => h (hc ▸ mem_cons_self)
    rw [cons_append, dnameEncodeLoop]
    simp only [hc, if_false]
    exact ih (fun hmem => h (mem_cons_of_mem _ hmem)) _

/-- The label that was copied is as long as it is. -/
theorem lablen_eq (hne : label ≠ []) (m : Msg) :
    (label.foldl mbufWriteU8 (mbufWriteU8 m.mb 0)).pos - m.mb.pos - 1 = label.length ∧
    ¬ label.length = 0 := by
  have hpos : (label.foldl mbufWriteU8 (mbufWriteU8 m.mb 0)).pos = m.mb.pos + 1 + label.length :=
    foldl_mbufWriteU8_pos _ _
  have := length_pos_of_ne_nil hne
  omega

/-- A label at the end of the name. -/
theorem encodeLoop_end (hne : label ≠ []) (hno : dot ∉ label) (text : Bytes) (dn : Option Dname) :
    dnameEncodeLoop start comp (startLabel m text start dn) m.mb.pos label =
      (none, (labelled start m text label dn).write [0]) := by
  obtain ⟨hlen, hpos⟩ := lablen_eq hne m
  rw [← append_nil label, encodeLoop_label hno, dnameEncodeLoop]
  simp only [append_nil, startLabel, hlen, hpos, if_false]
  rfl

/-- A label in front of a dot: a pointer, or the next label. -/
theorem encodeLoop_dot (hne : label ≠ []) (hno : dot ∉ label) (text rest : Bytes)
    (dn : Option Dname) :
    dnameEncodeLoop start comp (startLabel m text start dn) m.mb.pos (label ++ dot :: rest) =
      match dnameLookup (labelled start m text label dn).htDname rest, comp with
      | some dn', true =>
        (none, { labelled start m text label dn with
          mb := dnameEncodePointer (labelled start m text label dn).mb dn'.pos })
      | dn', _ =>
        dnameEncodeLoop start comp (startLabel (labelled start m text label dn) rest start dn')
          (labelled start m text label dn).mb.pos rest := by
  obtain ⟨hlen, hpos⟩ := lablen_eq hne m
  rw [encodeLoop_label hno, dnameEncodeLoop]
  simp only [startLabel, hlen, hpos, if_false, if_true]
  rfl

/-- The empty rest behind the last dot is the root. -/
theorem encodeLoop_nil (m : Msg) :
    dnameEncodeLoop start comp (startLabel m [] start none) m.mb.pos [] = (none, m.write [0]) := by
  have htable : dnameAppend m.htDname [] (sizeSub m.mb.pos start) = m.htDname := by
    cases hht : m.htDname <;> simp [dnameAppend]
  have hlen : (startLabel m [] start none).mb.pos - m.mb.pos - 1 = 0 := by
    simp [startLabel, mbufWriteU8]
  rw [dnameEncodeLoop, if_pos hlen, startLabel]
  simp only [Option.isNone_none, if_true, htable]
  rfl

/-- The loop of the encoder on a name that has labels. -/
theorem encodeLoop_puts (comp : Bool) (labels : List Bytes) (label : Bytes) (fqdn : Bool)
    (hv : ∀ l ∈ label :: labels, ValidLabel l) (hp : m.mb.pos ≤ m.mb.end_) (hs : start ≤ m.mb.pos)
    (dn : Option Dname) (htext : text = nameText (label :: labels) fqdn) :
    ∃ m', dnameEncodeLoop start comp (startLabel m text start dn) m.mb.pos text = (none, m') ∧
      m'.mb.pos ≤ m.mb.pos + text.length + 2 ∧
      Puts start text.length m m'
        (fun W => Spells W start m.mb.pos m'.mb.pos text.length (label :: labels)) := by
  induction labels generalizing label m dn text with
  | nil =>
    have hl := hv label mem_cons_self
    have hlen : label.length ≤ text.length := by
      simp [htext, nameText]
    obtain ⟨hlp, -⟩ := labelled_written start hp text label dn
    have hput : Puts start text.length (labelled start m text label dn) _ _ :=
      .root hlp (lt_of_lt_of_le hl.pos hlen)
    refine ⟨_, ?_, ?_, Puts.more hl (by simp) hp hs htext hput⟩
    · cases fqdn with
      | false =>
        have hname : text = label := by simp [htext, nameText]
        exact (congrArg _ hname).trans (encodeLoop_end hl.ne_nil hl.no_dot text dn)
      | true =>
        -- behind the dot there is nothing left: no entry has the empty name
        have hname : text = label ++ [dot] := by simp [htext, nameText]
        refine (congrArg _ hname).trans ((encodeLoop_dot hl.ne_nil hl.no_dot text [] dn).trans ?_)
        rw [dnameLookup_nil]
        exact encodeLoop_nil _
    · show (labelled start m text label dn).mb.pos + 1 ≤ _
      rw [labelled_pos]
      omega
  | cons label' labels ih =>
    have hl := hv label mem_cons_self
    have hv' : ∀ l ∈ label' :: labels, ValidLabel l :=
      fun l hmem => hv l (mem_cons_of_mem _ hmem)
    have hname : text = label ++ dot :: nameText (label' :: labels) fqdn := by
      rw [htext, nameText_cons_cons]
    have hn : text.length = label.length + 1 + (nameText (label' :: labels) fqdn).length := by
      simp [hname]
      omega
    obtain ⟨hlp, -⟩ := labelled_written start hp text label dn
    have hpos := labelled_pos start m text label dn
    have hstep := (congrArg (dnameEncodeLoop start comp (startLabel m text start dn) m.mb.pos)
      hname).trans (encodeLoop_dot hl.ne_nil hl.no_dot text _ dn)
    rw [hstep]
    split
    · next dn' hdn =>
      refine ⟨_, rfl, ?_, Puts.more hl hv' hp hs htext (.pointer hlp hv' hdn (by omega))⟩
      show (labelled start m text label dn).mb.pos + 2 ≤ _
      omega
    · obtain ⟨m', hrun, hlen, hput⟩ := ih label' hv' hlp (by omega) _ rfl
      refine ⟨m', hrun, by omega, Puts.more hl hv' hp hs htext (hput.mono (by omega) fun W h => ?_)⟩
      exact h.mono (by omega)

end LibRe.Dns
