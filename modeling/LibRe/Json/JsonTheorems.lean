/-
LibRe.Json.JsonTheorems — JSON text is read back as the dictionary it was made of.

`Scans` says what the loop has done once it is behind a piece of text, whatever follows.
A string, a number or a word leaves its own text in `val`; an object or an array is
already entered and leaves nothing there. In both cases the next comma or the closing
bracket completes the entry (`Ends`), so that the induction over the tree has one
statement for all values (`value_scans`).

The elements of an array have no names in the text. They are given their index as a key
(`Odict.elements`), which is the key they had unless the array was built otherwise.
-/
import LibRe.Json.Json

namespace LibRe.Json

open Digits List

variable {xs text : Bytes} {ch : UInt8} {key : CStr} {F : Floats} {maxdepth : Nat}

/-! ## What is decoded -/

mutual

/-- The value with every array keyed by index. -/
def indexedValue : OdictValue → OdictValue
  | .object o => .object (indexed o)
  | .array o => .array (elements 0 o)
  | .string s => .string s
  | .int i => .int i
  | .double bits => .double bits
  | .bool b => .bool b
  | .null => .null

/-- The dictionary with every array in it keyed by index. -/
def indexed : Odict → Odict
  | .nil => .nil
  | .cons key v rest => .cons key (indexedValue v) (indexed rest)

/-- The elements of an array, from an index on. -/
def elements (i : UInt32) : Odict → Odict
  | .nil => .nil
  | .cons _ v rest => .cons (index i) (indexedValue v) (elements (i + 1) rest)

end

mutual

/-- The elements of every array have their index as a key. -/
def ArraysIndexedValue : OdictValue → Prop
  | .object o => ArraysIndexed o
  | .array o => ElementsIndexed 0 o
  | _ => True

def ArraysIndexed : Odict → Prop
  | .nil => True
  | .cons _ v rest => ArraysIndexedValue v ∧ ArraysIndexed rest

def ElementsIndexed (i : UInt32) : Odict → Prop
  | .nil => True
  | .cons key v rest => key = index i ∧ ArraysIndexedValue v ∧ ElementsIndexed (i + 1) rest

end

mutual

/-- No doubles. -/
def ExactValue : OdictValue → Prop
  | .object o => Exact o
  | .array o => Exact o
  | .double _ => False
  | _ => True

def Exact : Odict → Prop
  | .nil => True
  | .cons _ v rest => ExactValue v ∧ Exact rest

end

mutual

/-- The number of containers around the innermost value. -/
def depthValue : OdictValue → Nat
  | .object o => depth o + 1
  | .array o => depth o + 1
  | _ => 0

def depth : Odict → Nat
  | .nil => 0
  | .cons _ v rest => max (depthValue v) (depth rest)

end

mutual

theorem indexedValue_eq : ∀ v : OdictValue, ArraysIndexedValue v → indexedValue v = v
  | .object o, h => congrArg OdictValue.object (indexed_eq o h)
  | .array o, h => congrArg OdictValue.array (elements_eq 0 o h)
  | .string _, _ | .int _, _ | .double _, _ | .bool _, _ | .null, _ => rfl

theorem indexed_eq : ∀ o : Odict, ArraysIndexed o → indexed o = o
  | .nil, _ => rfl
  | .cons key v rest, h => by rw [indexed, indexedValue_eq v h.1, indexed_eq rest h.2]

theorem elements_eq : ∀ (i : UInt32) (o : Odict), ElementsIndexed i o → elements i o = o
  | _, .nil, _ => rfl
  | i, .cons key v rest, h =>
    by rw [elements, indexedValue_eq v h.2.1, elements_eq (i + 1) rest h.2.2, ← h.1]

end

/-! ## Names and values -/

theorem isString_quoted (s : CStr) : isString (quoted s) = some (utf8Encode s.bytes) := by
  have hlen : (quoted s).length = (utf8Encode s.bytes).length + 2 := by simp [quoted]
  have hlast : (quoted s).getLastD 0 = 34 := getLastD_concat ..
  rw [isString, if_neg (by omega), if_neg (by rw [hlast]; exact fun h => h.elim (· rfl) (· rfl))]
  simp [quoted]

theorem decodeName_quoted (s : CStr) : decodeName (quoted s) = .ok s := by
  rw [decodeName, isString_quoted]
  dsimp only
  rw [utf8Decode_utf8Encode]
  exact congrArg Except.ok (CStr.ofMem_bytes s)

/-- Reading digits from the right. -/
theorem foldlM_numStep (h : ∀ x ∈ xs, isDigit x = true) :
    xs.reverse.foldlM numStep {} = some { v := ofDecimal xs 0, mul := 10 ^ xs.length } := by
  induction xs with
  | nil => rfl
  | cons x xs ih =>
    have hx := h x mem_cons_self
    have hstep : ∀ v mul : Nat, numStep { v, mul } x =
        some { v := v + mul * (x.toNat - 48), mul := mul * 10 } := by
      intro v mul
      have hne : ∀ c : UInt8, isDigit c = false → x ≠ c := by
        rintro c hc rfl
        rw [hc] at hx
        exact nomatch hx
      rw [numStep, if_neg (not_or.mpr ⟨hne 101 rfl, hne 69 rfl⟩), if_neg (hne 46 rfl), if_pos hx]
      rfl
    have hvalue : ofDecimal (x :: xs) 0 = ofDecimal xs 0 + 10 ^ xs.length * (x.toNat - 48) := by
      have hhead : ofDecimal (x :: xs) 0 = ofDecimal xs (10 * 0 + (x.toNat - 48)) := rfl
      rw [hhead, ofDecimal_init]
      ring
    rw [reverse_cons, foldlM_append, ih fun y hy => h y (mem_cons_of_mem x hy), hvalue, length_cons,
      pow_succ]
    show (numStep _ x >>= fun st => some st) = _
    rw [hstep]
    rfl

theorem isNumber_intText (i : Int64) : isNumber F (intText i) = some (.int i) := by
  have hdigits := @foldlM_numStep (decimal i.toInt.natAbs) fun x hx => isDigit_of_mem_decimal hx
  rw [ofDecimal_decimal] at hdigits
  have hne := decimal_ne_nil i.toInt.natAbs
  rw [isNumber, intText]
  by_cases hneg : i.toInt < 0
  · have habs : -((i.toInt.natAbs : Nat) : Int) = i.toInt := by omega
    rw [if_pos hneg, if_neg (by simp), reverse_cons, foldlM_append, hdigits]
    refine Eq.trans (b := some (OdictValue.int (Int64.ofInt (-((i.toInt.natAbs : Nat) : Int))))) rfl
      ?_
    rw [habs, Int64.ofInt_toInt]
  · have habs : ((i.toInt.natAbs : Nat) : Int) = i.toInt := by omega
    rw [if_neg hneg, if_neg (by simpa using hne), hdigits]
    refine Eq.trans (b := some (OdictValue.int (Int64.ofInt ((i.toInt.natAbs : Nat) : Int)))) rfl ?_
    rw [habs, Int64.ofInt_toInt]

/-- Characters that no case of the loop picks out. -/
def isPlain (ch : UInt8) : Bool := ch.toNat ∉ [34, 58, 44, 123, 91, 125, 93, 32, 9, 13, 10]

theorem isPlain_of_isDigit (h : isDigit ch = true) : isPlain ch = true := by
  revert ch
  decide +kernel

theorem isPlain_intText (i : Int64) : intText i ≠ [] ∧ ∀ ch ∈ intText i, isPlain ch = true := by
  rw [intText]
  split
  · refine ⟨cons_ne_nil _ _, fun ch hch => ?_⟩
    cases hch with
    | head => rfl
    | tail _ hch => exact isPlain_of_isDigit (isDigit_of_mem_decimal hch)
  · exact ⟨decimal_ne_nil _, fun ch hch => isPlain_of_isDigit (isDigit_of_mem_decimal hch)⟩

theorem isString_plain (h : ∀ ch ∈ xs, isPlain ch = true) : isString xs = none := by
  rw [isString]
  split
  · rfl
  · cases xs with
    | nil => rfl
    | cons x xs =>
      have hx : x ≠ 34 := by
        rintro rfl
        exact absurd (h 34 mem_cons_self) (by decide)
      exact if_pos (Or.inl hx)

/-! ## Scanning -/

/-- With the loop's variables in one state, the text is read and leaves another. -/
def Scans (F : Floats) (maxdepth d : Nat) (xs : Bytes) (st st' : St) : Prop :=
  ∀ n ys, (xs ++ ys).length ≤ n →
    ∃ m, ys.length ≤ m ∧ jsonLoop F maxdepth n d st (xs ++ ys) = jsonLoop F maxdepth m d st' ys

variable {d : Nat} {st st' st'' : St} {ys text' : Bytes} {v : OdictValue} {o' : Odict}

theorem Scans.trans (h : Scans F maxdepth d xs st st') (h' : Scans F maxdepth d ys st' st'') :
    Scans F maxdepth d (xs ++ ys) st st'' := by
  intro n zs hn
  rw [append_assoc] at hn ⊢
  obtain ⟨m, hm, heq⟩ := h n (ys ++ zs) hn
  obtain ⟨k, hk, heq'⟩ := h' m zs hm
  exact ⟨k, hk, heq.trans heq'⟩

theorem scans_nil : Scans F maxdepth d [] st st := fun n _ hn => ⟨n, hn, rfl⟩

theorem scans_char (h : ∀ deep rest, st.step F deep ch rest = .next st') :
    Scans F maxdepth d [ch] st st' := by
  intro n ys hn
  obtain ⟨m, rfl⟩ : ∃ m, n = m + 1 := Nat.exists_eq_succ_of_ne_zero
    (by rintro rfl; exact absurd hn (by simp))
  refine ⟨m, by simpa using hn, ?_⟩
  show jsonLoop F maxdepth (m + 1) d st (ch :: ys) = _
  rw [jsonLoop, h]

/-- Inside an object (`inobj`) or an array, between entries. -/
@[simp] def inside (inobj : Bool) (name : Option Bytes) (idx : UInt32) (o : Odict)
    (val : Option Bytes) : St :=
  { inobj, inarray := !inobj, name, idx, o, val }

variable {b : Bool} {name : Option Bytes} {idx : UInt32} {o : Odict}

theorem step_plain (h : isPlain ch = true) (hq : st.inquot = false) (deep : Bool) (rest : Bytes) :
    st.step F deep ch rest = .next (st.other F ch rest) := by
  have hne := of_decide_eq_true h
  rw [St.step, if_neg (by rw [hq]; decide)]
  split
  case h_11 => rfl
  all_goals
    rename_i hch
    rw [hch] at hne
    exact absurd hne (by decide)

/-- A number or a word. -/
theorem scans_plain (hne : xs ≠ []) (h : ∀ ch ∈ xs, isPlain ch = true) :
    Scans F maxdepth d xs (inside b name idx o none) (inside b name idx o (some xs)) := by
  have hmore : ∀ (ys v : Bytes), (∀ ch ∈ ys, isPlain ch = true) →
      Scans F maxdepth d ys (inside b name idx o (some v))
        (inside b name idx o (some (v ++ ys))) := by
    intro ys
    induction ys with
    | nil =>
      simp [scans_nil]
    | cons ch ys ih =>
      intro v hys
      have hfirst : Scans F maxdepth d [ch] (inside b name idx o (some v))
          (inside b name idx o (some (v ++ [ch]))) :=
        scans_char fun deep rest => step_plain (hys ch mem_cons_self) rfl deep rest
      have hrest := ih (v ++ [ch]) fun c hc => hys c (mem_cons_of_mem ch hc)
      rw [append_assoc] at hrest
      exact hfirst.trans hrest
  cases xs with
  | nil => exact absurd rfl hne
  | cons x xs =>
    have hx := h x mem_cons_self
    have hquote : decide (x = 34) = false := by
      refine decide_eq_false ?_
      rintro rfl
      exact absurd hx (by decide)
    have hfirst : Scans F maxdepth d [x] (inside b name idx o none)
        (inside b name idx o (some [x])) := by
      refine scans_char fun deep rest => (step_plain hx rfl deep rest).trans ?_
      cases b <;> simp [St.other, hquote]
    exact hfirst.trans (hmore xs [x] fun c hc => h c (mem_cons_of_mem x hc))

/-- Between quotes, behind an even number of backslashes. -/
def inQuotes (b : Bool) (name : Option Bytes) (idx : UInt32) (o : Odict) (val : Bytes) : St :=
  { inside b name idx o (some val) with inquot := true }

/-- Text that does not leave the quotes. -/
def Inner (F : Floats) (xs : Bytes) : Prop :=
  ∀ maxdepth d b name idx o val, Scans F maxdepth d xs (inQuotes b name idx o val)
    (inQuotes b name idx o (val ++ xs))

attribute [local simp] St.step St.quotedChar

theorem inner_plain {c : UInt8} (hq : c ≠ 34) (hb : c ≠ 92) : Inner F [c] := by
  intro maxdepth d b name idx o val
  refine scans_char fun deep rest => ?_
  simp [inQuotes, St.keep, hq, hb]

theorem inner_escape (e : UInt8) : Inner F [92, e] := by
  intro maxdepth d b name idx o val
  have hslash : Scans F maxdepth d [92] (inQuotes b name idx o val)
      { inQuotes b name idx o (val ++ [92]) with esc := true } :=
    scans_char fun deep rest => by simp [inQuotes, St.keep]
  refine hslash.trans (scans_char fun deep rest => ?_)
  simp [inQuotes, St.keep]

theorem Inner.append (h : Inner F xs) (h' : Inner F ys) : Inner F (xs ++ ys) := by
  intro maxdepth d b name idx o val
  have hrest := h' maxdepth d b name idx o (val ++ xs)
  rw [append_assoc] at hrest
  exact (h maxdepth d b name idx o val).trans hrest

theorem hexChar_spec (n : UInt8) : hexChar (n &&& 0xf) ≠ 34 ∧ hexChar (n &&& 0xf) ≠ 92 := by
  revert n
  decide +kernel

theorem inner_char (c : UInt8) : Inner F (utf8EncodeChar c) := by
  unfold utf8EncodeChar
  cases hshort : shortEscape c with
  | some ec => exact inner_escape ec
  | none =>
    dsimp only
    split
    · have hhi := hexChar_spec (c >>> 4)
      have hlo := hexChar_spec c
      have hzero : Inner F [48] := inner_plain (by decide) (by decide)
      exact (inner_escape 117).append
        (hzero.append (hzero.append ((inner_plain hhi.1 hhi.2).append (inner_plain hlo.1 hlo.2))))
    · refine inner_plain ?_ ?_ <;> rintro rfl <;> exact nomatch hshort

theorem inner_utf8Encode (str : Bytes) : Inner F (utf8Encode str) := by
  induction str with
  | nil =>
    intro maxdepth d b name idx o val
    rw [utf8Encode, flatMap_nil, append_nil]
    exact scans_nil
  | cons c str ih => exact (inner_char c).append ih

/-- A string. -/
theorem scans_quoted (s : CStr) :
    Scans F maxdepth d (quoted s) (inside b name idx o none)
    (inside b name idx o (some (quoted s))) := by
  have hopen : Scans F maxdepth d [34] (inside b name idx o none) (inQuotes b name idx o [34]) := by
    refine scans_char fun deep rest => ?_
    cases b <;> simp [inQuotes, St.other]
  have hclose : Scans F maxdepth d [34] (inQuotes b name idx o (34 :: utf8Encode s.bytes))
      (inside b name idx o (some (quoted s))) :=
    scans_char fun deep rest => by simp [inQuotes, St.keep, quoted]
  exact (hopen.trans (inner_utf8Encode s.bytes maxdepth d b name idx o [34])).trans hclose

/-! ## Entries -/

section

variable (hq : st.inquot = false) {deep : Bool} {rest : Bytes}
include hq

theorem step_comma : st.step F deep 44 rest = st.comma F := by
  simp [hq]

theorem step_closeObject : st.step F deep 125 rest = st.closeObject F := by
  simp [hq]

theorem step_closeArray : st.step F deep 93 rest = st.closeArray F := by
  simp [hq]

end

/-- The entry is complete at the next comma or closing bracket. -/
structure Ends (F : Floats) (b : Bool) (idx : UInt32) (o : Odict) (st : St) : Prop where
  comma : ∀ deep rest, st.step F deep 44 rest =
    .next (inside b none (if b then idx else idx + 1) o none)
  close : ∀ deep rest, st.step F deep (if b then 125 else 93) rest = .done o

/-- Nothing is left in `val`. -/
theorem ends_container : Ends F b idx o (inside b none (if b then idx else idx + 1) o none) where
  comma _ _ := by cases b <;> rfl
  close _ _ := by cases b <;> rfl

/-- The name of an entry, or its place in an array, and the key that this is. -/
def Names (b : Bool) (name : Option Bytes) (idx : UInt32) (key : CStr) : Prop :=
  if b then ∃ text, name = some text ∧ decodeName text = .ok key else name = none ∧ key = index idx

theorem ends_scalar (hname : Names b name idx key)
    (hv : decodeValue F text = .ok v) : Ends F b idx (odictEntryAdd key v o)
    (inside b name idx o (some text)) := by
  have hval : (inside b name idx o (some text)).chkval = some text := by simp [St.chkval]
  cases b with
  | true =>
    obtain ⟨nm, rfl, hkey⟩ := hname
    have hentry : (inside true (some nm) idx o (some text)).objectEntry F nm text =
        .ok (odictEntryAdd key v o) := by
      rw [St.objectEntry, hkey]
      rw [hv]
      rfl
    constructor
    · simp_all [St.comma]
    · simp_all [St.closeObject]
  | false =>
    obtain ⟨rfl, rfl⟩ := hname
    have hentry : (inside false none idx o (some text)).arrayEntry F text =
        .ok (odictEntryAdd (index idx) v o) := by
      rw [St.arrayEntry, hv]
      rfl
    constructor
    · simp_all [St.comma]
    · simp_all [St.closeArray]

/-- The loop in a container reads `text` and stops at the closing bracket. -/
def Fills (F : Floats) (maxdepth d : Nat) (b : Bool) (idx : UInt32) (o : Odict) (text : Bytes)
    (o' : Odict) : Prop :=
  ∀ n ys, (text ++ (if b then 125 else 93) :: ys).length ≤ n →
    jsonLoop F maxdepth n d (inside b none idx o none) (text ++ (if b then 125 else 93) :: ys) =
      .ok (o', (if b then 125 else 93) :: ys)

theorem fills_of_close (h : Scans F maxdepth d text (inside b none idx o none) st)
    (hend : ∀ deep rest, st.step F deep (if b then 125 else 93) rest = .done o') :
    Fills F maxdepth d b idx o text o' := by
  intro n ys hn
  obtain ⟨m, hm, heq⟩ := h n _ hn
  obtain ⟨k, rfl⟩ : ∃ k, m = k + 1 := Nat.exists_eq_succ_of_ne_zero
    (by rintro rfl; exact absurd hm (by simp))
  rw [heq, jsonLoop, hend]

theorem fills_of_scans {idx' : UInt32} {o'' : Odict}
    (h : Scans F maxdepth d text (inside b none idx o none) (inside b none idx' o' none))
    (h' : Fills F maxdepth d b idx' o' text' o'') :
    Fills F maxdepth d b idx o (text ++ text') o'' := by
  intro n ys hn
  rw [append_assoc] at hn ⊢
  obtain ⟨m, hm, heq⟩ := h n _ hn
  exact heq.trans (h' m ys hm)

theorem fills_nil : Fills F maxdepth d b idx o [] (o.append .nil) := by
  rw [Odict.append_nil]
  exact fills_of_close scans_nil (by cases b <;> exact fun _ _ => rfl)

/-- One entry, and the others behind it. -/
theorem fills_cons (rest : Odict) (h : ∃ st, Scans F maxdepth d text (inside b none idx o none) st ∧
      Ends F b idx (odictEntryAdd key v o) st)
    (h' : Fills F maxdepth d b (if b then idx else idx + 1) (odictEntryAdd key v o) text'
      ((odictEntryAdd key v o).append o'))
    (hnil : rest = .nil → text' = [] ∧ o' = .nil) :
    Fills F maxdepth d b idx o (text ++ (comma rest ++ text')) (o.append (.cons key v o')) := by
  obtain ⟨st, hscans, hends⟩ := h
  rw [← odictEntryAdd_append]
  cases rest with
  | nil =>
    obtain ⟨rfl, rfl⟩ := hnil rfl
    show Fills F maxdepth d b idx o (text ++ []) _
    rw [append_nil, Odict.append_nil]
    exact fills_of_close hscans hends.close
  | cons key v rest =>
    rw [← append_assoc]
    exact fills_of_scans (hscans.trans (scans_char hends.comma)) h'

/-- A container in a container. -/
theorem scans_nested {inner : Bool} {oc : Odict} (hname : Names b name idx key)
    (hd : d < maxdepth) (h : Fills F maxdepth (d + 1) inner 0 .nil text oc) :
    Scans F maxdepth d ((if inner then 123 else 91) :: text ++ [if inner then 125 else 93])
      (inside b name idx o none) (inside b none (if b then idx else idx + 1)
        (odictEntryAdd key (if inner then .object oc else .array oc) o) none) := by
  intro n ys hn
  obtain ⟨m, rfl⟩ : ∃ m, n = m + 1 := Nat.exists_eq_succ_of_ne_zero
    (by rintro rfl; exact absurd hn (by simp))
  have hkey : (inside b name idx o none).containerKey = .ok key := by
    cases b with
    | true =>
      obtain ⟨nm, rfl, hdec⟩ := hname
      exact hdec
    | false =>
      obtain ⟨rfl, rfl⟩ := hname
      rfl
  have hsome : ((inside b name idx o none).inobj && (inside b name idx o none).name.isNone) =
      false := by
    cases b with
    | true =>
      obtain ⟨nm, rfl, -⟩ := hname
      rfl
    | false => rfl
  have hdeep : decide (d ≥ maxdepth) = false := decide_eq_false (by omega)
  have hstep : ∀ rest, (inside b name idx o none).step F (decide (d ≥ maxdepth))
      (if inner then 123 else 91) rest = .nested key := by
    intro rest
    have hopen : (inside b name idx o none).step F (decide (d ≥ maxdepth))
        (if inner then 123 else 91) rest =
        (inside b name idx o none).open (if inner then 123 else 91) (decide (d ≥ maxdepth)) := by
        cases inner <;> rfl
    rw [hopen, St.open, hdeep, if_pos (by cases b <;> rfl), if_neg (by decide), hsome,
      if_neg (by decide), hkey]
  have hstart : ({ inobj := decide ((if inner then 123 else 91 : UInt8) = 123),
                   inarray := decide ((if inner then 123 else 91 : UInt8) ≠ 123) } : St) =
      inside inner none 0 .nil none := by cases inner <;> rfl
  have hlen : (text ++ (if inner then 125 else 93) :: ys).length ≤ m := by
    simpa using hn
  refine ⟨m, by simp at hlen; omega, ?_⟩
  have hinner := h m ys hlen
  show jsonLoop F maxdepth (m + 1) d _ ((if inner then 123 else 91) ::
    (text ++ [if inner then 125 else 93] ++ ys)) = _
  rw [append_assoc, singleton_append, jsonLoop, hstep]
  rw [hstart, hinner]
  cases b <;> cases inner <;> rfl

theorem word_scans (text : Bytes) (hne : text ≠ []) (hplain : ∀ ch ∈ text, isPlain ch = true)
    (hname : Names b name idx key) (hv : decodeValue F text = .ok v) :
    ∃ st, Scans F maxdepth d text (inside b name idx o none) st ∧
    Ends F b idx (odictEntryAdd key v o) st :=
  ⟨_, scans_plain hne hplain, ends_scalar hname hv⟩

/-! ## Trees -/

mutual

/-- A value is scanned, and its entry is complete at what follows it. -/
theorem value_scans : ∀ (v : OdictValue) {b : Bool} {name : Option Bytes} {idx : UInt32} {o : Odict}
    {key : CStr} {d : Nat}, ExactValue v → Names b name idx key → d + depthValue v ≤ maxdepth →
    ∃ st, Scans F maxdepth d (encodeEntry F v) (inside b name idx o none) st ∧
      Ends F b idx (odictEntryAdd key (indexedValue v) o) st
  | .object oc, b, name, idx, o, key, d, hexact, hname, hd => by
      have hd' : d + 1 + depth oc ≤ maxdepth := by
        grind [depthValue]
      exact ⟨_, @scans_nested _ key F maxdepth d b name idx o true _ hname (by omega)
        (entries_fill oc hexact hd'), ends_container⟩
  | .array oc, b, name, idx, o, key, d, hexact, hname, hd => by
      have hd' : d + 1 + depth oc ≤ maxdepth := by
        grind [depthValue]
      exact ⟨_, @scans_nested _ key F maxdepth d b name idx o false _ hname (by omega)
        (elements_fill oc hexact hd'), ends_container⟩
  | .string s, _, _, _, _, _, _, _, hname, _ => by
      refine ⟨_, scans_quoted s, ends_scalar hname ?_⟩
      rw [decodeValue, isString_quoted]
      dsimp only
      rw [utf8Decode_utf8Encode]
      exact congrArg (fun s => Except.ok (OdictValue.string s)) (CStr.ofMem_bytes s)
  | .int i, _, _, _, _, _, _, _, hname, _ => by
      obtain ⟨hne, hplain⟩ := isPlain_intText i
      refine word_scans (intText i) hne hplain hname ?_
      rw [decodeValue, isString_plain hplain]
      rw [isNumber_intText]
      rfl
  | .double _, _, _, _, _, _, _, hexact, _, _ => hexact.elim
  | .bool true, _, _, _, _, _, _, _, hname, _ =>
    word_scans (asciiBytes "true") (by decide) (by decide +kernel) hname rfl
  | .bool false, _, _, _, _, _, _, _, hname, _ =>
    word_scans (asciiBytes "false") (by decide) (by decide +kernel) hname rfl
  | .null, _, _, _, _, _, _, _, hname, _ =>
    word_scans (asciiBytes "null") (by decide) (by decide +kernel) hname rfl

/-- The entries of an object. -/
theorem entries_fill : ∀ (oc : Odict) {idx : UInt32} {o : Odict} {d : Nat}, Exact oc →
    d + depth oc ≤ maxdepth →
    Fills F maxdepth d true idx o (entriesText F oc) (o.append (indexed oc))
  | .nil, _, _, _, _, _ => fills_nil
  | .cons key v rest, idx, o, d, hexact, hd => by
      rw [depth] at hd
      have hname : Names true (some (quoted key)) idx key := ⟨_, rfl, decodeName_quoted key⟩
      obtain ⟨st, hv, hends⟩ := @value_scans v true (some (quoted key)) idx o key d hexact.1
        hname (by omega)
      have hcolon : Scans F maxdepth d [58] (inside true none idx o (some (quoted key)))
          (inside true (some (quoted key)) idx o none) :=
        scans_char fun deep rest => by simp [St.chkval]
      have hentry := ((@scans_quoted F maxdepth d true none idx o key).trans hcolon).trans hv
      have hrest := @entries_fill rest idx (odictEntryAdd key (indexedValue v) o) d
        hexact.2 (by omega)
      have hall := fills_cons rest ⟨st, hentry, hends⟩ hrest fun h => by
        rw [h]
        exact ⟨rfl, rfl⟩
      rw [append_assoc, append_assoc] at hall
      exact hall

/-- The elements of an array. -/
theorem elements_fill : ∀ (oc : Odict) {idx : UInt32} {o : Odict} {d : Nat}, Exact oc →
    d + depth oc ≤ maxdepth →
    Fills F maxdepth d false idx o (elementsText F oc) (o.append (elements idx oc))
  | .nil, _, _, _, _, _ => fills_nil
  | .cons key v rest, idx, o, d, hexact, hd => by
      rw [depth] at hd
      have hentry := @value_scans v false none idx o (index idx) d hexact.1 ⟨rfl, rfl⟩ (by omega)
      have hrest := @elements_fill rest (idx + 1) (odictEntryAdd (index idx) (indexedValue v) o) d
        hexact.2 (by omega)
      exact fills_cons rest hentry hrest fun h => by
        rw [h]
        exact ⟨rfl, rfl⟩

end

/-- A dictionary without doubles, nested no deeper than the limit, is read back from its
text: the same entries in the same order, the elements of arrays with their index as a key. -/
theorem json_read_back (F : Floats) (maxdepth : Nat) (o : Odict) (hexact : Exact o)
    (hdepth : depth o ≤ maxdepth) :
    jsonDecodeOdict F maxdepth (jsonEncodeOdict F o) = .ok (indexed o) ∧
    (ArraysIndexed o → indexed o = o) := by
  refine ⟨?_, indexed_eq o⟩
  have hfill : Fills F maxdepth 0 true 0 .nil (entriesText F o) (indexed o) :=
    entries_fill o hexact (by omega)
  have hopen : Scans F maxdepth 0 [123] {} (inside true none 0 .nil none) :=
    scans_char fun _ _ => rfl
  obtain ⟨m, hm, heq⟩ := hopen (jsonEncodeOdict F o).length (entriesText F o ++ [125]) (le_refl _)
  have hloop : jsonLoop F maxdepth (jsonEncodeOdict F o).length 0 {} (jsonEncodeOdict F o) =
      .ok (indexed o, [125]) :=
    heq.trans (hfill m [] hm)
  rw [jsonDecodeOdict, hloop]
  rfl

/-- The dictionary of a presence message. -/
def presence : Odict :=
  .cons (CStr.ofMem (asciiBytes "user")) (.object (.cons (CStr.ofMem (asciiBytes "name"))
      (.string (CStr.ofMem (asciiBytes "a/\"b\"\n"))) .nil))
    (.cons (CStr.ofMem (asciiBytes "seen"))
      (.array (.cons (index 0) (.int (-5)) (.cons (index 1) .null .nil)))
      (.cons (CStr.ofMem (asciiBytes "away")) (.bool false) .nil))

theorem presence_read_back :
    let F : Floats := { print := fun _ => [], parse := fun _ => 0 }
    jsonDecodeOdict F 1 (jsonEncodeOdict F presence) = .ok presence :=
  have h := json_read_back { print := fun _ => [], parse := fun _ => 0 } 1 presence
    ⟨⟨trivial, trivial⟩, ⟨trivial, trivial, trivial⟩, trivial, trivial⟩ (by decide)
  h.1.trans (congrArg Except.ok (h.2 ⟨⟨trivial, trivial⟩, ⟨rfl, trivial, rfl, trivial, trivial⟩,
    trivial, trivial⟩))

end LibRe.Json
