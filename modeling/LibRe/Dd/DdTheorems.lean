/-
LibRe.Dd.DdTheorems — when the decoder of the dependency descriptor stays inside
its arrays.

The syntax of the descriptor announces how many decode targets, frame
differences and render resolutions follow, and none of the three is compared
with the array it is stored in. `descriptorCounts` reads from the bits alone how
many of them there are, as far as the bits go; `dd_decode` is safe exactly for
the buffers whose counts are within the limits of the arrays.
-/
import LibRe.Dd.Dd

namespace LibRe.DD

open Checked Bits Option

variable {bs : List Bool} {templateIndex : Nat} {s : Decoder}

/-! ## What the bits announce -/

/-- The codes in front of the last template, of at most `n` templates. -/
def readLayers : Nat → List Bool → Option (List Nat × List Bool)
  | 0, _ => none
  | n + 1, bs =>
    if bs.length < 2 then none
    else if (takeBits 2 bs).1 = noMoreTemplates then some ([], (takeBits 2 bs).2)
    else (readLayers n (takeBits 2 bs).2).map fun r => ((takeBits 2 bs).1 :: r.1, r.2)

/-- The frame differences of a template: their number, and the bits behind them
if they are complete. -/
def readFdiffs : List Bool → Nat × Option (List Bool)
  | [] => (0, none)
  | false :: bs => (0, some bs)
  | true :: _ :: _ :: _ :: _ :: follows :: bs =>
    ((readFdiffs (follows :: bs)).1 + 1, (readFdiffs (follows :: bs)).2)
  | true :: _ => (0, none)

/-- The same for all templates. -/
def readFdiffTable : Nat → List Bool → List Nat × Option (List Bool)
  | 0, bs => ([], some bs)
  | t + 1, bs =>
    match readFdiffs bs with
    | (n, none) => ([n], none)
    | (n, some bs) => (n :: (readFdiffTable t bs).1, (readFdiffTable t bs).2)

/-- The bits behind the chains of `t` templates and `dt` decode targets. -/
def skipChains (dt t : Nat) (bs : List Bool) : List Bool :=
  let (chainCnt, bs) := takeNs (dt + 1) bs
  if chainCnt = 0 then bs
  else
    let bs := (fun bs => (takeNs chainCnt bs).2)^[dt] bs
    bs.drop (4 * min (t * chainCnt) (bs.length / 4))

/-- How many there are: indications of a template, frame differences of each
template, render resolutions. -/
structure Counts where
  dtis : Nat
  fdiffs : List Nat
  renders : Nat
  deriving DecidableEq, Repr

variable {c : Counts}

/-- The render resolutions, of `n` at most. -/
def readRenders (n : Nat) : List Bool → Nat
  | true :: bs => min n (bs.length / 32)
  | _ => 0

/-- Nothing is announced. -/
def Counts.zero : Counts := { dtis := 0, fdiffs := [], renders := 0 }

/-- The counts from the frame differences on, for `dt` decode targets, `t`
templates and `layers` spatial layers. -/
def fdiffCounts (dtis dt t layers : Nat) (bs : List Bool) : Counts :=
  match readFdiffTable t bs with
  | (fdiffs, none) => { dtis, fdiffs, renders := 0 }
  | (fdiffs, some bs) =>
    { dtis, fdiffs, renders := readRenders layers (skipChains dt t bs) }

/-- The counts from the decode target indications on. -/
def dtiCounts (dt t layers : Nat) (bs : List Bool) : Counts :=
  let dtis := min dt (bs.length / 2)
  if bs.length < 2 * (t * dt) then { dtis, fdiffs := [], renders := 0 }
  else fdiffCounts dtis dt t layers (bs.drop (2 * (t * dt)))

/-- The counts of a template dependency structure. -/
def structureCounts (bs : List Bool) : Counts :=
  if bs.length < 11 then Counts.zero
  else
    match readLayers maxTemplates (bs.drop 11) with
    | none => Counts.zero
    | some (idcs, rest) =>
      dtiCounts ((takeBits 5 (bs.drop 6)).1 + 1) (idcs.length + 1)
        (idcs.count nextSpatialLayer + 1) rest

/-- The counts of a descriptor: behind the mandatory fields comes a flag for the
structure, and four more flags. -/
def descriptorCounts (buf : Bytes) : Counts :=
  match (bitsOfBytes buf).drop 24 with
  | true :: bs => structureCounts (bs.drop 4)
  | _ => Counts.zero

/-- The counts are within the arrays. -/
def Counts.Within (c : Counts) : Prop :=
  c.dtis ≤ maxDecodeTargets ∧ (∀ n ∈ c.fdiffs, n ≤ maxFdiffs) ∧ c.renders ≤ maxSpatialIds

instance (c : Counts) : Decidable c.Within := inferInstanceAs (Decidable (_ ∧ _))

theorem Counts.within_zero : Counts.zero.Within := by decide

/-! ## Counts of a descriptor -/

/-- The fields of a descriptor that say how much of an array is in use. -/
structure Sizes where
  dtCnt : Nat
  templateCnt : Nat
  maxSpatialId : Nat
  renderCount : Nat
  templateFdiffCnt : Vector Nat maxTemplates
  chainCnt : Nat

def Dd.sizes (dd : Dd) : Sizes where
  dtCnt := dd.dtCnt
  templateCnt := dd.templateCnt
  maxSpatialId := dd.maxSpatialId
  renderCount := dd.renderCount
  templateFdiffCnt := dd.templateFdiffCnt
  chainCnt := dd.chainCnt

/-- Every count is within its array. -/
structure Sizes.Fit (z : Sizes) : Prop where
  dtCnt : z.dtCnt ≤ maxDecodeTargets
  templateCnt : z.templateCnt ≤ maxTemplates
  renderCount : z.renderCount ≤ maxSpatialIds
  templateFdiffCnt : ∀ n ∈ z.templateFdiffCnt, n ≤ maxFdiffs
  chainCnt : z.chainCnt ≤ maxChains

/-- No fault, and an error or a descriptor with counts that fit. -/
def Safe (r : Step) : Prop := ∃ e s, r = .ok (e, s) ∧ (e = none → s.dd.sizes.Fit)

/-! ## Fields -/

section

variable {n : Nat}

theorem ddF_eq (hn : n ≤ 32) (s : Decoder) :
    (ddF s n).1 = (takeBits n s.gb.bits).1 ∧ (ddF s n).2.gb.bits = (takeBits n s.gb.bits).2 := by
  obtain ⟨gb, hget, hbits⟩ := getBits_eq hn s.gb
  simp [ddF, hget, hbits]

@[simp] theorem ddF_fst (hn : n ≤ 32) (s : Decoder) : (ddF s n).1 = (takeBits n s.gb.bits).1 :=
  (ddF_eq hn s).1

@[simp] theorem ddF_bits (hn : n ≤ 32) (s : Decoder) :
    (ddF s n).2.gb.bits = (takeBits n s.gb.bits).2 := (ddF_eq hn s).2

@[simp] theorem ddF_dd (s : Decoder) : (ddF s n).2.dd = s.dd := by rw [ddF]

theorem takeBits_one (bs : List Bool) : takeBits 1 bs = ((bs.headD false).toNat, bs.tail) := by
  cases bs <;> simp [takeBits, ofBits, ofBitsFrom]

@[simp] theorem ddFlag_fst (s : Decoder) : (ddFlag s).1 = s.gb.bits.headD false := by
  simp only [ddFlag, ddF_fst, takeBits_one, Nat.reduceLeDiff]
  cases s.gb.bits.headD false <;> rfl

@[simp] theorem ddFlag_bits (s : Decoder) : (ddFlag s).2.gb.bits = s.gb.bits.tail := by
  simp only [ddFlag, ddF_bits, takeBits_one, Nat.reduceLeDiff]

@[simp] theorem ddFlag_dd (s : Decoder) : (ddFlag s).2.dd = s.dd := by rw [ddFlag, ddF_dd]

end

/-! ## Template layers -/

theorem length_readLayers (n : Nat) : ∀ {bs : List Bool} {idcs : List Nat} {rest : List Bool},
    readLayers n bs = some (idcs, rest) → idcs.length < n := by
  induction n with
  | zero => exact fun h => nomatch h
  | succ n ih =>
    intro bs idcs rest h
    rw [readLayers] at h
    split at h
    · cases h
    split at h
    · grind
    · obtain ⟨r, hr, heq⟩ := map_eq_some_iff.mp h
      obtain ⟨rfl, -⟩ := Prod.mk.inj heq
      exact Nat.succ_lt_succ (ih hr)

/-- The outcome of the loop, from template number `templateCnt` on the layer
`spatialId`, when the bits hold these codes. -/
def LayersRead (templateCnt spatialId : Nat) (z : Sizes) (read : Option (List Nat × List Bool))
    (r : Step) : Prop :=
  match read with
  | none => ∃ e s', r = .ok (some e, s')
  | some (idcs, rest) => ∃ s', r = .ok (none, s') ∧ s'.gb.bits = rest ∧ s'.dd.sizes = { z with
      templateCnt := templateCnt + idcs.length + 1
      maxSpatialId := spatialId + idcs.count nextSpatialLayer }

variable {r : Step} {dtis : Nat}

theorem LayersRead.cons {templateCnt spatialId idc : Nat} {z : Sizes}
    {read : Option (List Nat × List Bool)}
    (h : LayersRead (templateCnt + 1) (if idc = nextSpatialLayer then spatialId + 1 else spatialId)
      z read r) :
    LayersRead templateCnt spatialId z (read.map fun r => (idc :: r.1, r.2)) r := by
  cases read with
  | none => exact h
  | some read =>
    obtain ⟨s', hrun, hbits, hsizes⟩ := h
    refine ⟨s', hrun, hbits, ?_⟩
    rw [hsizes, List.length_cons, List.count_cons]
    by_cases hidc : idc = nextSpatialLayer
    · simp [hidc]
      omega
    · simp [hidc]
      omega

theorem templateLayersLoop_read (n : Nat) :
    ∀ (temporalId spatialId templateCnt : Nat) (s : Decoder) {bs : List Bool},
    templateCnt + n = maxTemplates → s.gb.bits = bs →
    LayersRead templateCnt spatialId s.dd.sizes (readLayers n bs)
    (templateLayersLoop n temporalId spatialId templateCnt s) := by
  induction n with
  | zero => exact fun _ _ _ _ _ _ _ => ⟨_, _, rfl⟩
  | succ n ih =>
    intro temporalId spatialId templateCnt s bs hcnt hbits
    have hlt : templateCnt < maxTemplates := by omega
    obtain ⟨spatialIds, hspatial⟩ := put_of_lt s.dd.templateSpatialId spatialId hlt
    obtain ⟨temporalIds, htemporal⟩ := put_of_lt s.dd.templateTemporalId temporalId hlt
    rw [templateLayersLoop, readLayers]
    simp only [hspatial, htemporal, getbitGetLeft_eq, hbits, ddF_fst, Nat.reduceLeDiff]
    by_cases hshort : bs.length < 2
    · simp [hshort, LayersRead]
    rw [if_neg hshort, if_neg hshort]
    by_cases hlast : (takeBits 2 bs).1 = noMoreTemplates
    · rw [if_pos hlast, if_pos hlast]
      exact ⟨_, rfl, by simp [hbits], rfl⟩
    rw [if_neg hlast, if_neg hlast]
    apply LayersRead.cons
    split_ifs with htemp hno hspat
    · exact absurd (htemp.symm.trans hno) (by decide)
    all_goals exact ih _ _ _ _ (by omega) (by simp [hbits])

/-! ## Parts -/

/-- The bits that are left. -/
abbrev Decoder.bits (s : Decoder) : List Bool := s.gb.bits

/-- The outcome of a part of the structure: a fault if there is too much, an error if the bits end,
and otherwise the bits behind the part and the sizes. -/
structure PartRead (tooMany : Prop) (rest : Option (List Bool)) (sizes : Sizes → Prop) (r : Step) :
    Prop where
  fault : tooMany → ∃ f, r = .error f
  error : ¬ tooMany → rest = none → ∃ e s', r = .ok (some e, s')
  ok : ¬ tooMany → ∀ bs, rest = some bs → ∃ s', r = .ok (none, s') ∧ s'.gb.bits = bs ∧
    sizes s'.dd.sizes

section

variable {tooMany : Prop} {rest : Option (List Bool)} {sizes : Sizes → Prop} {r : Step}

theorem PartRead.of_fault {f : Fault} (h : tooMany) : PartRead tooMany rest sizes (.error f) :=
  ⟨fun _ => ⟨f, rfl⟩, fun hno => absurd h hno, fun hno => absurd h hno⟩

theorem PartRead.of_error {e : Errno} (h : ¬ tooMany) (hrest : rest = none) :
    PartRead tooMany rest sizes (.ok (some e, s)) := by
  subst hrest
  exact ⟨fun hover => absurd hover h, fun _ _ => ⟨e, s, rfl⟩, fun _ bs hbs =>
    absurd hbs.symm (some_ne_none bs)⟩

theorem PartRead.of_ok (h : ¬ tooMany) (hrest : rest = some bs) (hbits : s.gb.bits = bs)
    (hsizes : sizes s.dd.sizes) :
    PartRead tooMany rest sizes (.ok (none, s)) := by
  subst hrest
  exact ⟨fun hover => absurd hover h, fun _ hn => absurd hn (some_ne_none bs),
    fun _ bs' hbs => ⟨s, rfl, hbits.trans (some.inj hbs), hsizes⟩⟩

variable {next : Decoder → Step}

/-- What is behind a part is done only if the part is there. -/
theorem PartRead.elim {P : Step → Prop} (h : PartRead tooMany rest sizes r)
    (hover : tooMany → ∀ f, P (.error f))
    (hshort : ¬ tooMany → rest = none → ∀ e s, P (.ok (some e, s)))
    (hnext : ∀ bs s, ¬ tooMany → rest = some bs → s.gb.bits = bs → sizes s.dd.sizes → P (next s)) :
    P (andThen r next) := by
  by_cases hmany : tooMany
  · obtain ⟨f, rfl⟩ := h.fault hmany
    exact hover hmany f
  · cases hrest : rest with
    | none =>
      obtain ⟨e, s', rfl⟩ := h.error hmany hrest
      exact hshort hmany hrest e s'
    | some bs =>
      obtain ⟨s', rfl, hbits, hsizes⟩ := h.ok hmany bs hrest
      exact hnext bs s' hmany hrest hbits hsizes

end

/-! ## Decode target indications -/

/-- The bits come in units of two, and the sizes stay. -/
theorem templateDti_reads {dtIndex : Nat} (z : Sizes) (ht : templateIndex < maxTemplates)
    (hdt : dtIndex < maxDecodeTargets) :
    Reads Decoder.bits 2 1 (·.dd.sizes = z) (·.dd.sizes = z) (·.dd.sizes = z)
    (templateDti templateIndex dtIndex) := by
  intro s hs
  rw [mul_one, templateDti, getbitGetLeft_eq]
  by_cases hshort : s.gb.bits.length < 2
  · simp [Nat.div_eq_of_lt, hshort, hs]
  · obtain ⟨a, hput⟩ := put2_of_lt s.dd.templateDti (takeBits 2 s.gb.bits).1 ht hdt
    simp only [if_pos (Nat.not_lt.mp hshort), if_neg hshort, ddF_fst, ddF_dd, hput,
      Nat.reduceLeDiff]
    exact ⟨_, rfl, (ddF_bits (by decide) s).trans (by rw [takeBits_of_le (Nat.not_lt.mp hshort)]),
      hs⟩

/-- The indication number 16 of a template has no place. -/
theorem templateDti_cap (ht : templateIndex < maxTemplates) (s : Decoder) :
    if 2 ≤ s.bits.length then ∃ f, templateDti templateIndex maxDecodeTargets s = .error f
    else ∃ e s', templateDti templateIndex maxDecodeTargets s = .ok (some e, s') ∧
      s'.bits = s.bits ∧ s'.dd.sizes = s.dd.sizes := by
  rw [templateDti, getbitGetLeft_eq]
  by_cases hshort : s.gb.bits.length < 2
  · simp [hshort]
  · simp [put2_of_ge, ht, Nat.not_lt.mp hshort, hshort]

/-- `template_dtis`: two bits for each target of each template, and no more than
16 targets have a place. -/
theorem templateDtis_read {z : Sizes} (hz : s.dd.sizes = z) (hpos : 0 < z.templateCnt)
    (ht : z.templateCnt ≤ maxTemplates) :
    PartRead (maxDecodeTargets < min z.dtCnt (s.gb.bits.length / 2))
      (if s.gb.bits.length < 2 * (z.templateCnt * z.dtCnt) then none
        else some (s.gb.bits.drop (2 * (z.templateCnt * z.dtCnt))))
      (· = z) (templateDtis s) := by
  have hrow : ∀ j < z.templateCnt, ∀ s : Decoder, s.dd.sizes = z →
      (if j ≥ maxTemplates then .ok (some .EOVERFLOW, s) else forLoop (templateDti j)
        s.dd.dtCnt 0 s) = forLoop (templateDti j) z.dtCnt 0 s := by
    intro j hj s hs
    subst hs
    exact if_neg (by omega)
  have hcnt : s.dd.templateCnt = z.templateCnt := congrArg Sizes.templateCnt hz
  rw [templateDtis, hcnt]
  by_cases hfew : z.dtCnt ≤ maxDecodeTargets
  · have hall := forLoop_rows (show 0 < 2 by decide) hrow
      (fun i hi j hj => templateDti_reads z (show i < maxTemplates by omega)
        (show j < maxDecodeTargets by omega)) s hz
    by_cases hfits : 2 * (z.templateCnt * z.dtCnt) ≤ s.gb.bits.length
    · rw [if_pos hfits] at hall
      obtain ⟨s', hrun, hbits, hs'⟩ := hall
      rw [hrun]
      exact .of_ok (by omega) (if_neg (by omega)) hbits hs'
    · rw [if_neg hfits] at hall
      obtain ⟨e, s', hrun, -⟩ := hall
      rw [hrun]
      exact .of_error (by omega) (if_pos (by omega))
  · -- the first template already has too many
    obtain ⟨t, ht⟩ := Nat.exists_eq_succ_of_ne_zero (Nat.ne_of_gt hpos)
    have hloop := forLoop_capped (show 0 < 2 by decide) z.dtCnt
      (fun j hj => templateDti_reads z (show 0 < maxTemplates by decide) hj)
      (fun s hs => hs ▸ templateDti_cap (show 0 < maxTemplates by decide) s) hz
    simp only [Decoder.bits] at hloop
    rw [ht, forLoop, hrow 0 hpos s hz]
    by_cases hover : 2 * (maxDecodeTargets + 1) ≤ s.gb.bits.length
    · rw [if_pos ⟨by omega, hover⟩] at hloop
      obtain ⟨f, hf⟩ := hloop
      rw [hf]
      exact .of_fault (by omega)
    · have hmul := Nat.le_mul_of_pos_left z.dtCnt hpos
      rw [if_neg (by omega), if_neg (by omega)] at hloop
      obtain ⟨e, s', hrun, -⟩ := hloop
      rw [hrun]
      exact .of_error (by omega) (if_pos (by rw [← ht]; omega))

/-! ## Frame differences -/

theorem readFdiffs_short (h : bs.length < 5) : readFdiffs (true :: bs) = (0, none) := by
  match bs, h with
  | [], _ | [_], _ | [_, _], _ | [_, _, _], _ | [_, _, _, _], _ => rfl

/-- A list of five bits at least. -/
theorem cons_of_five_le (h : 5 ≤ bs.length) :
    ∃ a b c d follows rest, bs = a :: b :: c :: d :: follows :: rest := by
  match bs, h with
  | a :: b :: c :: d :: follows :: rest, _ => exact ⟨a, b, c, d, follows, rest, rfl⟩

/-- The same sizes but for the frame differences, and those fit. -/
def Sizes.Refdiffed (z z' : Sizes) : Prop :=
  ∃ cnt : Vector Nat maxTemplates, z' = { z with templateFdiffCnt := cnt } ∧ ∀ n ∈ cnt,
    n ≤ maxFdiffs

theorem Sizes.Refdiffed.set {z z' : Sizes} {i v : Nat} (h : z.Refdiffed z') (hi : i < maxTemplates)
    (hv : v ≤ maxFdiffs) :
    z.Refdiffed { z' with templateFdiffCnt := z'.templateFdiffCnt.set i v } := by
  obtain ⟨cnt, rfl, hfit⟩ := h
  refine ⟨cnt.set i v, rfl, fun n hn => ?_⟩
  rcases Vector.mem_or_eq_of_mem_set hn with h | rfl
  · exact hfit n h
  · exact hv

variable {z : Sizes}

/-- The loop behind a flag that has been read. -/
theorem templateFdiffLoop_read (ht : templateIndex < maxTemplates) (m : Nat) :
    ∀ {fdiffCnt : Nat} (follows : Bool) {s : Decoder} {bs : List Bool}, s.gb.bits = bs →
    fdiffCnt ≤ maxFdiffs → bs.length ≤ m →
    z.Refdiffed s.dd.sizes →
    PartRead (maxFdiffs < fdiffCnt + (readFdiffs (follows :: bs)).1)
      (readFdiffs (follows :: bs)).2 z.Refdiffed
      (templateFdiffLoop templateIndex m fdiffCnt follows s) := by
  induction m using Nat.strong_induction_on with
  | _ m ih =>
    intro fdiffCnt follows s bs hbits hcnt hlen hz
    cases follows with
    | false =>
      have hput : put s.dd.templateFdiffCnt templateIndex fdiffCnt
          = .ok (s.dd.templateFdiffCnt.set templateIndex fdiffCnt) := dif_pos ht
      rw [readFdiffs, templateFdiffLoop, hput]
      exact .of_ok (by omega) rfl hbits (hz.set ht hcnt)
    | true =>
      by_cases hshort : bs.length < 5
      · have hcut : templateFdiffLoop templateIndex m fdiffCnt true s = .ok (some .EBADMSG, s) := by
          cases m <;> simp [templateFdiffLoop, getbitGetLeft_eq, hbits, hshort]
        rw [hcut, readFdiffs_short hshort]
        exact .of_error (by omega) rfl
      · obtain ⟨a, b, c, d, follows, rest, rfl⟩ := cons_of_five_le (Nat.not_lt.mp hshort)
        obtain ⟨m, rfl⟩ : ∃ k, m = k + 1 := Nat.exists_eq_succ_of_ne_zero (by omega)
        have hfour : takeBits 4 s.gb.bits = (ofBits [a, b, c, d], follows :: rest) := by
          rw [hbits, takeBits_of_le (by simp)]
          rfl
        rw [templateFdiffLoop, getbitGetLeft_eq, hbits, if_neg hshort, readFdiffs]
        simp only [ddF_fst, ddF_dd, ddFlag_fst, ddF_bits, hfour, Nat.reduceLeDiff]
        by_cases hfull : fdiffCnt = maxFdiffs
        · simp only [put2_of_ge s.dd.templateFdiff _ ht (le_of_eq hfull.symm)]
          exact .of_fault (by omega)
        obtain ⟨x, hput⟩ := put2_of_lt s.dd.templateFdiff (ofBits [a, b, c, d] + 1) ht
          (show fdiffCnt < maxFdiffs by omega)
        have hloop := ih m (by omega) follows
          (s := (ddFlag { (ddF s 4).2 with dd.templateFdiff := x }).2)
          (show _ = rest by simp [hfour]) (show fdiffCnt + 1 ≤ maxFdiffs by omega)
          (by simp only [List.length_cons] at hlen; omega) hz
        rw [add_right_comm] at hloop
        simp only [hput]
        exact hloop

/-- One template. -/
theorem templateFdiffRow_read (ht : templateIndex < maxTemplates) (hz : z.Refdiffed s.dd.sizes)
    (hbits : s.gb.bits = bs) :
    PartRead (maxFdiffs < (readFdiffs bs).1) (readFdiffs bs).2 z.Refdiffed
      (templateFdiffRow templateIndex s) := by
  rw [templateFdiffRow, getbitGetLeft_eq, hbits]
  cases bs with
  | nil => exact .of_error (by decide) rfl
  | cons follows rest =>
    have hrest : (ddFlag s).2.gb.bits = rest := by simp [hbits]
    have hloop := templateFdiffLoop_read ht _ follows hrest (Nat.zero_le maxFdiffs)
      (show rest.length ≤ getbitGetLeft (ddFlag s).2.gb by rw [getbitGetLeft_eq, hrest]) hz
    simpa [hbits] using hloop

/-- All templates from `i` on. -/
theorem forLoop_templateFdiffRow_read (t : Nat) : ∀ {i : Nat} {s : Decoder} {bs : List Bool},
    i + t ≤ maxTemplates →
    z.Refdiffed s.dd.sizes → s.gb.bits = bs →
    PartRead (∃ n ∈ (readFdiffTable t bs).1, maxFdiffs < n) (readFdiffTable t bs).2 z.Refdiffed
      (forLoop templateFdiffRow t i s) := by
  induction t with
  | zero =>
    intro i s bs _ hz hbits
    exact .of_ok (by simp [readFdiffTable]) rfl hbits hz
  | succ t ih =>
    intro i s bs hi hz hbits
    have hrow := templateFdiffRow_read (show i < maxTemplates by omega) hz hbits
    obtain ⟨n, rest, hread⟩ : ∃ n rest, readFdiffs bs = (n, rest) := ⟨_, _, rfl⟩
    rw [hread] at hrow
    rw [readFdiffTable, hread]
    cases rest with
    | none =>
      exact hrow.elim (fun h _ => .of_fault (by simpa using h))
        (fun h _ _ _ => .of_error (by simpa using h) rfl) (by simp)
    | some rest =>
      refine hrow.elim (fun h _ => .of_fault ⟨n, by simp, h⟩) (by simp)
        fun bs' s' hn hrest hbits' hz' => ?_
      obtain rfl := some.inj hrest
      simpa [hn] using ih (show i + 1 + t ≤ maxTemplates by omega) hz' hbits'

/-! ## Chains -/

theorem forLoop_protectedBy {c : Nat} (hc : 0 < c) (hlt : c < 2 ^ 31) (n : Nat) :
    ∀ (i : Nat) {s : Decoder}, s.dd.chainCnt = c → i + n ≤ maxDecodeTargets →
    ∃ s', forLoop protectedBy n i s = .ok (none, s') ∧
      s'.gb.bits = (fun bs => (takeNs c bs).2)^[n] s.gb.bits ∧ s'.dd.sizes = s.dd.sizes := by
  induction n with
  | zero => exact fun _ _ _ _ => ⟨_, rfl, rfl, rfl⟩
  | succ n ih =>
    intro i s hcnt hi
    obtain ⟨gb, hread, hgb⟩ := getbitReadNs_eq hc hlt s.gb
    rw [← hcnt] at hread
    obtain ⟨a, hput⟩ := put_of_lt s.dd.decodeTargetProtectedBy (takeNs s.dd.chainCnt s.gb.bits).1
      (show i < maxDecodeTargets by omega)
    simp only [forLoop, protectedBy, hread, hput, andThen_none, Function.iterate_succ_apply, ← hgb]
    refine ih (i + 1) ?_ (by omega)
    exact hcnt

theorem templateChainFdiff_reads {chainIndex : Nat} (z : Sizes)
    (ht : templateIndex < maxTemplates) (hc : chainIndex < maxChains) :
    Reads Decoder.bits 4 1 (·.dd.sizes = z) (·.dd.sizes = z) (·.dd.sizes = z)
    (templateChainFdiff templateIndex chainIndex) := by
  intro s hs
  rw [mul_one, templateChainFdiff, getbitGetLeft_eq]
  by_cases hshort : s.gb.bits.length < 4
  · simp [Nat.div_eq_of_lt, hshort, hs]
  · obtain ⟨a, hput⟩ := put2_of_lt s.dd.templateChainFdiff (takeBits 4 s.gb.bits).1 ht hc
    simp only [if_pos (Nat.not_lt.mp hshort), if_neg hshort, ddF_fst, ddF_dd, hput,
      Nat.reduceLeDiff]
    exact ⟨_, rfl, (ddF_bits (by decide) s).trans (by rw [takeBits_of_le (Nat.not_lt.mp hshort)]),
      hs⟩

/-- `template_chains` never faults when the decode targets have a place; what it
returns is not looked at. -/
theorem templateChains_read (hz : s.dd.sizes = z) (hdt : z.dtCnt ≤ maxDecodeTargets)
    (ht : z.templateCnt ≤ maxTemplates) :
    PartRead False (some (skipChains z.dtCnt z.templateCnt s.gb.bits))
      (fun z' => ∃ c ≤ maxChains, z' = { z with chainCnt := c })
      (ignoreErr (templateChains s)) := by
  subst hz
  obtain ⟨gb, hread, hgb⟩ := getbitReadNs_eq (Nat.succ_pos s.dd.dtCnt)
    (show s.dd.dtCnt + 1 < 2 ^ 31 from lt_of_le_of_lt (Nat.succ_le_succ hdt) (by decide)) s.gb
  have hlt := takeNs_lt (Nat.succ_pos s.dd.dtCnt) s.gb.bits
  rw [templateChains, hread, skipChains]
  obtain ⟨c, hc⟩ : ∃ c, (takeNs (s.dd.dtCnt + 1) s.gb.bits).1 = c := ⟨_, rfl⟩
  have hmax : c ≤ maxChains := le_trans (Nat.le_of_lt_succ (hc ▸ hlt)) (le_trans hdt (by decide))
  simp only [show s.dd.sizes.dtCnt = s.dd.dtCnt from rfl, show s.dd.sizes.templateCnt =
    s.dd.templateCnt from rfl, hc, ← hgb]
  by_cases hzero : c = 0
  · simp only [if_pos hzero]
    exact .of_ok not_false rfl rfl ⟨c, hmax, rfl⟩
  simp only [if_neg hzero]
  obtain ⟨s₂, hprot, hbits₂, hsizes₂⟩ := forLoop_protectedBy (Nat.pos_of_ne_zero hzero)
    (lt_of_le_of_lt hmax (by decide)) s.dd.dtCnt 0 (s := { dd := { s.dd with chainCnt := c }, gb })
      rfl
    (by rw [zero_add]; exact hdt)
  have hcnt : s₂.dd.templateCnt = s.dd.templateCnt := congrArg Sizes.templateCnt hsizes₂
  have hrow : ∀ j < s.dd.templateCnt, ∀ s' : Decoder, s'.dd.sizes =
      { s.dd.sizes with chainCnt := c } →
      forLoop (templateChainFdiff j) s'.dd.chainCnt 0 s' = forLoop (templateChainFdiff j)
        c 0 s' := by
    intro j _ s' hs'
    rw [show s'.dd.chainCnt = c from congrArg Sizes.chainCnt hs']
  have hall := forLoop_rows (show 0 < 4 by decide) hrow (fun i hi j hj => templateChainFdiff_reads _
    (lt_of_lt_of_le hi ht) (lt_of_lt_of_le hj hmax)) s₂ hsizes₂
  simp only [Decoder.bits] at hall
  rw [hprot, andThen_none, hcnt, ← hbits₂]
  by_cases hfits : 4 * (s.dd.templateCnt * c) ≤ s₂.gb.bits.length
  · rw [if_pos hfits] at hall
    obtain ⟨s', hrun, hb, hs'⟩ := hall
    rw [hrun]
    exact .of_ok not_false rfl (by rw [hb, min_eq_left (by omega)]) ⟨c, hmax, hs'⟩
  · rw [if_neg hfits] at hall
    obtain ⟨e, s', hrun, hb, hs'⟩ := hall
    rw [hrun]
    exact .of_ok not_false rfl (by rw [hb, min_eq_right (by omega)]) ⟨c, hmax, hs'⟩

/-! ## Render resolutions -/

theorem renderResolution_reads (spatialId : Nat) (z : Sizes) (hid : spatialId < maxSpatialIds) :
    Reads Decoder.bits 32 1 (·.dd.sizes = { z with renderCount := spatialId })
      (·.dd.sizes = { z with renderCount := spatialId + 1 }) (fun _ => True)
      (renderResolution spatialId) := by
  intro s hs
  rw [mul_one, renderResolution, getbitGetLeft_eq]
  by_cases hshort : s.gb.bits.length < 32
  · simp [Nat.div_eq_of_lt, hshort]
  obtain ⟨widths, hw⟩ := put_of_lt s.dd.maxRenderWidthMinus1 (takeBits 16 s.gb.bits).1 hid
  obtain ⟨heights, hh⟩ := put_of_lt s.dd.maxRenderHeightMinus1
    (takeBits 16 (s.gb.bits.drop 16)).1 hid
  have hcount : s.dd.renderCount = spatialId := congrArg Sizes.renderCount hs
  have hfirst : (takeBits 16 s.gb.bits).2 = s.gb.bits.drop 16 := by rw [takeBits_of_le (by omega)]
  simp only [if_pos (Nat.not_lt.mp hshort), if_neg hshort, ddF_fst, ddF_dd, ddF_bits, hw, hfirst,
    hh, Nat.reduceLeDiff]
  refine ⟨_, rfl, ?_, ?_⟩
  · simp [Decoder.bits, hfirst, takeBits_of_le
      (show 16 ≤ (s.gb.bits.drop 16).length by rw [List.length_drop]; omega)]
  · show { s.dd.sizes with renderCount := s.dd.renderCount + 1 } =
      { z with renderCount := spatialId + 1 }
    rw [hcount, hs]

/-- The fifth resolution has no place. -/
theorem renderResolution_cap (s : Decoder) :
    if 32 ≤ s.bits.length then ∃ f, renderResolution maxSpatialIds s = .error f
    else ∃ e s', renderResolution maxSpatialIds s = .ok (some e, s') ∧ s'.bits = s.bits ∧ True := by
  rw [renderResolution, getbitGetLeft_eq]
  by_cases hshort : s.gb.bits.length < 32
  · simp [hshort]
  · simp [put_of_ge, hshort, Nat.not_lt.mp hshort]

/-- The end of the structure: only four resolutions have a place. -/
theorem resolutions_outcome (hz : s.dd.sizes = z) (hzero : z.renderCount = 0) :
    if maxSpatialIds < readRenders (z.maxSpatialId + 1) s.gb.bits then ∃ f, resolutions s = .error f
    else ∃ e s', resolutions s = .ok (e, s') ∧
      (e = none → ∃ n ≤ maxSpatialIds, s'.dd.sizes = { z with renderCount := n }) := by
  subst hz
  rw [resolutions, getbitGetLeft_eq]
  cases hbits : s.gb.bits with
  | nil => simp [readRenders]
  | cons flag rest =>
    have hflag : (ddFlag s).1 = flag := by simp [hbits]
    simp only [if_neg (show ¬ (flag :: rest).length < 1 by simp), hflag, ddFlag_dd]
    cases flag with
    | false =>
      rw [readRenders, if_neg (by decide)]
      · exact ⟨none, _, rfl, fun _ => ⟨0, by decide, by rw [← hzero]; rfl⟩⟩
      · simp
    | true =>
      have hloop := forLoop_capped (show 0 < 32 by decide) (s.dd.maxSpatialId + 1)
        (fun j hj => renderResolution_reads j s.dd.sizes hj) (fun s _ => renderResolution_cap s)
        (s := { dd := { s.dd with resolutionsPresentFlag := true }, gb := (ddFlag s).2.gb })
          (by rw [← hzero]; rfl)
      simp only [Decoder.bits, ddFlag_bits, hbits, List.tail_cons] at hloop
      simp only [if_true, renderResolutions, readRenders, show s.dd.sizes.maxSpatialId =
        s.dd.maxSpatialId from rfl]
      by_cases hover : maxSpatialIds < min (s.dd.maxSpatialId + 1) (rest.length / 32)
      · rw [if_pos (by omega)] at hloop
        rwa [if_pos hover]
      rw [if_neg (by omega)] at hloop
      rw [if_neg hover]
      by_cases hfits : 32 * (s.dd.maxSpatialId + 1) ≤ rest.length
      · rw [if_pos hfits] at hloop
        obtain ⟨s', hrun, -, hs'⟩ := hloop
        exact ⟨none, s', hrun, fun _ => ⟨_, by omega, hs'⟩⟩
      · rw [if_neg hfits] at hloop
        obtain ⟨e, s', hrun, -⟩ := hloop
        exact ⟨some e, s', hrun, by simp⟩

/-! ## The whole descriptor -/

/-- What a function does that has these counts before it. -/
def Outcome (c : Counts) (r : Step) : Prop :=
  if c.Within then ∃ e s, r = .ok (e, s) ∧ (e = none → s.dd.sizes.Fit) else ∃ f, r = .error f

theorem Outcome.of_error {e : Errno} (h : c.Within) : Outcome c (.ok (some e, s)) := by
  simp [Outcome, h]

theorem Outcome.of_fault {f : Fault} (h : ¬ c.Within) : Outcome c (.error f) := by
  simp [Outcome, h]

theorem Outcome.of_fit (h : c.Within) (hs : s.dd.sizes.Fit) : Outcome c (.ok (none, s)) := by
  simp [Outcome, h, hs]

/-- The sizes fit but for the resolutions, of which there is none so far. -/
structure Sizes.Ready (z : Sizes) : Prop where
  dtCnt : z.dtCnt ≤ maxDecodeTargets
  templateCnt : z.templateCnt ≤ maxTemplates
  renderCount : z.renderCount = 0
  templateFdiffCnt : ∀ n ∈ z.templateFdiffCnt, n ≤ maxFdiffs

theorem chains_outcome {fdiffs : List Nat} (h : z.Ready) (hz : s.dd.sizes = z)
    (hbits : s.gb.bits = bs)
    (hdtis : dtis ≤ maxDecodeTargets) (hfdiffs : ∀ n ∈ fdiffs, n ≤ maxFdiffs) :
    Outcome { dtis, fdiffs,
              renders := readRenders (z.maxSpatialId + 1) (skipChains z.dtCnt z.templateCnt bs) }
      (andThen (ignoreErr (templateChains s)) resolutions) := by
  subst hbits
  refine (templateChains_read hz h.dtCnt h.templateCnt).elim (fun h => absurd h not_false) (by simp)
    fun bs s' _ hbs hbits hs' => ?_
  obtain ⟨c, hc, hz'⟩ := hs'
  have hres := resolutions_outcome hz' h.renderCount
  rw [hbits, ← some.inj hbs] at hres
  split_ifs at hres with hover
  · obtain ⟨f, hf⟩ := hres
    rw [hf]
    exact .of_fault fun hw => absurd hw.2.2 (Nat.not_le.mpr hover)
  obtain ⟨e', s'', hrun', hfit⟩ := hres
  rw [Outcome, if_pos ⟨hdtis, hfdiffs, Nat.not_lt.mp hover⟩]
  refine ⟨e', s'', hrun', fun he => ?_⟩
  obtain ⟨n, hn, hz''⟩ := hfit he
  rw [hz'']
  exact ⟨h.dtCnt, h.templateCnt, hn, h.templateFdiffCnt, hc⟩

theorem fdiffs_outcome (h : z.Ready) (hz : s.dd.sizes = z) (hbits : s.gb.bits = bs)
    (hdtis : dtis ≤ maxDecodeTargets) :
    Outcome (fdiffCounts dtis z.dtCnt z.templateCnt (z.maxSpatialId + 1) bs)
      (andThen (templateFdiffs s) fun s => andThen (ignoreErr (templateChains s)) resolutions) := by
  subst hz
  have hsame : s.dd.sizes.Refdiffed s.dd.sizes := ⟨_, rfl, h.templateFdiffCnt⟩
  have hread := forLoop_templateFdiffRow_read s.dd.templateCnt
    (show 0 + s.dd.templateCnt ≤ _ by rw [zero_add]; exact h.templateCnt) hsame hbits
  obtain ⟨fdiffs, rest, hr⟩ : ∃ fdiffs rest, readFdiffTable s.dd.templateCnt bs = (fdiffs, rest) :=
    ⟨_, _, rfl⟩
  rw [hr] at hread
  rw [fdiffCounts, show s.dd.sizes.templateCnt = s.dd.templateCnt from rfl, hr]
  have hfits : (¬ ∃ n ∈ fdiffs, maxFdiffs < n) → ∀ n ∈ fdiffs, n ≤ maxFdiffs := by simp
  cases rest with
  | none =>
    refine hread.elim ?_ (fun hno _ _ _ => .of_error ⟨hdtis, hfits hno, Nat.zero_le _⟩) (by simp)
    rintro ⟨n, hn, hlt⟩ f
    exact .of_fault fun hw => absurd (hw.2.1 n hn) (Nat.not_le.mpr hlt)
  | some rest =>
    refine hread.elim ?_ (by simp) fun bs' s' hno hbs hbits' hz' => ?_
    · rintro ⟨n, hn, hlt⟩ f
      exact .of_fault fun hw => absurd (hw.2.1 n hn) (Nat.not_le.mpr hlt)
    · obtain ⟨cnt, hz', hcnt⟩ := hz'
      have hready : Sizes.Ready { s.dd.sizes with templateFdiffCnt := cnt } :=
        ⟨h.dtCnt, h.templateCnt, h.renderCount, hcnt⟩
      have hout := chains_outcome hready hz' (hbits'.trans (some.inj hbs).symm) hdtis (hfits hno)
      exact hout

theorem dtis_outcome (hz : s.dd.sizes = z) (hbits : s.gb.bits = bs) (hpos : 0 < z.templateCnt)
    (ht : z.templateCnt ≤ maxTemplates) (hzero : z.renderCount = 0)
    (hall : ∀ n ∈ z.templateFdiffCnt, n ≤ maxFdiffs) :
    Outcome (dtiCounts z.dtCnt z.templateCnt (z.maxSpatialId + 1) bs)
      (andThen (templateDtis s) fun s =>
        andThen (templateFdiffs s) fun s => andThen (ignoreErr (templateChains s))
          resolutions) := by
  subst hbits
  have hdtis : (dtiCounts z.dtCnt z.templateCnt (z.maxSpatialId + 1) s.gb.bits).dtis =
      min z.dtCnt (s.gb.bits.length / 2) := by
    unfold dtiCounts fdiffCounts
    repeat' split
    all_goals rfl
  refine (templateDtis_read hz hpos ht).elim (fun hover f => .of_fault fun hw =>
    absurd (hdtis ▸ hw.1) (Nat.not_le.mpr hover)) ?_ ?_
  · intro hno hrest e s'
    simp only [ite_eq_left_iff, reduceCtorEq, imp_false, not_not] at hrest
    rw [dtiCounts, if_pos hrest]
    exact .of_error ⟨Nat.not_lt.mp hno, by simp, Nat.zero_le _⟩
  · intro bs s' hno hrest hbits hz'
    have hmul := Nat.le_mul_of_pos_left z.dtCnt hpos
    split_ifs at hrest with hshort
    rw [dtiCounts, if_neg hshort]
    exact fdiffs_outcome ⟨by omega, ht, hzero, hall⟩ hz' (hbits.trans (some.inj hrest).symm)
      (Nat.not_lt.mp hno)

theorem templateDependencyStructure_outcome (hbits : s.gb.bits = bs) (hzero : s.dd.renderCount = 0)
    (hall : ∀ n ∈ s.dd.templateFdiffCnt, n ≤ maxFdiffs) :
    Outcome (structureCounts bs) (templateDependencyStructure s) := by
  rw [templateDependencyStructure, getbitGetLeft_eq, structureCounts, hbits]
  by_cases hshort : bs.length < 11
  · simp [Outcome.of_error, Counts.within_zero, hshort]
  have hsix : (takeBits 6 bs).2 = bs.drop 6 := by rw [takeBits_of_le (by omega)]
  have hfive : (takeBits 5 (bs.drop 6)).2 = bs.drop 11 := by
    rw [takeBits_of_le (by rw [List.length_drop]; omega), List.drop_drop]
  rw [if_neg hshort, if_neg hshort]
  simp only [ddF_fst, ddF_dd, ddF_bits, hbits, hsix, Nat.reduceLeDiff]
  obtain ⟨s₁, hs₁⟩ : ∃ s₁ : Decoder, s₁ = { gb := (ddF (ddF s 6).2 5).2.gb, dd := { s.dd with
    templateIdOffset := (takeBits 6 bs).1, dtCnt := (takeBits 5 (bs.drop 6)).1 + 1 } } := ⟨_, rfl⟩
  have hbits₁ : s₁.gb.bits = bs.drop 11 := by simp [hs₁, hbits, hsix, hfive]
  have hlayers := templateLayersLoop_read maxTemplates 0 0 0 s₁ rfl hbits₁
  rw [← hs₁, templateLayers]
  cases hread : readLayers maxTemplates (bs.drop 11) with
  | none =>
    rw [hread] at hlayers
    obtain ⟨e, s', hrun⟩ := hlayers
    rw [hrun]
    exact .of_error Counts.within_zero
  | some r =>
    have hlen := length_readLayers maxTemplates hread
    rw [hread] at hlayers
    obtain ⟨s', hrun, hrest, hsizes⟩ := hlayers
    rw [hrun, andThen_none]
    rw [zero_add, zero_add, hs₁] at hsizes
    exact dtis_outcome hsizes hrest (Nat.succ_pos _) hlen hzero hall

theorem Outcome.safe_iff (h : Outcome c r) : Safe r ↔ c.Within := by
  unfold Outcome at h
  split at h
  · exact ⟨fun _ => by assumption, fun _ => h⟩
  · obtain ⟨f, rfl⟩ := h
    simp_all [Safe]

/-- A function that goes on and keeps the counts. -/
theorem Outcome.andThen (h : Outcome c r)
    (hnext : ∀ s, s.dd.sizes.Fit → ∃ s', next s = .ok (none, s') ∧ s'.dd.sizes = s.dd.sizes) :
    Outcome c (Checked.andThen r next) := by
  unfold Outcome at h ⊢
  split at h
  · obtain ⟨e, s, rfl, hfit⟩ := h
    rw [if_pos (by assumption)]
    cases e with
    | some e => exact ⟨some e, s, rfl, by simp⟩
    | none =>
      obtain ⟨s', hrun, hsizes⟩ := hnext s (hfit rfl)
      exact ⟨none, s', hrun, fun _ => hsizes ▸ hfit rfl⟩
  · obtain ⟨f, rfl⟩ := h
    rw [if_neg (by assumption)]
    exact ⟨f, rfl⟩

/-- The extended fields begin with five flags. -/
theorem extendedDescriptorFields_outcome {present : Bool} {rest : List Bool}
    (hfit : s.dd.sizes.Fit) (hzero : s.dd.renderCount = 0) (hlen : 4 ≤ rest.length)
    (hbits : s.gb.bits = present :: rest) :
    Outcome (if present then structureCounts (rest.drop 4) else Counts.zero)
    (extendedDescriptorFields s) := by
  rw [extendedDescriptorFields, getbitGetLeft_eq, hbits,
    if_neg (show ¬ (present :: rest).length < 5 by rw [List.length_cons]; omega)]
  simp only [ddFlag_fst, ddFlag_dd, ddFlag_bits, hbits, List.headD_cons]
  apply Outcome.andThen
  · cases present with
    | false => exact .of_fit Counts.within_zero hfit
    | true =>
      rw [if_pos rfl, if_pos rfl]
      apply Outcome.andThen
      · refine templateDependencyStructure_outcome ?_ hzero hfit.templateFdiffCnt
        simp only [ddFlag_bits, hbits, ← List.drop_one, List.drop_drop]
        rfl
      · intro s' hs'
        have hlt : s'.dd.dtCnt < 32 := lt_of_le_of_lt hs'.dtCnt (by decide)
        rw [shiftLeft, if_pos hlt]
        exact ⟨_, rfl, rfl⟩
  · intro s' _
    split
    · exact ⟨_, rfl, rfl⟩
    · exact ⟨_, rfl, rfl⟩

/-- The mandatory fields take 24 bits. -/
theorem mandatoryDescriptorFields_ok (h : 24 ≤ s.gb.bits.length) :
    ∃ s', mandatoryDescriptorFields s = .ok (none, s') ∧ s'.gb.bits = s.gb.bits.drop 24 ∧
    s'.dd.sizes = s.dd.sizes := by
  have hsix : (takeBits 6 s.gb.bits.tail.tail).2 = s.gb.bits.drop 8 := by
    rw [takeBits_of_le (by simp; omega), ← List.drop_one, ← List.drop_one, List.drop_drop,
      List.drop_drop]
  have hsixteen : (takeBits 16 (s.gb.bits.drop 8)).2 = s.gb.bits.drop 24 := by
    rw [takeBits_of_le (by simp; omega), List.drop_drop]
  rw [mandatoryDescriptorFields, getbitGetLeft_eq, if_neg (Nat.not_lt.mpr h)]
  simp only [ddF_dd, ddFlag_dd]
  exact ⟨_, rfl, by simp [hsix, hsixteen], rfl⟩

theorem fit_zero : Dd.zero.sizes.Fit := by
  refine ⟨by decide, by decide, by decide, ?_, by decide⟩
  intro n hn
  rw [Vector.eq_of_mem_replicate hn]
  exact Nat.zero_le _

/-- `dd_decode` stays inside its arrays, shifts by less than 32 and gives an error
or counts that fit, exactly for the buffers that announce no more than there is
place for. -/
theorem ddDecode_safe_iff (buf : Bytes) : Safe (ddDecode buf) ↔ (descriptorCounts buf).Within := by
  apply Outcome.safe_iff
  obtain ⟨s, hs⟩ : ∃ s : Decoder, s = { dd := Dd.zero, gb := getbitInit buf } := ⟨_, rfl⟩
  have hbits : s.gb.bits = bitsOfBytes buf := by rw [hs]; exact getbitInit_bits buf
  have hlen : s.gb.bits.length = 8 * buf.length := by rw [hbits, length_bitsOfBytes]
  rw [ddDecode, descriptorCounts, ← hs, ← hbits]
  by_cases hshort : s.gb.bits.length < 24
  · rw [mandatoryDescriptorFields, getbitGetLeft_eq, if_pos hshort,
      List.drop_eq_nil_of_le (by omega)]
    exact .of_error Counts.within_zero
  obtain ⟨s', hrun, hrest, hsizes⟩ := mandatoryDescriptorFields_ok (Nat.not_lt.mp hshort)
  rw [hs] at hsizes
  have hfit : s'.dd.sizes.Fit := hsizes ▸ fit_zero
  have hlen' : s'.gb.bits.length = 8 * buf.length - 24 := by rw [hrest, List.length_drop, hlen]
  rw [hrun, andThen_none, ← hrest]
  cases hb : s'.gb.bits with
  | nil =>
    rw [hb, List.length_nil] at hlen'
    rw [if_neg (by omega)]
    exact .of_fit Counts.within_zero hfit
  | cons present rest =>
    rw [hb, List.length_cons] at hlen'
    have hout := extendedDescriptorFields_outcome hfit (congrArg Sizes.renderCount hsizes)
      (show 4 ≤ rest.length by omega) hb
    have hall := Outcome.andThen hout (fun s _ => ⟨{ s with dd.ext := true }, rfl, rfl⟩)
    rw [if_pos (by omega)]
    cases present with
    | true | false => exact hall

/-- A descriptor with a structure of one template and 17 decode targets: the last
of them has no place. -/
theorem seventeen_targets_fault : ¬ ∀ buf : Bytes, Safe (ddDecode buf) := by
  intro hall
  obtain ⟨e, s, hrun, -⟩ := hall [0xc0, 0, 1, 0x80, 0x10, 0xc0, 0, 0, 0, 0]
  cases hrun

end LibRe.DD
