/-
LibRe.Dd.RoundTrip — a dependency descriptor is decoded as it was encoded.

For every part of a descriptor there is the bit string that stands for it. The encoder
writes this string behind what it has written (`Writes`), and the decoder takes it from
the front of whatever is left and stores the fields (`Decodes`). The arrays of the decoder
start as zeros and are filled from the front, so what they hold is given by how far they
have been filled (`upTo`, `table`).
-/
import LibRe.Dd.DdTheorems
import LibRe.Dd.Enc

namespace LibRe.DD

open Bits Checked

variable {f : Nat → Putbit → Run Errno Putbit} {body : Nat → Decoder → Step} {v : Nat → Nat → Nat}

/-! ## Descriptors that the format can express -/

/-- Templates come in the order of their layers. -/
def NextLayer (dd : Dd) (i : Nat) : Prop :=
  Enc.nextLayerIdc (cell dd.templateSpatialId i) (cell dd.templateTemporalId i)
    (cell dd.templateSpatialId (i + 1)) (cell dd.templateTemporalId (i + 1)) ≠ noMoreTemplates

/-- A template dependency structure that fits `struct dd` and the fields of the format. -/
structure ValidStructure (dd : Dd) : Prop where
  templateIdOffset : dd.templateIdOffset < 2 ^ 6
  dtCnt : 0 < dd.dtCnt ∧ dd.dtCnt ≤ maxDecodeTargets
  templateCnt : 0 < dd.templateCnt ∧ dd.templateCnt ≤ maxTemplates
  firstLayer : cell dd.templateSpatialId 0 = 0 ∧ cell dd.templateTemporalId 0 = 0
  layers : ∀ i, i + 1 < dd.templateCnt → NextLayer dd i
  maxSpatialId : dd.maxSpatialId = cell dd.templateSpatialId (dd.templateCnt - 1)
  dtis : ∀ t < dd.templateCnt, ∀ d < dd.dtCnt, cell2 dd.templateDti t d < 2 ^ 2
  fdiffCnts : ∀ t < dd.templateCnt, cell dd.templateFdiffCnt t ≤ maxFdiffs
  fdiffs : ∀ t < dd.templateCnt, ∀ j < cell dd.templateFdiffCnt t,
    0 < cell2 dd.templateFdiff t j ∧ cell2 dd.templateFdiff t j ≤ 2 ^ 4
  chainCnt : dd.chainCnt ≤ dd.dtCnt
  protectedBy : 0 < dd.chainCnt → ∀ d < dd.dtCnt, cell dd.decodeTargetProtectedBy d < dd.chainCnt
  chainFdiffs : ∀ t < dd.templateCnt, ∀ c < dd.chainCnt, cell2 dd.templateChainFdiff t c < 2 ^ 4
  renderCount : dd.renderCount = if dd.resolutionsPresentFlag then dd.maxSpatialId + 1 else 0
  renders : dd.renderCount ≤ maxSpatialIds
  sizes : ∀ i < dd.renderCount, cell dd.maxRenderWidthMinus1 i < 2 ^ 16 ∧
    cell dd.maxRenderHeightMinus1 i < 2 ^ 16
  bitmask : dd.activeDecodeTargetsBitmask = 2 ^ dd.dtCnt - 1

/-- A descriptor that the format can express. -/
structure Valid (dd : Dd) : Prop where
  templateId : dd.frameDependencyTemplateId < 2 ^ 6
  frameNumber : dd.frameNumber < 2 ^ 16
  structured : dd.ext = true → dd.templateDependencyStructurePresentFlag = true → ValidStructure dd

/-- Two template dependency structures that say the same. -/
structure SameStructure (dd dd' : Dd) : Prop where
  bitmask : dd.activeDecodeTargetsBitmask = dd'.activeDecodeTargetsBitmask
  templateIdOffset : dd.templateIdOffset = dd'.templateIdOffset
  dtCnt : dd.dtCnt = dd'.dtCnt
  templateCnt : dd.templateCnt = dd'.templateCnt
  maxSpatialId : dd.maxSpatialId = dd'.maxSpatialId
  layers : ∀ t < dd'.templateCnt, cell dd.templateSpatialId t = cell dd'.templateSpatialId t ∧
    cell dd.templateTemporalId t = cell dd'.templateTemporalId t
  dtis : ∀ t < dd'.templateCnt, ∀ d < dd'.dtCnt, cell2 dd.templateDti t d =
    cell2 dd'.templateDti t d
  fdiffCnts : ∀ t < dd'.templateCnt, cell dd.templateFdiffCnt t = cell dd'.templateFdiffCnt t
  fdiffs : ∀ t < dd'.templateCnt, ∀ j < cell dd'.templateFdiffCnt t, cell2 dd.templateFdiff t j =
    cell2 dd'.templateFdiff t j
  chainCnt : dd.chainCnt = dd'.chainCnt
  protectedBy : 0 < dd'.chainCnt → ∀ d < dd'.dtCnt, cell dd.decodeTargetProtectedBy d =
    cell dd'.decodeTargetProtectedBy d
  chainFdiffs : ∀ t < dd'.templateCnt, ∀ c < dd'.chainCnt, cell2 dd.templateChainFdiff t c =
    cell2 dd'.templateChainFdiff t c
  resolutionsPresentFlag : dd.resolutionsPresentFlag = dd'.resolutionsPresentFlag
  renderCount : dd.renderCount = dd'.renderCount
  sizes : ∀ i < dd'.renderCount, cell dd.maxRenderWidthMinus1 i = cell dd'.maxRenderWidthMinus1 i ∧
    cell dd.maxRenderHeightMinus1 i = cell dd'.maxRenderHeightMinus1 i

/-- The mandatory fields. -/
def Dd.mandatory (dd : Dd) : Bool × Bool × Nat × Nat :=
  (dd.startOfFrame, dd.endOfFrame, dd.frameDependencyTemplateId, dd.frameNumber)

/-- The flags of the extended fields. -/
def Dd.flags (dd : Dd) : Bool × Bool × Bool × Bool × Bool :=
  (dd.templateDependencyStructurePresentFlag, dd.activeDecodeTargetsPresentFlag, dd.customDtisFlag,
    dd.customFdiffsFlag, dd.customChainsFlag)

/-- Two descriptors that say the same: the fields that are present, and the places of
arrays that are in use. -/
structure Same (dd dd' : Dd) : Prop where
  mandatory : dd.mandatory = dd'.mandatory
  ext : dd.ext = dd'.ext
  flags : dd'.ext = true → dd.flags = dd'.flags
  structured : dd'.ext = true → dd'.templateDependencyStructurePresentFlag = true →
    SameStructure dd dd'

/-! ## Bit strings -/

section

variable (dd : Dd)

def mandatoryBits : List Bool :=
  [dd.startOfFrame] ++ ([dd.endOfFrame] ++ (numBits 6 dd.frameDependencyTemplateId ++
    numBits 16 dd.frameNumber))

/-- The step from one template to the next. -/
def layerIdc (i : Nat) : Nat :=
  Enc.nextLayerIdc (cell dd.templateSpatialId (i - 1)) (cell dd.templateTemporalId (i - 1))
    (cell dd.templateSpatialId i) (cell dd.templateTemporalId i)

def layersBits : List Bool :=
  (List.range' 1 (dd.templateCnt - 1)).flatMap (fun i => numBits 2 (layerIdc dd i)) ++
    numBits 2 noMoreTemplates

def dtisBits : List Bool :=
  (List.range' 0 dd.templateCnt).flatMap fun t => (List.range' 0 dd.dtCnt).flatMap fun d =>
    numBits 2 (cell2 dd.templateDti t d)

def fdiffRowBits (t : Nat) : List Bool :=
  (List.range' 0 (cell dd.templateFdiffCnt t)).flatMap
    (fun j => numBits 1 1 ++ numBits 4 (cell2 dd.templateFdiff t j - 1)) ++
    numBits 1 0

def fdiffsBits : List Bool := (List.range' 0 dd.templateCnt).flatMap (fdiffRowBits dd)

def chainsBits : List Bool :=
  nsBits (dd.dtCnt + 1) dd.chainCnt ++
    if dd.chainCnt = 0 then []
    else
      (List.range' 0 dd.dtCnt).flatMap (fun d => nsBits dd.chainCnt
        (cell dd.decodeTargetProtectedBy d)) ++
        (List.range' 0 dd.templateCnt).flatMap fun t =>
          (List.range' 0 dd.chainCnt).flatMap fun c => numBits 4 (cell2 dd.templateChainFdiff t c)

def rendersBits : List Bool :=
  (List.range' 0 dd.renderCount).flatMap fun i =>
    numBits 16 (cell dd.maxRenderWidthMinus1 i) ++ numBits 16 (cell dd.maxRenderHeightMinus1 i)

def resolutionsBits : List Bool :=
  [dd.resolutionsPresentFlag] ++ if dd.resolutionsPresentFlag then rendersBits dd else []

def structureBits : List Bool :=
  numBits 6 dd.templateIdOffset ++ (numBits 5 (dd.dtCnt - 1) ++
    (layersBits dd ++ (dtisBits dd ++ (fdiffsBits dd ++ (chainsBits dd ++ resolutionsBits dd)))))

def extendedBits : List Bool :=
  [dd.templateDependencyStructurePresentFlag] ++ ([dd.activeDecodeTargetsPresentFlag] ++
    ([dd.customDtisFlag] ++ ([dd.customFdiffsFlag] ++ ([dd.customChainsFlag] ++
      if dd.templateDependencyStructurePresentFlag then structureBits dd else []))))

def descriptorBits : List Bool := mandatoryBits dd ++ if dd.ext then extendedBits dd else []

end

/-! ## The encoder writes them -/

section

variable {fresh : Nat → Nat → UInt8} {dd : Dd}

theorem writes_mandatory : Writes (Enc.mandatoryDescriptorFields fresh dd) (mandatoryBits dd) :=
  (writes_one _).andThen ((writes_one _).andThen
    ((writes_num (by decide) _).andThen (writes_num (by decide) _)))

variable {i j n size t : Nat} {bs : List Bool}

theorem writes_fetch {a : Vector Nat size} (h : i < size)
    (hf : Writes (f (cell a i)) bs) : Writes (fun pb => fetch a i fun v => f v pb) bs := by
  intro front pb hpb
  beta_reduce
  rw [fetch_eq a h]
  exact hf front pb hpb

theorem writes_fetch2 {rows : Nat} {a : Vector (Vector Nat size) rows} (hi : i < rows)
    (hj : j < size) (hf : Writes (f (cell2 a i j)) bs) :
    Writes (fun pb => fetch2 a i j fun v => f v pb) bs := by
  intro front pb hpb
  beta_reduce
  rw [fetch2_eq a hi hj]
  exact hf front pb hpb

theorem writes_if {c : Prop} [Decidable c] {f g : Putbit → Run Errno Putbit} {bs' : List Bool}
    (hf : c → Writes f bs) (hg : ¬ c → Writes g bs') : Writes (fun pb => if c then f pb else g pb)
    (if c then bs else bs') := by
  by_cases h : c
  · simp [h, hf]
  · simp [h, hg]

section

variable (h : ValidStructure dd)
include h

theorem writes_layers : Writes (Enc.templateLayers fresh dd) (layersBits dd) := by
  refine Writes.andThen (writes_forLoop _ 1 fun i hi hlt front pb hpb => ?_)
    (writes_num (by decide) _)
  have hcnt := h.templateCnt
  have hlayer : layerIdc dd i ≠ noMoreTemplates := by
    have hnext := h.layers (i - 1) (by omega)
    rwa [NextLayer, Nat.sub_add_cancel hi] at hnext
  rw [Enc.nextLayer, fetch_eq _ (by omega), fetch_eq _ (by omega), fetch_eq _ (by omega),
    fetch_eq _ (by omega)]
  show ∃ pb', (if layerIdc dd i = noMoreTemplates then _ else _) = _ ∧ _
  rw [if_neg hlayer]
  exact writes_num (by decide) _ front pb hpb

theorem writes_dtis : Writes (Enc.templateDtis fresh dd) (dtisBits dd) := by
  have hcnt := h.templateCnt
  have hdt := h.dtCnt
  refine writes_forLoop _ 0 fun t _ ht => writes_forLoop _ 0 fun d _ hd => ?_
  exact writes_fetch2 (f := fun v => putbitWrite fresh 2 v) (by omega) (by omega)
    (writes_num (by decide) _)

theorem writes_fdiffs : Writes (Enc.templateFdiffs fresh dd) (fdiffsBits dd) := by
  have hcnt := h.templateCnt
  refine writes_forLoop _ 0 fun t _ ht front pb hpb => ?_
  rw [Enc.templateFdiffRow, fetch_eq _ (by omega)]
  have hcols := h.fdiffCnts t (by omega)
  refine Writes.andThen (writes_forLoop _ 0 fun j _ hj => ?_)
    (writes_num (by decide) _) front pb hpb
  have hfdiff := h.fdiffs t (by omega) j (by omega)
  have hless : (cell2 dd.templateFdiff t j + (2 ^ 32 - 1)) % 2 ^ 32 = cell2 dd.templateFdiff t
      j - 1 := by omega
  refine writes_fetch2 (f := fun v pb => andThen (putbitWrite fresh 1 1 pb)
    (putbitWrite fresh 4 ((v + (2 ^ 32 - 1)) % 2 ^ 32)))
    (by omega) (by omega) ?_
  rw [hless]
  exact (writes_num (by decide) _).andThen (writes_num (by decide) _)

theorem writes_chains : Writes (Enc.templateChains fresh dd) (chainsBits dd) := by
  have hcnt := h.templateCnt
  have hdt := h.dtCnt
  have hchains := h.chainCnt
  have hfew : dd.dtCnt ≤ 16 := hdt.2
  refine (writes_ns (by omega) (by omega) _).andThen (writes_if (fun _ => writes_none)
    fun hne => ?_)
  refine Writes.andThen (writes_forLoop _ 0 fun d _ hd => ?_)
    (writes_forLoop _ 0 fun t _ ht => writes_forLoop _ 0 fun c _ hc => ?_)
  · exact writes_fetch (f := fun v => putbitWriteNs fresh dd.chainCnt v) (by omega)
      (writes_ns (by omega) (by omega) _)
  · exact writes_fetch2 (f := fun v => putbitWrite fresh 4 v) (by omega) (show c < 32 by omega)
      (writes_num (by decide) _)

theorem writes_renders : Writes (Enc.renderResolutions fresh dd) (rendersBits dd) := by
  have hrenders := h.renders
  refine writes_forLoop _ 0 fun i _ hi => Writes.andThen ?_ ?_
  · exact writes_fetch (f := fun v => putbitWrite fresh 16 v) (by omega) (writes_num (by decide) _)
  · exact writes_fetch (f := fun v => putbitWrite fresh 16 v) (by omega) (writes_num (by decide) _)

theorem writes_structure : Writes (Enc.templateDependencyStructure fresh dd)
    (structureBits dd) := by
  have hdt := h.dtCnt
  have hless : (dd.dtCnt + 255) % 256 = dd.dtCnt - 1 := by
    have hfew : dd.dtCnt ≤ 16 := hdt.2
    omega
  unfold Enc.templateDependencyStructure
  rw [hless]
  refine (writes_num (by decide) _).andThen ((writes_num (by decide) _).andThen
    ((writes_layers h).andThen ((writes_dtis h).andThen
    ((writes_fdiffs h).andThen ((writes_chains h).andThen ((writes_one _).andThen ?_))))))
  exact writes_if (fun _ => writes_renders h) fun _ => writes_none

end

theorem writes_extended (h : dd.templateDependencyStructurePresentFlag = true → ValidStructure dd)
    (hactive : dd.activeDecodeTargetsPresentFlag = false) :
    Writes (Enc.extendedDescriptorFields fresh dd) (extendedBits dd) := by
  have hlast : Writes (fun pb => if dd.activeDecodeTargetsPresentFlag then .ok (some .ENOTSUP, pb)
      else .ok (none, pb)) [] := by
    rw [hactive]
    exact writes_none
  have htail := (writes_if (fun hp => @writes_structure fresh dd (h hp)) fun _ =>
    writes_none).andThen hlast
  rw [List.append_nil] at htail
  exact (writes_one _).andThen ((writes_one _).andThen
    ((writes_one _).andThen ((writes_one _).andThen ((writes_one _).andThen htail))))

theorem writes_descriptor (h : Valid dd)
    (hactive : dd.ext = true → dd.activeDecodeTargetsPresentFlag = false) :
    Writes (fun pb => andThen (Enc.mandatoryDescriptorFields fresh dd pb) fun pb =>
      if dd.ext then Enc.extendedDescriptorFields fresh dd pb else .ok (none, pb))
        (descriptorBits dd) :=
  writes_mandatory.andThen (writes_if (fun hext => writes_extended (h.structured hext)
    (hactive hext)) fun _ => writes_none)

end

/-! ## The decoder takes them -/

/-- The function takes the bits from the front of what is left, and changes the descriptor. -/
def Decodes (f : Decoder → Step) (bs : List Bool) (d d' : Dd) : Prop :=
  ∀ gb rest, gb.bits = bs ++ rest → ∃ gb', f { dd := d, gb } = .ok (none, { dd := d', gb := gb' }) ∧
    gb'.bits = rest

section

variable {dd d d' d'' : Dd} {bs bs' rest : List Bool} {gb : Getbit} {g : Decoder → Step}
  {cols : Nat → Nat}

/-- The function takes the first bits and goes on as another one. -/
theorem Decodes.after {f : Decoder → Step} (hg : Decodes g bs' d' d'')
    (hf : ∀ gb rest, gb.bits = bs ++ rest → ∃ gb', f { dd := d, gb } = g { dd := d', gb := gb' } ∧
      gb'.bits = rest) :
    Decodes f (bs ++ bs') d d'' := by
  intro gb rest h
  rw [List.append_assoc] at h
  obtain ⟨gb₁, hrun, h₁⟩ := hf gb _ h
  rw [hrun]
  exact hg gb₁ rest h₁

theorem Decodes.andThen {f : Decoder → Step} (hf : Decodes f bs d d') (hg : Decodes g bs' d' d'') :
    Decodes (fun s => andThen (f s) g) (bs ++ bs') d d'' := by
  refine hg.after fun gb rest h => ?_
  obtain ⟨gb₁, hrun, h₁⟩ := hf gb rest h
  exact ⟨gb₁, by rw [hrun, andThen_none], h₁⟩

theorem Decodes.ignoreErr {f : Decoder → Step} (hf : Decodes f bs d d') :
    Decodes (fun s => ignoreErr (f s)) bs d d' := by
  intro gb rest h
  obtain ⟨gb₁, hrun, h₁⟩ := hf gb rest h
  refine ⟨gb₁, ?_, h₁⟩
  beta_reduce
  rw [hrun]
  rfl

theorem decodes_none : Decodes (fun s => .ok (none, s)) [] d d := fun gb _ h => ⟨gb, rfl, h⟩

/-- Round `j` leads from one descriptor of a sequence to the next. -/
theorem decodes_forLoop {part : Nat → List Bool} (seq : Nat → Dd) (n : Nat) : ∀ i : Nat,
    (∀ j, i ≤ j → j < i + n → Decodes (body j) (part j) (seq j) (seq (j + 1))) →
    Decodes (forLoop body n i) ((List.range' i n).flatMap part) (seq i) (seq (i + n)) := by
  induction n with
  | zero => exact fun i _ => decodes_none
  | succ n ih =>
    intro i h
    have hrest := ih (i + 1) fun j hj hlt => h j (by omega) (by omega)
    rw [add_assoc, add_comm 1 n] at hrest
    exact (h i (le_refl _) (by omega)).andThen hrest

/-- The number of rounds stands in the descriptor. -/
theorem decodes_counted (count : Dd → Nat) (h : Decodes (forLoop body n 0) bs d d')
    (hn : count d = n) : Decodes (fun s => forLoop body (count s.dd) 0 s) bs d d' := by
  subst hn
  exact h

theorem enough_left {k : Nat} (h : gb.bits = bs ++ rest) (hk : k ≤ bs.length) :
    ¬ getbitGetLeft gb < k := by
  simp [getbitGetLeft_eq, h]
  omega

theorem decodes_mandatory (h : Valid dd) (d : Dd) :
    Decodes mandatoryDescriptorFields (mandatoryBits dd) d
      { d with
        startOfFrame := dd.startOfFrame
        endOfFrame := dd.endOfFrame
        frameDependencyTemplateId := dd.frameDependencyTemplateId
        frameNumber := dd.frameNumber } := by
  intro gb rest hgb
  have hleft := enough_left hgb (show 24 ≤ (mandatoryBits dd).length by simp [mandatoryBits])
  rw [mandatoryBits] at hgb
  simp [mandatoryDescriptorFields, hleft, hgb, takeBits_numBits h.templateId,
    takeBits_numBits h.frameNumber]

/-! ### Layers -/

/-- What the step from one template to the next says about the ids. -/
theorem nextLayerIdc_cases {sp tp sn tn : Nat}
    (h : Enc.nextLayerIdc sp tp sn tn ≠ noMoreTemplates) :
    (Enc.nextLayerIdc sp tp sn tn = 0 ∧ sn = sp ∧ tn = tp) ∨
      (Enc.nextLayerIdc sp tp sn tn = 1 ∧ sn = sp ∧ tn = tp + 1) ∨
      (Enc.nextLayerIdc sp tp sn tn = 2 ∧ sn = sp + 1 ∧ tn = 0) := by
  unfold Enc.nextLayerIdc at h ⊢
  split_ifs at h ⊢ with h₀ h₁ h₂
  · exact Or.inl ⟨rfl, h₀⟩
  · exact Or.inr (Or.inl ⟨rfl, h₁⟩)
  · exact Or.inr (Or.inr ⟨rfl, h₂⟩)
  · exact absurd rfl h

/-- The descriptor with the layers of `i` templates. -/
def layered (dd d : Dd) (i : Nat) : Dd :=
  { d with
    templateSpatialId := upTo d.templateSpatialId (cell dd.templateSpatialId) i
    templateTemporalId := upTo d.templateTemporalId (cell dd.templateTemporalId) i }

theorem decodes_layersLoop (h : ValidStructure dd) (d : Dd) (m : Nat) :
    ∀ i n : Nat, i + m + 1 = dd.templateCnt → i + n = maxTemplates →
    Decodes (templateLayersLoop n (cell dd.templateTemporalId i) (cell dd.templateSpatialId i) i)
      ((List.range' (i + 1) m).flatMap (fun j => numBits 2 (layerIdc dd j)) ++
        numBits 2 noMoreTemplates) (layered dd d i)
      { layered dd d dd.templateCnt with maxSpatialId := dd.maxSpatialId,
                                         templateCnt := dd.templateCnt } := by
  induction m with
  | zero =>
    intro i n hi hn gb rest hgb
    have hcnt := h.templateCnt
    obtain ⟨n, rfl⟩ : ∃ k, n = k + 1 := Nat.exists_eq_succ_of_ne_zero (by omega)
    have hleft := enough_left hgb (show 2 ≤ _ by simp)
    have hlast : cell dd.templateSpatialId i = dd.maxSpatialId := by
      rw [h.maxSpatialId, ← hi]
      rfl
    simp [templateLayersLoop, layered, put_upTo _ _ (show i < maxTemplates by omega), hleft, hgb,
      takeBits_numBits (show noMoreTemplates < 2 ^ 2 by decide), ← hlast, ← hi]
  | succ m ih =>
    intro i n hi hn gb rest hgb
    have hcnt := h.templateCnt
    obtain ⟨n, rfl⟩ : ∃ k, n = k + 1 := Nat.exists_eq_succ_of_ne_zero (by omega)
    have hleft := enough_left hgb (show 2 ≤ _ by simp)
    have hlayer := nextLayerIdc_cases (h.layers i (by omega))
    have hidcEq : layerIdc dd (i + 1) = Enc.nextLayerIdc (cell dd.templateSpatialId i)
        (cell dd.templateTemporalId i)
        (cell dd.templateSpatialId (i + 1)) (cell dd.templateTemporalId (i + 1)) := rfl
    rw [← hidcEq] at hlayer
    rw [List.range'_succ, List.flatMap_cons, List.append_assoc, List.append_assoc] at hgb
    have hidc := (congrArg (takeBits 2) hgb).trans (takeBits_numBits (by omega) _)
    obtain ⟨gb₂, hrun, hb₂⟩ := ih (i + 1) n (by omega) (by omega)
      (ddF { dd := layered dd d (i + 1), gb } 2).2.gb rest (by simp [hidc])
    refine ⟨gb₂, ?_, hb₂⟩
    rw [templateLayersLoop]
    simp only [layered, put_upTo _ _ (show i < maxTemplates by omega)] at hrun ⊢
    simp only [if_neg hleft, ddF_fst, hidc, Nat.reduceLeDiff]
    rw [← hrun]
    rcases hlayer with ⟨hidc, hs, ht⟩ | ⟨hidc, hs, ht⟩ | ⟨hidc, hs, ht⟩ <;>
      rw [hidc, hs, ht] <;> rfl

theorem decodes_layers (h : ValidStructure dd) (d : Dd) : ∃ sids tids,
    Decodes templateLayers (layersBits dd) d
      { d with templateSpatialId := sids, templateTemporalId := tids,
               maxSpatialId := dd.maxSpatialId,
               templateCnt := dd.templateCnt } ∧
      ∀ t < dd.templateCnt, cell sids t = cell dd.templateSpatialId t ∧
      cell tids t = cell dd.templateTemporalId t := by
  have hcnt := h.templateCnt
  have hloop := decodes_layersLoop h d (dd.templateCnt - 1) 0 maxTemplates (by omega) (by omega)
  rw [h.firstLayer.1, h.firstLayer.2] at hloop
  have hstart : layered dd d 0 = d := by rw [layered, upTo_zero, upTo_zero]
  rw [hstart] at hloop
  exact ⟨_, _, hloop, fun t ht => ⟨cell_upTo _ _ ht (by omega), cell_upTo _ _ ht (by omega)⟩⟩

/-! ### Decode target indications -/

theorem decodes_dti {a : Vector (Vector Nat maxDecodeTargets) maxTemplates}
    (ht : t < maxTemplates) (hj : j < maxDecodeTargets) (hv : v t j < 2 ^ 2) (d : Dd) :
    Decodes (templateDti t j) (numBits 2 (v t j))
      { d with templateDti := table a v (filling cols t j) }
      { d with templateDti := table a v (filling cols t (j + 1)) } := by
  intro gb rest hgb
  have hleft := enough_left hgb (show 2 ≤ _ by simp)
  simp [templateDti, hleft, hgb, takeBits_numBits hv, put2_filling a v cols ht hj]

/-- The rows of a table of the descriptor are filled one after the other. -/
theorem decodes_table {rows cnt : Nat} (set : Vector (Vector Nat size) rows → Dd)
    {a : Vector (Vector Nat size) rows}
    {part : Nat → Nat → List Bool} {r : Nat → Decoder → Step} {body : Nat → Nat → Decoder → Step}
    (hcnt : (set a).templateCnt = cnt) (hrows : cnt ≤ rows) (hsize : n ≤ size)
    (hrow : ∀ t < cnt, ∀ a gb, r t { dd := set a, gb } = forLoop (body t) n 0 { dd := set a, gb })
    (hbody : ∀ t < cnt, ∀ j < n, Decodes (body t j) (part t j)
      (set (table a v (filling (fun _ => n) t j)))
      (set (table a v (filling (fun _ => n) t (j + 1))))) : ∃ a',
    Decodes (fun s => forLoop r s.dd.templateCnt 0 s)
      ((List.range' 0 cnt).flatMap fun t => (List.range' 0 n).flatMap (part t))
      (set a) (set a') ∧ ∀ t < cnt, ∀ j < n, cell2 a' t j = v t j := by
  have hone : ∀ t, 0 ≤ t → t < 0 + cnt → Decodes (r t) ((List.range' 0 n).flatMap (part t))
      (set (table a v (filling (fun _ => n) t 0)))
        (set (table a v (filling (fun _ => n) (t + 1) 0))) := by
    intro t _ ht gb rest hgb
    rw [hrow t (by omega), ← filling_row]
    have hloop := decodes_forLoop (fun j => set (table a v (filling (fun _ => n) t j))) n 0
      (fun j _ hj => hbody t (by omega) j (by omega)) gb rest hgb
    rwa [zero_add] at hloop
  have hall := decodes_forLoop (fun t => set (table a v (filling (fun _ => n) t 0))) cnt 0 hone
  rw [filling_start, table_zero, zero_add] at hall
  refine ⟨_, decodes_counted Dd.templateCnt hall hcnt, fun t ht j hj => ?_⟩
  exact cell2_table _ _ _ (by omega) (by rw [filling_of_lt _ ht]; exact hj) (by omega)

theorem decodes_dtis (h : ValidStructure dd) (ht : d.templateCnt = dd.templateCnt)
    (hdt : d.dtCnt = dd.dtCnt) : ∃ a,
    Decodes templateDtis (dtisBits dd) d { d with templateDti := a } ∧
      ∀ t < dd.templateCnt, ∀ j < dd.dtCnt, cell2 a t j = cell2 dd.templateDti t j := by
  have hcnt := h.templateCnt
  have hcols := h.dtCnt
  exact decodes_table (fun a => { d with templateDti := a }) ht hcnt.2 hcols.2
    (fun t ht a gb => by simp only [if_neg (show ¬ t ≥ maxTemplates by omega), hdt])
    (fun t ht j hj => decodes_dti (by omega) (by omega) (h.dtis t ht j hj) d)

/-! ### Frame differences -/

/-- What follows the first flag of a row, from place `j` on. -/
def fdiffTailBits (v : Nat → Nat) (j : Nat) : Nat → List Bool
  | 0 => []
  | m + 1 => numBits 4 (v j - 1) ++ ([decide (0 < m)] ++ fdiffTailBits v (j + 1) m)

theorem fdiffRow_eq (v : Nat → Nat) (m : Nat) : ∀ j : Nat,
    (List.range' j m).flatMap (fun j => numBits 1 1 ++ numBits 4 (v j - 1)) ++ numBits 1 0 =
      [decide (0 < m)] ++ fdiffTailBits v j m := by
  induction m with
  | zero => exact fun j => rfl
  | succ m ih =>
    intro j
    rw [List.range'_succ, List.flatMap_cons, List.append_assoc, ih (j + 1), List.append_assoc]
    rfl

theorem length_fdiffTailBits (v : Nat → Nat) (m : Nat) :
    ∀ j : Nat, (fdiffTailBits v j m).length = 5 * m := by
  induction m with
  | zero => exact fun j => rfl
  | succ m ih =>
    simp [fdiffTailBits, ih]
    omega

/-- The descriptor with `j` frame differences of row `t`, and all rows before it. -/
def fdiffed (dd d : Dd) (t j : Nat) : Dd :=
  { d with
    templateFdiff := table d.templateFdiff (cell2 dd.templateFdiff)
      (filling (cell dd.templateFdiffCnt) t j)
    templateFdiffCnt := upTo d.templateFdiffCnt (cell dd.templateFdiffCnt) t }

theorem decodes_fdiffLoop (h : ValidStructure dd) (d : Dd) (ht : t < dd.templateCnt) (m : Nat) :
    ∀ j n : Nat,
    j + m = cell dd.templateFdiffCnt t → m ≤ n →
    Decodes (templateFdiffLoop t n j (decide (0 < m)))
      (fdiffTailBits (cell2 dd.templateFdiff t) j m) (fdiffed dd d t j)
      (fdiffed dd d (t + 1) 0) := by
  have hcnt := h.templateCnt
  induction m with
  | zero =>
    intro j n hj _ gb rest hgb
    refine ⟨gb, ?_, hgb⟩
    have hput : put (fdiffed dd d t j).templateFdiffCnt t j =
        .ok (upTo d.templateFdiffCnt (cell dd.templateFdiffCnt) (t + 1)) := by
      rw [add_zero] at hj
      rw [hj]
      exact put_upTo _ _ (by omega)
    have hstep : templateFdiffLoop t n j false { dd := fdiffed dd d t j, gb } = .ok (none, {
        dd := { fdiffed dd d t j with
          templateFdiffCnt := upTo d.templateFdiffCnt (cell dd.templateFdiffCnt) (t + 1) }
        gb }) := by
      cases n <;> simp only [templateFdiffLoop, hput]
    show templateFdiffLoop t n j false _ = _
    rw [hstep, fdiffed, fdiffed, ← filling_row, ← hj]
    rfl
  | succ m ih =>
    intro j n hj hn gb rest hgb
    obtain ⟨n, rfl⟩ : ∃ k, n = k + 1 := Nat.exists_eq_succ_of_ne_zero (by omega)
    have hv := h.fdiffs t ht j (by omega)
    have hcols := h.fdiffCnts t ht
    have hleft := enough_left hgb (show 5 ≤ _ by rw [length_fdiffTailBits]; omega)
    have hfour := (congrArg (takeBits 4) hgb).trans (takeBits_numBits (by omega) _)
    obtain ⟨gb₃, hrun, hb₃⟩ := ih (j + 1) n (by omega) (by omega)
      (ddFlag { dd := fdiffed dd d t (j + 1),
                gb := (ddF { dd := fdiffed dd d t j, gb } 4).2.gb }).2.gb rest (by simp [hfour])
    have hput : put2 (fdiffed dd d t j).templateFdiff t j (cell2 dd.templateFdiff t j - 1 + 1) =
        .ok (table d.templateFdiff (cell2 dd.templateFdiff)
          (filling (cell dd.templateFdiffCnt) t (j + 1))) := by
      rw [Nat.sub_add_cancel hv.1]
      exact put2_filling _ _ _ (by omega) (by omega)
    refine ⟨gb₃, ?_, hb₃⟩
    show templateFdiffLoop t (n + 1) j true _ = _
    rw [templateFdiffLoop, if_neg hleft]
    simp only [ddF_fst, ddF_dd, hfour, hput, ddFlag_fst, ddF_bits, Nat.reduceLeDiff]
    exact hrun

theorem decodes_fdiffs (h : ValidStructure dd) (ht : d.templateCnt = dd.templateCnt) : ∃ a cnts,
    Decodes templateFdiffs (fdiffsBits dd) d
      { d with templateFdiff := a, templateFdiffCnt := cnts } ∧
      (∀ t < dd.templateCnt, cell cnts t = cell dd.templateFdiffCnt t) ∧
      ∀ t < dd.templateCnt, ∀ j < cell dd.templateFdiffCnt t, cell2 a t j =
        cell2 dd.templateFdiff t j := by
  have hcnt := h.templateCnt
  have hrow : ∀ t, 0 ≤ t → t < 0 + dd.templateCnt →
      Decodes (templateFdiffRow t) (fdiffRowBits dd t) (fdiffed dd d t 0)
        (fdiffed dd d (t + 1) 0) := by
    intro t _ hlt gb rest hgb
    rw [fdiffRowBits, fdiffRow_eq, List.append_assoc] at hgb
    have hleft := enough_left hgb (show 1 ≤ _ from le_refl 1)
    have hb₁ := (ddFlag_bits { dd := fdiffed dd d t 0, gb }).trans (congrArg List.tail hgb)
    have hfuel : cell dd.templateFdiffCnt t ≤ getbitGetLeft
        (ddFlag { dd := fdiffed dd d t 0, gb }).2.gb := by
      simp [getbitGetLeft_eq, hb₁, length_fdiffTailBits]
      omega
    obtain ⟨gb₂, hrun, hb₂⟩ := decodes_fdiffLoop h d (by omega) _ 0 _ (zero_add _) hfuel _ rest hb₁
    refine ⟨gb₂, ?_, hb₂⟩
    simp only [templateFdiffRow, if_neg hleft, ddFlag_fst, hgb]
    exact hrun
  have hall := decodes_forLoop (fun t => fdiffed dd d t 0) dd.templateCnt 0 hrow
  have hstart : fdiffed dd d 0 0 = d := by rw [fdiffed, filling_start, table_zero, upTo_zero]
  rw [hstart, zero_add] at hall
  refine ⟨_, _, decodes_counted Dd.templateCnt hall ht, fun t hlt => cell_upTo _ _ hlt (by omega),
    fun t hlt j hj => ?_⟩
  have hcols := h.fdiffCnts t hlt
  exact cell2_table _ _ _ (by omega) (by rw [filling_of_lt _ hlt]; exact hj) (by omega)

/-! ### Chains -/

theorem readNs_ns {v : Nat} (hv : v < n) (hn : n < 2 ^ 31) (h : gb.bits = nsBits n v ++ rest) :
    ∃ gb', getbitReadNs gb n = .ok (v, gb') ∧ gb'.bits = rest := by
  have hread := getbitReadNs_eq (Nat.zero_lt_of_lt hv) hn gb
  rw [h, takeNs_nsBits hv] at hread
  exact hread

theorem decodes_protectedBy {a : Vector Nat maxDecodeTargets} {v : Nat → Nat}
    (hj : j < maxDecodeTargets) (hv : v j < d.chainCnt) (hc : d.chainCnt < 2 ^ 31) :
    Decodes (protectedBy j) (nsBits d.chainCnt (v j))
      { d with decodeTargetProtectedBy := upTo a v j }
      { d with decodeTargetProtectedBy := upTo a v (j + 1) } := by
  intro gb rest hgb
  obtain ⟨gb₁, h₁, hb₁⟩ := readNs_ns hv hc hgb
  simp [protectedBy, h₁, put_upTo a v hj, hb₁]

theorem decodes_chainFdiff {a : Vector (Vector Nat maxChains) maxTemplates}
    (ht : t < maxTemplates) (hj : j < maxChains) (hv : v t j < 2 ^ 4) (d : Dd) :
    Decodes (templateChainFdiff t j) (numBits 4 (v t j))
      { d with templateChainFdiff := table a v (filling cols t j) }
      { d with templateChainFdiff := table a v (filling cols t (j + 1)) } := by
  intro gb rest hgb
  have hleft := enough_left hgb (show 4 ≤ _ by simp)
  simp [templateChainFdiff, hleft, hgb, takeBits_numBits hv, put2_filling a v cols ht hj]

theorem decodes_chainFdiffs (h : ValidStructure dd) (ht : d.templateCnt = dd.templateCnt)
    (hc : d.chainCnt = dd.chainCnt) : ∃ a,
    Decodes (fun s => forLoop (fun templateIndex s => forLoop (templateChainFdiff templateIndex)
      s.dd.chainCnt 0 s) s.dd.templateCnt 0 s)
      ((List.range' 0 dd.templateCnt).flatMap fun t =>
        (List.range' 0 dd.chainCnt).flatMap fun c => numBits 4 (cell2 dd.templateChainFdiff t c)) d
          { d with templateChainFdiff := a } ∧
      ∀ t < dd.templateCnt, ∀ j < dd.chainCnt, cell2 a t j = cell2 dd.templateChainFdiff t j := by
  have hcnt := h.templateCnt
  have hdt : dd.dtCnt ≤ 16 := h.dtCnt.2
  have hcols := h.chainCnt
  exact decodes_table (fun a => { d with templateChainFdiff := a }) ht hcnt.2 (show _ ≤ 32 by omega)
    (fun t ht a gb => by simp only [hc])
    (fun t ht j hj => decodes_chainFdiff (by omega) (show j < 32 by omega)
      (h.chainFdiffs t ht j hj) d)

theorem decodes_chains (h : ValidStructure dd) (ht : d.templateCnt = dd.templateCnt)
    (hdt : d.dtCnt = dd.dtCnt) : ∃ p a, Decodes templateChains (chainsBits dd) d
      { d with chainCnt := dd.chainCnt, decodeTargetProtectedBy := p, templateChainFdiff := a } ∧
      (0 < dd.chainCnt → ∀ j < dd.dtCnt, cell p j = cell dd.decodeTargetProtectedBy j) ∧
      ∀ t < dd.templateCnt, ∀ j < dd.chainCnt, cell2 a t j = cell2 dd.templateChainFdiff t j := by
  have hcnt := h.dtCnt
  have hfew : dd.dtCnt ≤ 16 := hcnt.2
  have hcols := h.chainCnt
  let d₁ : Dd := { d with chainCnt := dd.chainCnt }
  have hfirst : ∀ {g : Decoder → Step} {bs d'}, Decodes g bs d₁ d' →
      (∀ gb, (if dd.chainCnt = 0 then .ok (none, { dd := d₁, gb })
      else Checked.andThen (forLoop protectedBy d.dtCnt 0 { dd := d₁, gb }) fun s =>
        forLoop (fun templateIndex s =>
          forLoop (templateChainFdiff templateIndex) s.dd.chainCnt 0 s) s.dd.templateCnt 0 s) =
            g { dd := d₁, gb }) →
      Decodes templateChains (nsBits (dd.dtCnt + 1) dd.chainCnt ++ bs) d d' := by
    intro g bs d' hg hnext
    refine hg.after fun gb rest hgb => ?_
    rw [← hdt] at hgb
    obtain ⟨gb₁, h₁, hb₁⟩ := readNs_ns (by omega) (by omega) hgb
    refine ⟨gb₁, ?_, hb₁⟩
    rw [← hnext, templateChains, h₁]
  rw [chainsBits]
  by_cases hzero : dd.chainCnt = 0
  · rw [if_pos hzero]
    exact ⟨d.decodeTargetProtectedBy, d.templateChainFdiff,
      hfirst decodes_none fun _ => if_pos hzero, fun hpos => by omega, fun t _ j hj => by omega⟩
  rw [if_neg hzero]
  have hloop := decodes_forLoop (fun j => { d₁ with
      decodeTargetProtectedBy :=
        upTo d.decodeTargetProtectedBy (cell dd.decodeTargetProtectedBy) j }) dd.dtCnt 0
    fun j _ hj => decodes_protectedBy (by omega) (h.protectedBy (by omega) j (by omega))
      (show dd.chainCnt < 2 ^ 31 by omega)
  rw [upTo_zero, zero_add] at hloop
  obtain ⟨a, hchains, hcells⟩ := decodes_chainFdiffs (d := { d₁ with
      decodeTargetProtectedBy :=
        upTo d.decodeTargetProtectedBy (cell dd.decodeTargetProtectedBy) dd.dtCnt }) h ht rfl
  exact ⟨_, a, hfirst ((decodes_counted Dd.dtCnt hloop hdt).andThen hchains) fun _ => if_neg hzero,
    fun _ j hj => cell_upTo _ _ hj (by omega), hcells⟩

/-! ### Resolutions -/

theorem decodes_render {wa ha : Vector Nat maxSpatialIds} {w hh : Nat → Nat}
    (hi : i < maxSpatialIds) (hw : w i < 2 ^ 16) (hheight : hh i < 2 ^ 16) (d : Dd) :
    Decodes (renderResolution i) (numBits 16 (w i) ++ numBits 16 (hh i))
      { d with maxRenderWidthMinus1 := upTo wa w i, maxRenderHeightMinus1 := upTo ha hh i,
               renderCount := i }
      { d with maxRenderWidthMinus1 := upTo wa w (i + 1),
               maxRenderHeightMinus1 := upTo ha hh (i + 1), renderCount := i + 1 } := by
  intro gb rest hgb
  have hleft := enough_left hgb (show 32 ≤ _ by simp)
  simp [renderResolution, hleft, hgb, takeBits_numBits hw, takeBits_numBits hheight,
    put_upTo wa w hi, put_upTo ha hh hi]

theorem decodes_resolutions (h : ValidStructure dd) (hzero : d.renderCount = 0)
    (hmax : d.maxSpatialId = dd.maxSpatialId) : ∃ wa ha, Decodes resolutions (resolutionsBits dd) d
      { d with resolutionsPresentFlag := dd.resolutionsPresentFlag, maxRenderWidthMinus1 := wa,
               maxRenderHeightMinus1 := ha,
               renderCount := dd.renderCount } ∧
      ∀ i < dd.renderCount, cell wa i = cell dd.maxRenderWidthMinus1 i ∧
      cell ha i = cell dd.maxRenderHeightMinus1 i := by
  have hrenders := h.renders
  have hcount := h.renderCount
  let d₁ : Dd := { d with resolutionsPresentFlag := dd.resolutionsPresentFlag }
  have hflag : ∀ {g : Decoder → Step} {bs d'}, Decodes g bs d₁ d' →
      (∀ s, (if dd.resolutionsPresentFlag then renderResolutions s
      else .ok (none, s)) = g s) → Decodes resolutions ([dd.resolutionsPresentFlag] ++ bs) d
        d' := by
    intro g bs d' hg hnext
    refine hg.after fun gb rest hgb => ?_
    have hleft := enough_left hgb (le_refl 1)
    simp only [resolutions, if_neg hleft, ddFlag_fst, ddFlag_dd, hgb, ← hnext]
    exact ⟨_, rfl, by simp [hgb]⟩
  rw [resolutionsBits]
  by_cases hpresent : dd.resolutionsPresentFlag = true
  · rw [if_pos hpresent] at hcount ⊢
    let seq (i : Nat) : Dd :=
      { d₁ with
        maxRenderWidthMinus1 := upTo d.maxRenderWidthMinus1 (cell dd.maxRenderWidthMinus1) i
        maxRenderHeightMinus1 := upTo d.maxRenderHeightMinus1 (cell dd.maxRenderHeightMinus1) i
        renderCount := i }
    have hloop := decodes_forLoop seq dd.renderCount 0
      fun i _ hi => decodes_render (by omega) (h.sizes i (by omega)).1 (h.sizes i (by omega)).2 d₁
    have hstart : seq 0 = d₁ := by
      show { d₁ with maxRenderWidthMinus1 := upTo _ _ 0, maxRenderHeightMinus1 := upTo _ _ 0,
                     renderCount := 0 } = d₁
      rw [upTo_zero, upTo_zero]
      exact congrArg (fun n => { d₁ with renderCount := n }) hzero.symm
    rw [hstart, zero_add] at hloop
    exact ⟨_, _, hflag (decodes_counted (fun d => d.maxSpatialId + 1) hloop
      (by rw [hcount, ← hmax])) fun _ => if_pos hpresent,
      fun i hi => ⟨cell_upTo d.maxRenderWidthMinus1 _ hi (by omega),
        cell_upTo d.maxRenderHeightMinus1 _ hi (by omega)⟩⟩
  · rw [if_neg hpresent] at hcount ⊢
    rw [hcount, ← hzero]
    exact ⟨d.maxRenderWidthMinus1, d.maxRenderHeightMinus1,
      hflag decodes_none fun _ => if_neg hpresent, fun i hi => by omega⟩

/-! ### The descriptor -/

/-- `template_dependency_structure`, and the bitmask of all decode targets. -/
theorem decodes_structure (h : ValidStructure dd) (hzero : d.renderCount = 0) : ∃ d',
    Decodes (fun s => andThen (templateDependencyStructure s) fun s =>
        match shiftLeft 1 s.dd.dtCnt with
        | .error f => .error f
        | .ok mask =>
          .ok (none, { s with dd.activeDecodeTargetsBitmask := mask - 1 }))
            (structureBits dd) d d' ∧
      SameStructure d' dd ∧ d'.mandatory = d.mandatory ∧ d'.flags = d.flags := by
  have hdt := h.dtCnt
  have hfew : dd.dtCnt ≤ 16 := hdt.2
  let d₁ : Dd := { d with templateIdOffset := dd.templateIdOffset, dtCnt := dd.dtCnt }
  obtain ⟨sids, tids, hlayers, hids⟩ := decodes_layers h d₁
  let d₂ : Dd :=
    { d₁ with
      templateSpatialId := sids
      templateTemporalId := tids
      maxSpatialId := dd.maxSpatialId
      templateCnt := dd.templateCnt }
  obtain ⟨dtis, hdtis, hdtiCells⟩ := @decodes_dtis dd d₂ h rfl rfl
  let d₃ : Dd := { d₂ with templateDti := dtis }
  obtain ⟨fdiffs, cnts, hfdiffs, hcnts, hfdiffCells⟩ := @decodes_fdiffs dd d₃ h rfl
  let d₄ : Dd := { d₃ with templateFdiff := fdiffs, templateFdiffCnt := cnts }
  obtain ⟨prot, chains, hchains, hprot, hchainCells⟩ := @decodes_chains dd d₄ h rfl rfl
  let d₅ : Dd := { d₄ with chainCnt := dd.chainCnt, decodeTargetProtectedBy := prot,
                           templateChainFdiff := chains }
  obtain ⟨widths, heights, hres, hsizes⟩ := @decodes_resolutions dd d₅ h hzero rfl
  have hparts := hlayers.andThen (hdtis.andThen (hfdiffs.andThen (hchains.ignoreErr.andThen hres)))
  have hshift : shiftLeft 1 dd.dtCnt = .ok (2 ^ dd.dtCnt) := shiftLeft_one (by omega)
  let d₆ : Dd :=
    { d₅ with
      resolutionsPresentFlag := dd.resolutionsPresentFlag
      maxRenderWidthMinus1 := widths
      maxRenderHeightMinus1 := heights
      renderCount := dd.renderCount }
  refine ⟨{ d₆ with activeDecodeTargetsBitmask := 2 ^ dd.dtCnt - 1 }, ?_, ?_, rfl, rfl⟩
  · intro gb rest hgb
    have hleft := enough_left hgb (show 11 ≤ _ by simp [structureBits]; omega)
    rw [structureBits] at hgb
    have hsix := takeBits_numBits h.templateIdOffset
    have hfive := takeBits_numBits (show dd.dtCnt - 1 < 2 ^ 5 by omega)
    obtain ⟨gb₃, hrun, hb₃⟩ := hparts (ddF (ddF { dd := d, gb } 6).2 5).2.gb rest
      (by simp [hgb, hsix, hfive])
    refine ⟨gb₃, ?_, hb₃⟩
    have hall : templateDependencyStructure { dd := d, gb } =
        .ok (none, { dd := d₆, gb := gb₃ }) := by
      simp only [templateDependencyStructure, if_neg hleft, ddF_fst, ddF_dd, ddF_bits, hgb,
        List.append_assoc, hsix, hfive, Nat.sub_add_cancel hdt.1, Nat.reduceLeDiff]
      exact hrun
    beta_reduce
    rw [hall, andThen_none]
    have hshift' : shiftLeft 1 d₆.dtCnt = .ok (2 ^ dd.dtCnt) := hshift
    rw [hshift']
  · exact {
      bitmask := h.bitmask.symm
      templateIdOffset := rfl
      dtCnt := rfl
      templateCnt := rfl
      maxSpatialId := rfl
      layers := hids
      dtis := hdtiCells
      fdiffCnts := hcnts
      fdiffs := hfdiffCells
      chainCnt := rfl
      protectedBy := hprot
      chainFdiffs := hchainCells
      resolutionsPresentFlag := rfl
      renderCount := rfl
      sizes := hsizes }

theorem decodes_extended (h : dd.templateDependencyStructurePresentFlag = true → ValidStructure dd)
    (hactive : dd.activeDecodeTargetsPresentFlag = false) (hzero : d.renderCount = 0) : ∃ d',
    Decodes extendedDescriptorFields (extendedBits dd) d d' ∧ d'.mandatory = d.mandatory ∧
      d'.flags = dd.flags ∧
      (dd.templateDependencyStructurePresentFlag = true → SameStructure d' dd) := by
  let d₁ : Dd :=
    { d with
      templateDependencyStructurePresentFlag := dd.templateDependencyStructurePresentFlag
      activeDecodeTargetsPresentFlag := dd.activeDecodeTargetsPresentFlag
      customDtisFlag := dd.customDtisFlag
      customFdiffsFlag := dd.customFdiffsFlag
      customChainsFlag := dd.customChainsFlag }
  -- the five flags; `g` is what is done behind them
  have hflags : ∀ {g : Decoder → Step} {bs d'}, Decodes g bs d₁ d' →
      (∀ s, (if dd.templateDependencyStructurePresentFlag then
      Checked.andThen (templateDependencyStructure s) fun s =>
        match shiftLeft 1 s.dd.dtCnt with
        | .error f => .error f
        | .ok mask => .ok (none, { s with dd.activeDecodeTargetsBitmask := mask - 1 })
      else .ok (none, s)) = g s) → Decodes extendedDescriptorFields
        ([dd.templateDependencyStructurePresentFlag,
        dd.activeDecodeTargetsPresentFlag, dd.customDtisFlag, dd.customFdiffsFlag,
        dd.customChainsFlag] ++ bs) d d' := by
    intro g bs d' hg hnext
    rw [← List.append_nil bs]
    refine (hg.andThen decodes_none).after fun gb rest hgb => ?_
    have hleft := enough_left hgb (le_refl 5)
    refine ⟨(ddFlag (ddFlag (ddFlag (ddFlag (ddFlag { dd := d, gb }).2).2).2).2).2.gb,
      ?_, by simp [hgb]⟩
    simp only [extendedDescriptorFields, hleft, ↓reduceIte, ddFlag_fst, hgb, hactive,
      List.cons_append, List.nil_append, List.headD_cons, ddFlag_dd, ddFlag_bits, List.tail_cons,
      Bool.false_eq_true]
    exact congrArg (Checked.andThen · _) (hactive ▸ hnext _)
  rw [extendedBits]
  by_cases hpresent : dd.templateDependencyStructurePresentFlag = true
  · obtain ⟨d', hstructure, hsame, hmandatory, hfl⟩ := @decodes_structure dd d₁ (h hpresent) hzero
    rw [if_pos hpresent]
    exact ⟨d', hflags hstructure fun _ => if_pos hpresent, hmandatory, hfl, fun _ => hsame⟩
  · rw [if_neg hpresent]
    exact ⟨d₁, hflags decodes_none fun _ => if_neg hpresent, rfl, rfl, fun h => absurd h hpresent⟩

/-- Bytes that start with the bits of a descriptor are decoded as that descriptor. -/
theorem ddDecode_of_bits (h : Valid dd)
    (hactive : dd.ext = true → dd.activeDecodeTargetsPresentFlag = false) {buf : Bytes}
    {pad : List Bool} (hbits : bitsOfBytes buf = descriptorBits dd ++ pad)
    (hlen : buf.length = ((descriptorBits dd).length + 7) / 8) :
    ∃ s, ddDecode buf = .ok (none, s) ∧ Same s.dd dd := by
  rw [← getbitInit_bits, descriptorBits, List.append_assoc] at hbits
  let d : Dd :=
    { Dd.zero with
      startOfFrame := dd.startOfFrame
      endOfFrame := dd.endOfFrame
      frameDependencyTemplateId := dd.frameDependencyTemplateId
      frameNumber := dd.frameNumber }
  obtain ⟨gb₁, hrun, hb₁⟩ := decodes_mandatory h Dd.zero _ _ hbits
  have hmand : (mandatoryBits dd).length = 24 := by simp [mandatoryBits]
  rw [descriptorBits, List.length_append, hmand] at hlen
  rw [ddDecode, hrun, andThen_none]
  cases hext : dd.ext with
  | false =>
    rw [hext, if_neg Bool.false_ne_true, List.length_nil] at hlen
    rw [if_neg (by omega)]
    exact ⟨_, rfl, rfl, hext.symm, fun h => absurd (hext.symm.trans h) Bool.false_ne_true,
      fun h => absurd (hext.symm.trans h) Bool.false_ne_true⟩
  | true =>
    rw [hext, if_pos rfl] at hlen hb₁
    obtain ⟨d', hextended, hmandatory, hflags, hsame⟩ :=
      @decodes_extended dd d (h.structured hext) (hactive hext) rfl
    obtain ⟨gb₂, hrun₂, -⟩ := hextended gb₁ pad hb₁
    have hfive : 5 ≤ (extendedBits dd).length := by simp [extendedBits]
    rw [if_pos (by omega), hrun₂, andThen_none]
    refine ⟨_, rfl, hmandatory, hext.symm, fun _ => hflags, fun _ hpresent => ?_⟩
    exact { hsame hpresent with }

end

/-- Active decode targets are not supported. -/
theorem active_of_encoded {fresh : Nat → Nat → UInt8} {dd : Dd} {pb pb' : Putbit}
    (h : Enc.extendedDescriptorFields fresh dd pb = .ok (none, pb')) :
    dd.activeDecodeTargetsPresentFlag = false := by
  obtain ⟨_, -, h⟩ := andThen_eq_none h
  obtain ⟨_, -, h⟩ := andThen_eq_none h
  obtain ⟨_, -, h⟩ := andThen_eq_none h
  obtain ⟨_, -, h⟩ := andThen_eq_none h
  obtain ⟨_, -, h⟩ := andThen_eq_none h
  obtain ⟨_, -, h⟩ := andThen_eq_none h
  cases hactive : dd.activeDecodeTargetsPresentFlag with
  | false => rfl
  | true =>
    simp_all

/-- A descriptor is encoded unless it has active decode targets, and the bytes that are
encoded for a descriptor are decoded as this descriptor. -/
theorem dd_read_back (fresh : Nat → Nat → UInt8) (dd : Dd) (h : Valid dd) (buf : Bytes)
    (end_ : Nat) :
    (0 < buf.length → (dd.ext = true → dd.activeDecodeTargetsPresentFlag = false) →
      ∃ pb, Enc.ddEncode fresh dd buf end_ = .ok (none, pb)) ∧
    ∀ pb, Enc.ddEncode fresh dd buf end_ = .ok (none, pb) → ∃ s, ddDecode pb.bytes = .ok (none, s) ∧
    Same s.dd dd := by
  have hwrites : 0 < buf.length → (dd.ext = true → dd.activeDecodeTargetsPresentFlag = false) →
      ∃ pb, Enc.ddEncode fresh dd buf end_ = .ok (none, pb) ∧ Wrote (descriptorBits dd) pb :=
      fun hbuf hactive =>
    writes_descriptor h hactive [] _ (wrote_init hbuf end_)
  refine ⟨fun hbuf hactive => ?_, fun pb hpb => ?_⟩
  · obtain ⟨pb, hpb, -⟩ := hwrites hbuf hactive
    exact ⟨pb, hpb⟩
  have hbuf : 0 < buf.length := by
    cases buf with
    | nil => cases hpb
    | cons x buf => exact Nat.succ_pos _
  have hactive : dd.ext = true → dd.activeDecodeTargetsPresentFlag = false := by
    intro hext
    obtain ⟨pb₁, -, hpb₁⟩ := andThen_eq_none hpb
    rw [if_pos hext] at hpb₁
    exact active_of_encoded hpb₁
  obtain ⟨pb', hpb', hwrote⟩ := hwrites hbuf hactive
  cases hpb'.symm.trans hpb
  have hne : descriptorBits dd ≠ [] := List.cons_ne_nil _ _
  obtain ⟨hlen, pad, hbits⟩ := hwrote.bytes hne
  exact ddDecode_of_bits h hactive hbits hlen

/-- Two temporal layers with one decode target and one chain. -/
def twoLayers : Dd :=
  { Dd.zero with
    startOfFrame := true
    frameNumber := 7
    ext := true
    templateDependencyStructurePresentFlag := true
    activeDecodeTargetsBitmask := 1
    dtCnt := 1
    templateCnt := 2
    templateTemporalId := #v[0, 1, 0, 0, 0, 0, 0, 0]
    templateDti := Vector.replicate _ (Vector.replicate _ 2)
    templateFdiff := Vector.replicate _ (Vector.replicate _ 3)
    templateFdiffCnt := #v[0, 1, 0, 0, 0, 0, 0, 0]
    chainCnt := 1 }

theorem twoLayers_valid : Valid twoLayers where
  templateId := by decide
  frameNumber := by decide
  structured _ _ := {
    templateIdOffset := by decide
    dtCnt := by decide
    templateCnt := by decide
    firstLayer := by decide
    layers := by
      intro i hi
      have hzero : i = 0 := by
        have hcnt : i + 1 < 2 := hi
        omega
      subst hzero
      unfold NextLayer
      decide
    maxSpatialId := by decide
    dtis := by decide
    fdiffCnts := by decide
    fdiffs := by decide
    chainCnt := by decide
    protectedBy := by decide
    chainFdiffs := by decide
    renderCount := by decide
    renders := by decide
    sizes := by decide
    bitmask := by decide }

theorem twoLayers_read_back :
    ∃ pb s, Enc.ddEncode (fun _ _ => 0) twoLayers [0] 0 = .ok (none, pb) ∧ ddDecode pb.bytes =
      .ok (none, s) ∧ Same s.dd twoLayers :=
  have h := dd_read_back (fun _ _ => 0) twoLayers twoLayers_valid [0] 0
  have ⟨pb, hpb⟩ := h.1 (by decide) (fun _ => rfl)
  have ⟨s, hs⟩ := h.2 pb hpb
  ⟨pb, s, hpb, hs⟩

end LibRe.DD
