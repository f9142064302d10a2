/-
LibRe.Dd.Dd — the decoder of the AV1 dependency descriptor (`src/dd/dd.c`,
`include/re_dd.h`).

The functions work on the descriptor and the bit reader. Every store into one of
the fixed arrays and every shift is checked, and is a `Fault` where C leaves it
undefined. The counters of the source are 8-bit numbers; none of them gets
beyond 33 before a store or the end of the input stops it, so they are natural
numbers here. `MaxTemporalId` is written and never read in the source, and
`dd_print` only prints; both are left out, as are the NULL checks.
-/
import LibRe.H264.Getbit

namespace LibRe.DD

open Checked

/-! ## The descriptor -/

/-- `DD_MAX_SPATIAL_IDS`. -/
abbrev maxSpatialIds : Nat := 4

/-- `DD_MAX_TEMPLATES`. -/
abbrev maxTemplates : Nat := 8

/-- `DD_MAX_FDIFFS`. -/
abbrev maxFdiffs : Nat := 16

/-- `DD_MAX_DECODE_TARGETS`. -/
abbrev maxDecodeTargets : Nat := 16

/-- `DD_MAX_CHAINS`. -/
abbrev maxChains : Nat := 32

/-- `enum dd_next_layer_idc`: the values that are compared with. -/
def nextTemporalLayer : Nat := 1

@[inherit_doc nextTemporalLayer] def nextSpatialLayer : Nat := 2

@[inherit_doc nextTemporalLayer] def noMoreTemplates : Nat := 3

/-- `struct dd`. -/
structure Dd where
  startOfFrame : Bool
  endOfFrame : Bool
  frameDependencyTemplateId : Nat
  frameNumber : Nat
  ext : Bool
  templateDependencyStructurePresentFlag : Bool
  activeDecodeTargetsPresentFlag : Bool
  customDtisFlag : Bool
  customFdiffsFlag : Bool
  customChainsFlag : Bool
  activeDecodeTargetsBitmask : Nat
  templateIdOffset : Nat
  dtCnt : Nat
  templateCnt : Nat
  maxSpatialId : Nat
  templateSpatialId : Vector Nat maxTemplates
  templateTemporalId : Vector Nat maxTemplates
  resolutionsPresentFlag : Bool
  maxRenderWidthMinus1 : Vector Nat maxSpatialIds
  maxRenderHeightMinus1 : Vector Nat maxSpatialIds
  renderCount : Nat
  templateDti : Vector (Vector Nat maxDecodeTargets) maxTemplates
  templateFdiff : Vector (Vector Nat maxFdiffs) maxTemplates
  templateFdiffCnt : Vector Nat maxTemplates
  decodeTargetProtectedBy : Vector Nat maxDecodeTargets
  templateChainFdiff : Vector (Vector Nat maxChains) maxTemplates
  chainCnt : Nat
  deriving DecidableEq, Repr

/-- `memset(dd, 0, sizeof(*dd))`. -/
def Dd.zero : Dd where
  startOfFrame := false
  endOfFrame := false
  frameDependencyTemplateId := 0
  frameNumber := 0
  ext := false
  templateDependencyStructurePresentFlag := false
  activeDecodeTargetsPresentFlag := false
  customDtisFlag := false
  customFdiffsFlag := false
  customChainsFlag := false
  activeDecodeTargetsBitmask := 0
  templateIdOffset := 0
  dtCnt := 0
  templateCnt := 0
  maxSpatialId := 0
  templateSpatialId := Vector.replicate _ 0
  templateTemporalId := Vector.replicate _ 0
  resolutionsPresentFlag := false
  maxRenderWidthMinus1 := Vector.replicate _ 0
  maxRenderHeightMinus1 := Vector.replicate _ 0
  renderCount := 0
  templateDti := Vector.replicate _ (Vector.replicate _ 0)
  templateFdiff := Vector.replicate _ (Vector.replicate _ 0)
  templateFdiffCnt := Vector.replicate _ 0
  decodeTargetProtectedBy := Vector.replicate _ 0
  templateChainFdiff := Vector.replicate _ (Vector.replicate _ 0)
  chainCnt := 0

/-- What the functions of the decoder work on. -/
structure Decoder where
  dd : Dd
  gb : Getbit
  deriving DecidableEq, Repr

abbrev Step := Run Errno Decoder

variable (templateIndex : Nat) (s : Decoder)

/-- `dd_f`: a field of `n` bits. -/
def ddF (n : Nat) : Nat × Decoder :=
  let (v, gb) := getBits s.gb n
  (v, { s with gb })

/-- A flag. -/
def ddFlag : Bool × Decoder :=
  let (v, s) := ddF s 1
  (v == 1, s)

/-! ## The parts of a descriptor -/

/-- `mandatory_descriptor_fields`. -/
def mandatoryDescriptorFields : Step :=
  if getbitGetLeft s.gb < 24 then .ok (some .EBADMSG, s)
  else
    let (startOfFrame, s) := ddFlag s
    let (endOfFrame, s) := ddFlag s
    let (frameDependencyTemplateId, s) := ddF s 6
    let (frameNumber, s) := ddF s 16
    .ok (none, { s with dd := { s.dd with
      startOfFrame
      endOfFrame
      frameDependencyTemplateId
      frameNumber } })

/-- The loop of `template_layers`. There is room for `n` more templates: that
there is none is the test `TemplateCnt >= DD_MAX_TEMPLATES`. -/
def templateLayersLoop : (n temporalId spatialId templateCnt : Nat) → Decoder → Step
  | 0, _, _, _, s => .ok (some .EOVERFLOW, s)
  | n + 1, temporalId, spatialId, templateCnt, s =>
    match put s.dd.templateSpatialId templateCnt spatialId,
        put s.dd.templateTemporalId templateCnt temporalId with
    | .error f, _ => .error f
    | .ok _, .error f => .error f
    | .ok spatialIds, .ok temporalIds =>
      let s := { s with dd := { s.dd with
        templateSpatialId := spatialIds, templateTemporalId := temporalIds } }
      if getbitGetLeft s.gb < 2 then .ok (some .EBADMSG, s)
      else
        let (nextLayerIdc, s) := ddF s 2
        if nextLayerIdc = noMoreTemplates then
          .ok (none, { s with dd := { s.dd with
            maxSpatialId := spatialId, templateCnt := templateCnt + 1 } })
        else if nextLayerIdc = nextTemporalLayer then
          templateLayersLoop n (temporalId + 1) spatialId (templateCnt + 1) s
        else if nextLayerIdc = nextSpatialLayer then
          templateLayersLoop n 0 (spatialId + 1) (templateCnt + 1) s
        else templateLayersLoop n temporalId spatialId (templateCnt + 1) s

/-- `template_layers`. -/
def templateLayers : Step := templateLayersLoop maxTemplates 0 0 0 s

/-- One decode target indication. -/
def templateDti (templateIndex dtIndex : Nat) (s : Decoder) : Step :=
  if getbitGetLeft s.gb < 2 then .ok (some .EBADMSG, s)
  else
    let (v, s) := ddF s 2
    match put2 s.dd.templateDti templateIndex dtIndex v with
    | .error f => .error f
    | .ok a => .ok (none, { s with dd.templateDti := a })

/-- `template_dtis`. -/
def templateDtis : Step :=
  forLoop (fun templateIndex s =>
    if templateIndex ≥ maxTemplates then .ok (some .EOVERFLOW, s)
    else forLoop (templateDti templateIndex) s.dd.dtCnt 0 s) s.dd.templateCnt 0 s

/-- The inner loop of `template_fdiffs`, and the store behind it. Every round
takes five bits of the `n` that are left at most. -/
def templateFdiffLoop (templateIndex : Nat) : (n fdiffCnt : Nat) → (fdiffFollowsFlag : Bool) →
    Decoder → Step
  | _, fdiffCnt, false, s =>
    match put s.dd.templateFdiffCnt templateIndex fdiffCnt with
    | .error f => .error f
    | .ok a => .ok (none, { s with dd.templateFdiffCnt := a })
  | 0, _, true, s => .ok (some .EBADMSG, s)
  | n + 1, fdiffCnt, true, s =>
    if getbitGetLeft s.gb < 5 then .ok (some .EBADMSG, s)
    else
      let (fdiffMinusOne, s) := ddF s 4
      match put2 s.dd.templateFdiff templateIndex fdiffCnt (fdiffMinusOne + 1) with
      | .error f => .error f
      | .ok a =>
        let (fdiffFollowsFlag, s) := ddFlag { s with dd.templateFdiff := a }
        templateFdiffLoop templateIndex n (fdiffCnt + 1) fdiffFollowsFlag s

/-- One round of `template_fdiffs`. -/
def templateFdiffRow : Step :=
  if getbitGetLeft s.gb < 1 then .ok (some .EBADMSG, s)
  else
    let (fdiffFollowsFlag, s) := ddFlag s
    templateFdiffLoop templateIndex (getbitGetLeft s.gb) 0 fdiffFollowsFlag s

/-- `template_fdiffs`. -/
def templateFdiffs : Step := forLoop templateFdiffRow s.dd.templateCnt 0 s

/-- The chain that protects a decode target. -/
def protectedBy (dtIndex : Nat) (s : Decoder) : Step :=
  match getbitReadNs s.gb s.dd.chainCnt with
  | .error f => .error f
  | .ok (v, gb) =>
    match put s.dd.decodeTargetProtectedBy dtIndex v with
    | .error f => .error f
    | .ok a => .ok (none, { dd := { s.dd with decodeTargetProtectedBy := a }, gb })

/-- One frame difference of a chain. -/
def templateChainFdiff (templateIndex chainIndex : Nat) (s : Decoder) : Step :=
  if getbitGetLeft s.gb < 4 then .ok (some .EBADMSG, s)
  else
    let (v, s) := ddF s 4
    match put2 s.dd.templateChainFdiff templateIndex chainIndex v with
    | .error f => .error f
    | .ok a => .ok (none, { s with dd.templateChainFdiff := a })

/-- `template_chains`. -/
def templateChains : Step :=
  match getbitReadNs s.gb (s.dd.dtCnt + 1) with
  | .error f => .error f
  | .ok (v, gb) =>
    let s : Decoder := { dd := { s.dd with chainCnt := v }, gb }
    if s.dd.chainCnt = 0 then .ok (none, s)
    else
      andThen (forLoop protectedBy s.dd.dtCnt 0 s) fun s =>
        forLoop (fun templateIndex s => forLoop (templateChainFdiff templateIndex)
          s.dd.chainCnt 0 s)
          s.dd.templateCnt 0 s

/-- One round of `render_resolutions`. -/
def renderResolution (spatialId : Nat) (s : Decoder) : Step :=
  if getbitGetLeft s.gb < 32 then .ok (some .EBADMSG, s)
  else
    let (width, s) := ddF s 16
    match put s.dd.maxRenderWidthMinus1 spatialId width with
    | .error f => .error f
    | .ok widths =>
      let (height, s) := ddF { s with dd.maxRenderWidthMinus1 := widths } 16
      match put s.dd.maxRenderHeightMinus1 spatialId height with
      | .error f => .error f
      | .ok heights =>
        .ok (none, { s with dd := { s.dd with
          maxRenderHeightMinus1 := heights, renderCount := s.dd.renderCount + 1 } })

/-- `render_resolutions`. -/
def renderResolutions : Step := forLoop renderResolution (s.dd.maxSpatialId + 1) 0 s

/-- A call whose return value is not looked at. -/
def ignoreErr (r : Step) : Step :=
  match r with
  | .error f => .error f
  | .ok (_, s) => .ok (none, s)

/-- What follows the templates in `template_dependency_structure`. -/
def resolutions : Step :=
  if getbitGetLeft s.gb < 1 then .ok (some .EBADMSG, s)
  else
    let (flag, s) := ddFlag s
    let s := { s with dd.resolutionsPresentFlag := flag }
    if flag then renderResolutions s else .ok (none, s)

/-- `template_dependency_structure`. -/
def templateDependencyStructure : Step :=
  if getbitGetLeft s.gb < 11 then .ok (some .EBADMSG, s)
  else
    let (templateIdOffset, s) := ddF s 6
    let (dtCntMinusOne, s) := ddF s 5
    let s := { s with dd := { s.dd with templateIdOffset, dtCnt := dtCntMinusOne + 1 } }
    andThen (templateLayers s) fun s =>
    andThen (templateDtis s) fun s =>
    andThen (templateFdiffs s) fun s =>
    andThen (ignoreErr (templateChains s)) resolutions

/-- `extended_descriptor_fields`. -/
def extendedDescriptorFields : Step :=
  if getbitGetLeft s.gb < 5 then .ok (some .EBADMSG, s)
  else
    let (structurePresent, s) := ddFlag s
    let (targetsPresent, s) := ddFlag s
    let (customDtis, s) := ddFlag s
    let (customFdiffs, s) := ddFlag s
    let (customChains, s) := ddFlag s
    let s := { s with dd := { s.dd with
      templateDependencyStructurePresentFlag := structurePresent
      activeDecodeTargetsPresentFlag := targetsPresent
      customDtisFlag := customDtis
      customFdiffsFlag := customFdiffs
      customChainsFlag := customChains } }
    andThen
      (if structurePresent then
        andThen (templateDependencyStructure s) fun s =>
          match shiftLeft 1 s.dd.dtCnt with
          | .error f => .error f
          | .ok mask => .ok (none, { s with dd.activeDecodeTargetsBitmask := mask - 1 })
       else .ok (none, s)) fun s =>
    if targetsPresent then
      let (mask, s) := ddF s s.dd.dtCnt
      .ok (none, { s with dd.activeDecodeTargetsBitmask := mask })
    else .ok (none, s)

/-- `no_extended_descriptor_fields`. -/
def noExtendedDescriptorFields : Decoder :=
  { s with dd := { s.dd with customDtisFlag := false, customFdiffsFlag := false,
                             customChainsFlag := false } }

/-- `dd_decode`. -/
def ddDecode (buf : Bytes) : Step :=
  andThen (mandatoryDescriptorFields { dd := Dd.zero, gb := getbitInit buf }) fun s =>
    if buf.length > 3 then
      andThen (extendedDescriptorFields s) fun s => .ok (none, { s with dd.ext := true })
    else .ok (none, noExtendedDescriptorFields s)

end LibRe.DD
