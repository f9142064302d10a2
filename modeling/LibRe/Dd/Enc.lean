/-
LibRe.Dd.Enc — the encoder of the AV1 dependency descriptor (`src/dd/dd_enc.c`).

Every load from one of the fixed arrays of the descriptor is checked, as the stores of the
decoder are. Since writing a bit has no error here, the calls whose return values are
collected with `|=` or not looked at are made one after the other.
-/
import LibRe.Dd.Dd
import LibRe.Dd.Putbit

namespace LibRe.DD.Enc

open Checked

/-- `DD_SAME_LAYER` -/
def sameLayer : Nat := 0

-- the bytes that memory of the given size gets when it is doubled
variable (fresh : Nat → Nat → UInt8) (dd : Dd)

variable (pb : Putbit)

/-- `mandatory_descriptor_fields` -/
def mandatoryDescriptorFields : Run Errno Putbit :=
  andThen (putbitOne fresh dd.startOfFrame pb) fun pb =>
  andThen (putbitOne fresh dd.endOfFrame pb) fun pb =>
  andThen (putbitWrite fresh 6 dd.frameDependencyTemplateId pb) fun pb =>
  putbitWrite fresh 16 dd.frameNumber pb

/-- What `next_layer` makes of the ids of two templates. -/
def nextLayerIdc (spatialPrev temporalPrev spatialNext temporalNext : Nat) : Nat :=
  if spatialNext = spatialPrev ∧ temporalNext = temporalPrev then sameLayer
  else if spatialNext = spatialPrev ∧ temporalNext = temporalPrev + 1 then nextTemporalLayer
  else if spatialNext = spatialPrev + 1 ∧ temporalNext = 0 then nextSpatialLayer
  else noMoreTemplates

/-- `next_layer`, and what is done with it. -/
def nextLayer (prev next : Nat) (use : Nat → Run Errno Putbit) : Run Errno Putbit :=
  fetch dd.templateSpatialId next fun spatialNext =>
  fetch dd.templateSpatialId prev fun spatialPrev =>
  fetch dd.templateTemporalId next fun temporalNext =>
  fetch dd.templateTemporalId prev fun temporalPrev =>
  use (nextLayerIdc spatialPrev temporalPrev spatialNext temporalNext)

/-- `template_layers` -/
def templateLayers : Run Errno Putbit :=
  andThen (forLoop (fun i pb =>
      nextLayer dd (i - 1) i fun nextLayerIdc =>
        if nextLayerIdc = noMoreTemplates then .ok (some .EBADMSG, pb)
          else putbitWrite fresh 2 nextLayerIdc pb)
      (dd.templateCnt - 1) 1 pb)
    (putbitWrite fresh 2 noMoreTemplates)

/-- `template_dtis` -/
def templateDtis : Run Errno Putbit :=
  forLoop (fun templateIndex =>
    forLoop (fun dtIndex pb => fetch2 dd.templateDti templateIndex dtIndex fun v =>
      putbitWrite fresh 2 v pb) dd.dtCnt 0)
    dd.templateCnt 0 pb

/-- One round of `template_fdiffs`. -/
def templateFdiffRow (templateIndex : Nat) (pb : Putbit) : Run Errno Putbit :=
  fetch dd.templateFdiffCnt templateIndex fun fdiffCnt =>
    andThen (forLoop (fun j pb =>
        fetch2 dd.templateFdiff templateIndex j fun fdiff =>
          andThen (putbitWrite fresh 1 1 pb)
            (putbitWrite fresh 4 ((fdiff + (2 ^ 32 - 1)) % 2 ^ 32)))
        fdiffCnt 0 pb)
      (putbitWrite fresh 1 0)

/-- `template_fdiffs` -/
def templateFdiffs : Run Errno Putbit := forLoop (templateFdiffRow fresh dd) dd.templateCnt 0 pb

/-- `template_chains` -/
def templateChains : Run Errno Putbit :=
  andThen (putbitWriteNs fresh (dd.dtCnt + 1) dd.chainCnt pb) fun pb =>
  if dd.chainCnt = 0 then .ok (none, pb)
  else
    andThen (forLoop (fun dtIndex pb => fetch dd.decodeTargetProtectedBy dtIndex fun val =>
        putbitWriteNs fresh dd.chainCnt val pb)
        dd.dtCnt 0 pb)
      (forLoop (fun templateIndex =>
        forLoop (fun chainIndex pb => fetch2 dd.templateChainFdiff templateIndex chainIndex
          fun val => putbitWrite fresh 4 val pb)
          dd.chainCnt 0)
        dd.templateCnt 0)

/-- `render_resolutions` -/
def renderResolutions : Run Errno Putbit :=
  forLoop (fun i pb =>
    andThen (fetch dd.maxRenderWidthMinus1 i fun width => putbitWrite fresh 16 width pb) fun pb =>
      fetch dd.maxRenderHeightMinus1 i fun height => putbitWrite fresh 16 height pb)
    dd.renderCount 0 pb

/-- `template_dependency_structure` -/
def templateDependencyStructure : Run Errno Putbit :=
  andThen (putbitWrite fresh 6 dd.templateIdOffset pb) fun pb =>
  andThen (putbitWrite fresh 5 ((dd.dtCnt + 255) % 256) pb) fun pb =>
  andThen (templateLayers fresh dd pb) fun pb =>
  andThen (templateDtis fresh dd pb) fun pb =>
  andThen (templateFdiffs fresh dd pb) fun pb =>
  andThen (templateChains fresh dd pb) fun pb =>
  andThen (putbitOne fresh dd.resolutionsPresentFlag pb) fun pb =>
  if dd.resolutionsPresentFlag then renderResolutions fresh dd pb else .ok (none, pb)

/-- `extended_descriptor_fields` -/
def extendedDescriptorFields : Run Errno Putbit :=
  andThen (putbitOne fresh dd.templateDependencyStructurePresentFlag pb) fun pb =>
  andThen (putbitOne fresh dd.activeDecodeTargetsPresentFlag pb) fun pb =>
  andThen (putbitOne fresh dd.customDtisFlag pb) fun pb =>
  andThen (putbitOne fresh dd.customFdiffsFlag pb) fun pb =>
  andThen (putbitOne fresh dd.customChainsFlag pb) fun pb =>
  andThen
    (if dd.templateDependencyStructurePresentFlag then templateDependencyStructure fresh dd pb
      else .ok (none, pb)) fun pb =>
  if dd.activeDecodeTargetsPresentFlag then .ok (some .ENOTSUP, pb) else .ok (none, pb)

/-- `dd_encode`, into a buffer with the given memory and end. -/
def ddEncode (buf : Bytes) (end_ : Nat) : Run Errno Putbit :=
  andThen (mandatoryDescriptorFields fresh dd (putbitInit buf end_)) fun pb =>
    if dd.ext then extendedDescriptorFields fresh dd pb else .ok (none, pb)

end LibRe.DD.Enc
