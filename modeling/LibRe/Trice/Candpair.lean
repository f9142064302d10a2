/-
LibRe.Trice.Candpair — candidates, candidate pairs and the two lists they are on.

Objects have an identity, as pointers give it. The fields of a local candidate
never change once it can be paired, so a pair holds the candidate itself; a remote
candidate can be upgraded, so a pair holds its place in the list of remote
candidates, which only grows.
-/
import LibRe.List.Sort
import LibRe.Mbuf.Mbuf
import LibRe.Sa.Sa
import LibRe.Trice.Role

namespace LibRe.Trice

open LibRe.Lists

/-! ## Candidates -/

/-- The transport protocol of a candidate. -/
inductive Proto where
  | udp
  | tcp
  | other (number : Nat)
  deriving DecidableEq, Repr

/-- `enum ice_cand_type`. -/
inductive CandType where
  | host
  | srflx
  | prflx
  | relay
  deriving DecidableEq, Repr

/-- `enum ice_tcptype`. -/
inductive TcpType where
  | active
  | passive
  | so
  deriving DecidableEq, Repr

/-- `ice_tcptype_reverse`. -/
def tcptypeReverse : TcpType → TcpType
  | .so => .so
  | .active => .passive
  | .passive => .active

/-- `struct ice_cand_attr`. -/
structure CandAttr where
  foundation : Bytes
  compid : UInt32
  proto : Proto
  prio : UInt32
  addr : Sa
  type : CandType
  tcptype : TcpType
  deriving DecidableEq, Repr

/-- `struct ice_lcand`. -/
structure Lcand where
  id : Nat
  attr : CandAttr
  baseAddr : Sa
  us : Option Nat
  deriving DecidableEq, Repr

/-- `struct ice_rcand`. -/
structure Rcand where
  attr : CandAttr
  deriving DecidableEq, Repr

/-- `ice_cand_calc_prio`. -/
def iceCandCalcPrio (type : CandType) (lpref : UInt16) (compid : UInt32) : UInt32 :=
  let typePrio : UInt32 := match type with
    | .host => 126
    | .srflx => 100
    | .prflx => 110
    | .relay => 0
  (typePrio <<< (24 : UInt32)) ||| (lpref.toUInt32 <<< (8 : UInt32)) ||| (256 - compid)

/-! ## Pairs -/

/-- `enum ice_candpair_state`. -/
inductive PairState where
  | frozen
  | waiting
  | inProgress
  | succeeded
  | failed
  deriving DecidableEq, Repr

/-- `struct ice_candpair`. -/
structure CandPair where
  id : Nat
  lcand : Lcand
  rcand : Nat
  state : PairState
  pprio : UInt64
  valid : Bool
  nominated : Bool
  estab : Bool
  trigged : Bool
  err : Option Errno
  scode : UInt16
  deriving DecidableEq, Repr

/-- `ice_calc_pair_prio`. -/
def iceCalcPairPrio (g d : UInt32) : UInt64 :=
  let m := (if g < d then g else d).toUInt64
  let x := (if g > d then g else d).toUInt64
  (m <<< (32 : UInt64)) + 2 * x + (if g > d then 1 else 0)

variable (rcandl : List Rcand) (controlling : Bool)

/-- The value `candpair_set_pprio` stores. -/
def candpairPprio (lprio rprio : UInt32) : UInt64 :=
  if controlling then iceCalcPairPrio lprio rprio else iceCalcPairPrio rprio lprio

/-- The priority of the remote candidate at a place. -/
def rcandPrio (i : Nat) : UInt32 :=
  match rcandl[i]? with
  | some rcand => rcand.attr.prio
  | none => 0

/-- `candpair_set_pprio`. -/
def candpairSetPprio (cp : CandPair) : CandPair :=
  { cp with pprio := candpairPprio controlling cp.lcand.attr.prio (rcandPrio rcandl cp.rcand) }

/-- `sort_handler`. -/
def sortHandler (cp1 cp2 : CandPair) : Bool := decide (cp1.pprio ≥ cp2.pprio)

/-- `list_add_sorted`. -/
def listAddSorted (list : List CandPair) (cp : CandPair) : List CandPair :=
  insertBehind (fun cp0 => decide (cp.pprio < cp0.pprio)) cp list

/-- `trice_candpair_prio_order`. -/
def candpairPrioOrder (lst : List CandPair) : List CandPair :=
  let lst := lst.map (candpairSetPprio rcandl controlling)
  (listSort sortHandler lst).getD lst

/-- `trice_candpair_find`, with both candidates given. -/
def candpairFind (lst : List CandPair) (lcand rcand : Nat) : Option CandPair :=
  lst.find? fun cp => cp.lcand.id == lcand && cp.rcand == rcand

/-- `trice_candpair_find_state`. -/
def candpairFindState (lst : List CandPair) (state : PairState) : Option CandPair :=
  lst.find? fun cp => cp.state == state

/-- `tcptype_match`. -/
def tcptypeMatch : TcpType → TcpType → Bool
  | .so, .so => true
  | .active, .passive => true
  | .passive, .active => true
  | _, _ => false

/-- `cand_srflx_addr`. -/
def candSrflxAddr (cand : Lcand) : Sa :=
  if cand.attr.type = .srflx then cand.baseAddr else cand.attr.addr

/-- The test of `find_same_base_list`. -/
def sameBase (lcand : Lcand) (rcand : Rcand) (cp : CandPair) : Bool :=
  cp.lcand.attr.compid == lcand.attr.compid && cp.lcand.attr.proto == lcand.attr.proto &&
    saCmp (candSrflxAddr cp.lcand) (candSrflxAddr lcand) saAll &&
    match rcandl[cp.rcand]? with
    | some r => saCmp r.attr.addr rcand.attr.addr saAll
    | none => false

/-- `trice_candpair_set_state`. -/
def candpairSetState (state : PairState) (cp : CandPair) : CandPair := { cp with state }

/-- `trice_candpair_failed`. -/
def candpairFailed (err : Option Errno) (scode : UInt16) (cp : CandPair) : CandPair :=
  { cp with err, scode, valid := false, state := .failed }

/-! The assignments to single fields. -/

def setFrozen (cp : CandPair) : CandPair := { cp with state := .frozen }
def setNominated (cp : CandPair) : CandPair := { cp with nominated := true }
def setEstab (cp : CandPair) : CandPair := { cp with estab := true }
def setTrigged (cp : CandPair) : CandPair := { cp with trigged := true }

/-- `pair->state < ICE_CANDPAIR_INPROGRESS`. -/
def PairState.beforeInProgress : PairState → Bool
  | .frozen => true
  | .waiting => true
  | _ => false

/-! ## The order of a list -/

/-- Highest priority first. -/
def Descending (l : List CandPair) : Prop := l.Pairwise fun cp cp' => cp'.pprio ≤ cp.pprio

variable {l : List CandPair} {cp : CandPair}

theorem mem_listAddSorted {x : CandPair} : x ∈ listAddSorted l cp ↔ x = cp ∨ x ∈ l :=
  mem_insertBehind

theorem Descending.listAddSorted (h : Descending l) (cp : CandPair) :
    Descending (listAddSorted l cp) := by
  refine insertBehind_pairwise (R := fun a b : CandPair => b.pprio ≤ a.pprio)
    (fun a b c hab hbc => UInt64.le_trans hbc hab) h ?_ ?_
  · intro y _ hy
    exact UInt64.le_of_lt (by simpa using hy)
  · simp

/-- `trice_candpair_prio_order` sorts the pairs with their new priorities. -/
theorem candpairPrioOrder_spec (lst : List CandPair) :
    (candpairPrioOrder rcandl controlling lst).Perm
      (lst.map (candpairSetPprio rcandl controlling)) ∧
      Descending (candpairPrioOrder rcandl controlling lst) := by
  have horder : TotalPreorder sortHandler := by
    constructor
    · intro x y h
      simp only [sortHandler, decide_eq_false_iff_not, ge_iff_le, UInt64.not_le] at h
      simpa [sortHandler] using UInt64.le_of_lt h
    · intro x y z hxy hyz
      simp only [sortHandler, decide_eq_true_eq, ge_iff_le] at hxy hyz ⊢
      exact UInt64.le_trans hyz hxy
  obtain ⟨l, hsort, hperm, hsorted, -⟩ :=
    listSort_sorts horder (lst.map (candpairSetPprio rcandl controlling))
  have heq : candpairPrioOrder rcandl controlling lst = l := by
    simp only [candpairPrioOrder, hsort, Option.getD_some]
  rw [heq]
  exact ⟨hperm, hsorted.imp fun h => by simpa [sortHandler] using h⟩

variable {lst : List CandPair}

theorem mem_candpairPrioOrder {rcandl : List Rcand} {controlling : Bool} {cp' : CandPair}
    (h : cp' ∈ candpairPrioOrder rcandl controlling lst) :
    ∃ cp ∈ lst, candpairSetPprio rcandl controlling cp = cp' :=
  List.mem_map.mp ((candpairPrioOrder_spec rcandl controlling lst).1.mem_iff.mp h)

end LibRe.Trice
