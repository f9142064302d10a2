/-
LibRe.Sip.Msg — the parts of SIP messages that transactions look at (`include/re_sip.h`).

Translation notes. A `struct pl` is a text; one that is not set is empty, which is how
`pl_isset` and `pl_cmp` treat it. `SIP_TRANSP_NONE` is left to `Option`.
-/
import Mathlib.Data.List.Basic

namespace LibRe.Sip

/-- `enum sip_transp` -/
inductive SipTransp where
  | UDP | TCP | TLS | WS | WSS
  deriving DecidableEq, Repr

/-- `sip_transp_reliable` -/
def sipTranspReliable : SipTransp → Bool
  | .UDP => false
  | _ => true

/-- `SIP_T1`, in milliseconds. -/
def sipT1 : Nat := 500

/-- `SIP_T2` -/
def sipT2 : Nat := 4000

/-- `SIP_T4` -/
def sipT4 : Nat := 5000

/-- `struct sip_msg` -/
structure SipMsg where
  tp : SipTransp
  met : String
  ruri : String
  scode : Nat
  viaVal : String
  viaBranch : String
  viaSentby : String
  toVal : String
  toTag : String
  fromVal : String
  fromTag : String
  callid : String
  cseqNum : Nat
  cseqMet : String
  routes : List String
  tag : Nat
  deriving DecidableEq, Repr

end LibRe.Sip
