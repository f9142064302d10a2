/-
LibRe.Trice.Role — the role of an agent and the repair of role conflicts.

The part of a Binding request that concerns the role is its ICE-CONTROLLING or
ICE-CONTROLLED attribute and the tie-breaker in it. The same repair stands in
both agents of the library, `trice` and `icem`; only their switch differs, on the
unknown role.
-/
import LibRe.Lib.Parties

namespace LibRe.Trice

open Parties

/-- `enum ice_role`. -/
inductive Role where
  | unknown
  | controlling
  | controlled
  deriving DecidableEq, Repr

/-- `trice_switch_local_role`, on the role. -/
def triceSwitchRole : Role → Role
  | .controlling => .controlled
  | .controlled => .controlling
  | .unknown => .unknown

/-- `ice_switch_local_role`, on the role. -/
def iceSwitchRole (lrole : Role) : Role :=
  if lrole = .controlling then .controlled else .controlling

/-- The block `if (remote_role == icem->lrole)` of both Binding request handlers:
the role behind it, or `none` for the jump to the 487 reply. -/
def checkRole (switch : Role → Role) (lrole : Role) (tiebrk : UInt64) (remoteRole : Role)
    (remoteTiebrk : UInt64) : Option Role :=
  if remoteRole = lrole then
    if tiebrk ≥ remoteTiebrk then some (switch lrole) else none
  else some lrole

/-! ## Agents that exchange requests -/

/-- The two agents of the library. -/
inductive Library where
  | trice
  | icem
  deriving DecidableEq, Repr

def Library.switchRole : Library → Role → Role
  | .trice => triceSwitchRole
  | .icem => iceSwitchRole

/-- An agent as far as its role goes. -/
structure Agent where
  library : Library
  lrole : Role
  tiebrk : UInt64
  deriving DecidableEq, Repr

/-- Requests carry the role and the tie-breaker of the sender when it sent them. -/
inductive Message where
  | request (role : Role) (tiebrk : UInt64)
  | success
  | roleConflict
  deriving DecidableEq, Repr

/-- A connectivity check: no request leaves an agent without a role. -/
def Agent.check (a : Agent) : List Message :=
  if a.lrole = .unknown then [] else [.request a.lrole a.tiebrk]

/-- A message is handled: the replies, and the check that a 487 response is
answered with under the new role. -/
def Agent.handle (a : Agent) : Message → List Message × Agent
  | .request role tiebrk =>
    match checkRole a.library.switchRole a.lrole a.tiebrk role tiebrk with
    | some lrole => ([.success], { a with lrole })
    | none => ([.roleConflict], a)
  | .success => ([], a)
  | .roleConflict =>
    let a := { a with lrole := a.library.switchRole a.lrole }
    (a.check, a)

/-- An agent sends a check whenever it likes. -/
def agents : Behaviour Agent Message where
  acts a sent a' := sent = a.check ∧ a' = a
  handles a m sent a' := a.handle m = (sent, a')

/-- Both agents in one role, nothing sent yet. -/
def sameRole (library : Side → Library) (role : Role) (tiebrk : Side → UInt64) :
    Config Agent Message :=
  { party := fun i => { library := library i, lrole := role, tiebrk := tiebrk i }, flight := [] }

end LibRe.Trice
