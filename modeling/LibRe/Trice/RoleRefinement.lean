/-
LibRe.Trice.RoleRefinement — the whole agent refines the repair of role conflicts.

Candidates, pairs and connections leave the role alone. Requests, 487 responses and
the application change it as `LibRe.Trice.Role` says.
-/
import LibRe.Trice.Requests

namespace LibRe.Trice

open List

/-- The agent as far as its role goes. -/
def agent (s : Trice) : Agent := { library := .trice, lrole := s.lrole, tiebrk := s.tiebrk }

/-- What reaches the role of an agent. -/
inductive RoleInput where
  | set (role : Role)
  | message (m : Message)

def Agent.input (a : Agent) : RoleInput → Agent
  | .set role => { a with lrole := role }
  | .message m => (a.handle m).2

/-- A request without a role is refused. -/
def Request.inputs (req : Request) : List RoleInput :=
  let (role, tiebrk) := remoteRole req
  if role = .unknown then [] else [.message (.request role tiebrk)]

/-- Authentic requests and answers to pending checks get through, and with a role
the buffered requests do. -/
def inputs (s : Trice) : Event → List RoleInput
  | .setRole role _ =>
    if role = .unknown ∨ s.lrole = role then [] else .set role :: s.reqbufl.flatMap (·.req.inputs)
  | .request lcand _ _ req _ =>
    if (s.lcandl.find? (·.id == lcand)).isSome ∧ stundCheck s req = some 0 then req.inputs else []
  | .response id resp _ =>
    if ((s.checklist.getD []).find? (·.id == id)).isSome ∧ resp.err = none ∧ resp.scode = 487 then
      [.message .roleConflict]
    else []
  | _ => []

def runInputs (s : Trice) : List Event → List RoleInput
  | [] => []
  | ev :: evs => s.inputs ev ++ runInputs (step s ev) evs

/-! ## What leaves the role alone -/

variable {s t : Trice} {env : Env} {A : Nat → Prop} {lcand : Lcand} {sock : Option Nat} {src : Sa}
  {req : Request} {useCand : Bool} {number rcand id : Nat}

theorem Calm.agent (h : Calm s t) : t.agent = s.agent := by
  simp [Trice.agent, h.lrole, h.tiebrk]

theorem Work.agent (h : Work A (fun _ => True) s t) : t.agent = s.agent := by
  induction h with
  | refl => rfl
  | quiet _ change ih => exact change.agent.trans ih
  | check _ _ _ _ ih | mark _ _ _ ih | lcand _ _ _ ih | rcand _ _ ih => exact ih
  | alloc _ _ _ change ih =>
    obtain ⟨-, -, rfl⟩ := candpairAlloc_ok change
    exact ih

theorem Checking.agent (h : Checking A s t) : t.agent = s.agent := h.work.agent

theorem handlePair_agent : (handlePair env s lcand rcand sock useCand).agent = s.agent := by
  have htrigger : ∀ t cp, (triggerCheck env t cp sock useCand).agent = _ := fun _ cp =>
    (triggerCheck_checking cp sock useCand).agent
  grind [handlePair, Trice.agent, setPair]

theorem stundServe_agent : (stundServe env s number lcand sock src req).agent = s.agent := by
  have hrcand := fun prio => (requestRcand_work (A := fun _ => True) (s := s) lcand src prio).agent
  grind [stundServe, handleStunFull, handlePair_agent, Trice.agent, emit]

theorem candpairMakeValid_agent : (candpairMakeValid s id).agent = s.agent := by
  unfold candpairMakeValid
  split <;> rfl

theorem handleSuccess_agent {mapped : Sa} : (handleSuccess s id mapped useCand).agent =
    s.agent := by
  have hestab : ∀ {t id}, (pairEstablished t id).agent = t.agent := fun {_ id} =>
    (pairEstablished_checking (A := (· = id)) id).agent
  unfold handleSuccess
  split
  · rfl
  split
  · unfold handlePrflx
    simp only []
    split
    · rfl
    · rename_i halloc
      obtain ⟨-, -, rfl⟩ := candpairAlloc_ok halloc
      exact hestab.trans candpairMakeValid_agent
  · grind [handleMapped, candpairMakeValid_agent, Trice.agent, setPair]

/-! ## What reaches it -/

theorem switchLocalRole_agent :
    (switchLocalRole s).agent = { s.agent with lrole := Library.trice.switchRole s.lrole } := by
  unfold switchLocalRole
  split
  · rename_i hunknown
    rw [Trice.agent, hunknown]
    rfl
  · rfl

theorem stundRecvRoleSet_agent :
    (stundRecvRoleSet env s number lcand sock src req).agent = req.inputs.foldl Agent.input
      s.agent := by
  unfold stundRecvRoleSet
  simp only [Request.inputs]
  split
  · rfl
  · grind [Agent.input, Agent.handle, checkRole, Trice.agent, emit, stundServe_agent,
      switchLocalRole_agent]

theorem reqbufProcess_agent :
    (reqbufProcess env s).agent = (s.reqbufl.flatMap (·.req.inputs)).foldl Agent.input s.agent := by
  unfold reqbufProcess
  generalize s.reqbufl = entries
  induction entries generalizing s with
  | nil => rfl
  | cons e es ih =>
    have hserve : (reqbufServe env s e).agent = e.req.inputs.foldl Agent.input s.agent :=
      (quiet_derefLcand _ _).toCalm.agent.trans stundRecvRoleSet_agent
    rw [foldl_cons, ih, hserve, flatMap_cons, foldl_append]

theorem step_agent (s : Trice) (ev : Event) :
    (step s ev).agent = (s.inputs ev).foldl Agent.input s.agent := by
  cases ev with
  | setRemoteUfrag _ | setRemotePwd _ => rfl
  | lcandAdd args sockEnv => exact (lcandAdd_work (A := fun _ => True) fun _ _ _ => trivial).agent
  | rcandAdd compid _ proto _ addr _ _ =>
    cases hfind : rcandFind s compid proto addr with
    | none => exact (rcandAdd_new_work (A := fun _ => True) hfind).agent
    | some i => grind [step, rcandAdd, Trice.agent, Trice.inputs]
  | setRole role env =>
    have hpairs : ∀ t, (createCandpairs t).agent = t.agent ∧ (createCandpairs t).reqbufl =
        t.reqbufl := fun t =>
      ⟨(createCandpairs_work (A := fun _ => True)).agent,
        (createCandpairs_work.changes' (G := lenient False)).answered.reqbufl⟩
    simp only [step, setRole, Trice.inputs]
    grind [reqbufProcess_agent, Agent.input, Trice.agent]
  | checklistStart => grind [step, checklistStart, Trice.agent, Trice.inputs]
  | setWaiting => exact checklistSetWaiting_work.agent
  | pace env =>
    have hcheck : (scheduleCheck env s).agent = _ := scheduleCheck_work.agent
    grind [step, Trice.inputs]
  | conncheckSend id useCand env => exact (conncheckSend_checking id useCand).agent
  | request lcand sock src req env =>
    have hcheck : stundCheck { s with received := s.received + 1 } req = stundCheck s req := rfl
    simp only [step, Trice.inputs, stundRecv, hcheck]
    grind [stundRecvRoleSet_agent, reqbufAppend, Trice.agent, refLcand, emit]
  | response id resp env =>
    have hsend : ∀ cp u, (conncheckSend env (switchLocalRole s) cp u).1.agent = _ := fun cp u =>
      (conncheckSend_checking cp u).agent
    simp only [step, stuncRespHandler, Trice.inputs]
    grind [Agent.input, Agent.handle, Trice.agent, emit, setPair, handleSuccess_agent,
      switchLocalRole_agent]
  | tcpEstab compid laddr paddr tc env =>
    refine foldlRecOn _ _ (motive := fun t : Trice => t.agent = s.agent) rfl fun t ht cc _ => ?_
    rcases estabCheck_cases compid laddr paddr tc cc with heq | ⟨_, _, _, hwork⟩
    · rwa [heq]
    · exact hwork.agent.trans ht
  | tcpClose compid paddr err => exact (tcpClose_work compid paddr err).agent

/-- The role and the tie-breaker of an agent are after every run what the role
machine makes of the inputs. -/
theorem run_refines_role (s : Trice) (events : List Event) :
    (run s events).agent = (runInputs s events).foldl Agent.input s.agent := by
  induction events generalizing s with
  | nil => rfl
  | cons ev evs ih =>
    rw [runInputs, foldl_append, ← step_agent]
    exact ih _

end LibRe.Trice
