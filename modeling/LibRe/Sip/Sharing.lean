/-
LibRe.Sip.Sharing — requests that are served from the same DNS answers.

What a request does should follow from the answers of DNS and from what its own transport
and transactions say: from its own inputs. `alone` runs a request on these, with the
answers as DNS gave them and no other request in sight. The records of an answer are
objects, though, and a request changes them: its lists are threaded through them, so that
`rr_append_handler` passes over a record that another request has on a list, and
`rr_cache_handler` takes records out of the answer. As long as none of this meets another
request, every request does in the stack what it does alone.
-/
import LibRe.Sip.Requests

namespace LibRe.Sip.Requests

open Dns Machine Sip.Request List
open Sip.Ctrans (CtEvent RespCall ctransStep)

variable {addl : List Rr} {err : Option Errno} {handler : DnsHandler}

/-! ## One request alone -/

/-- What one request is given. -/
inductive Input where
  | begin (sip : SipStack) (args : Args) (env : Env)
  | event (sip : SipStack) (e : Request.Event)

/-- No record is on a list of another request. -/
def unshared (env : Env) : Env := { env with busy := fun _ => false }

/-- A request alone, and all that it has done. -/
def alone (r : Option SipRequest × List Out) : Input → Option SipRequest × List Out
  | .begin sip args env => ((begin sip env args).1, r.2 ++ (begin sip env args).2)
  | .event sip e => run r (sip, e)

/-- What an event of the stack is for one request: an answer counts as DNS gave it. -/
def ownInput (s : Stack) (id : Nat) : Event → Option Input
  | .request args env => if s.reqs.fresh = id then some (.begin s.sip args env) else none
  | .answer id' second err a env =>
    if id' = id then
      (s.delivers id second a).map fun found =>
        .event s.sip (.answer second err found.2.given.ansl found.2.given.addl (unshared env))
    else none
  | .noAnswer id' second err env =>
    if id' = id then some (.event s.sip (.answer second (some err) [] [] (unshared env))) else none
  | .ct id' e env => if id' = id then some (.event s.sip (.ct e (unshared env))) else none
  | .cancel id' => if id' = id then some (.event s.sip .cancel) else none
  | .drop id' => if id' = id then some (.event s.sip .drop) else none
  | .close id' => if id' = id then some (.event s.sip .close) else none
  | .config _ | .reply .. => none

/-- What a run of the stack is for one request. -/
def ownInputs (id : Nat) : Stack → List Event → List Input
  | _, [] => []
  | s, e :: events => (ownInput s id e).toList ++ ownInputs id (step s e) events

/-- What a request does: all but the answers it is given. -/
def Out.isAct : Out → Bool
  | .answer .. => false
  | _ => true

/-- What a request has done so far. -/
def logOf (id : Nat) (s : Stack) : List Out :=
  (s.log.filterMap fun entry => if entry.1 = id then some entry.2 else none).filter Out.isAct

/-! ## What the other requests can change

Only the question whether a record is on a list of another request reaches a request from
outside, and it is asked for records of the answer and of the request's own cache. -/

variable {sip : SipStack} {env : Env} {req : SipRequest} {busy : Rr → Bool}

theorem rrAppend_unshared {rrs : List Rr} (h : ∀ rr ∈ rrs, busy rr = false) (l lst : List Rr) :
    ∀ name q,
    rrAppend (fun rr => busy rr || l.contains rr) lst (rrlistApply rrs name q) =
      rrAppend (fun rr => (unshared env).busy rr || l.contains rr) lst
        (rrlistApply rrs name q) := by
  intro name q
  refine foldl_ext _ _ lst fun lst rr hrr => ?_
  have hfree : busy rr = (unshared env).busy rr := h rr (mem_rrlistApply hrr)
  simp only [rrAppendHandler, hfree]

theorem tryAddrs_unshared (err : Option Errno) (addrl : List Rr) (n : Nat) :
    tryAddrs { env with busy } req n err addrl = tryAddrs (unshared env) req n err addrl := by
  induction addrl generalizing n err with
  | nil => rfl
  | cons rr rest ih => simp only [tryAddrs, ih, unshared]

section

variable {ansl : List Rr} (h : ∀ rr ∈ req.cachel, busy rr = false)

include h

variable {srvl : List Rr}

theorem srvAddrs_unshared {target : Bytes} :
    srvAddrs { env with busy } req srvl target = srvAddrs (unshared env) req srvl target :=
  rrAppend_unshared h _ _ _ _

theorem requestNext_unshared (srvl : List Rr) (n : Nat) :
    requestNext sip { env with busy } srvl n req = requestNext sip (unshared env) srvl n req := by
  induction srvl generalizing n req with
  | nil => simp only [requestNext, tryAddrs_unshared]; rfl
  | cons rr srvl ih =>
    simp only [requestNext, tryAddrs_unshared, srvAddrs_unshared h]
    obtain ⟨tried, outs⟩ := tryAddrs (unshared env) req n none req.addrl
    cases tried with
    | sent _ | stuck _ => rfl
    | failed err =>
      dsimp only
      split
      · simp_all
      · rfl

theorem handlerNext_unshared :
    handlerNext sip { env with busy } req = handlerNext sip (unshared env) req := by
  unfold handlerNext
  rw [requestNext_unshared h]

theorem srvFound_unshared (haddl : ∀ rr ∈ addl, busy rr = false) :
    srvFound sip { env with busy } req srvl addl = srvFound sip (unshared env) req srvl addl := by
  unfold srvFound
  dsimp only
  rw [handlerNext_unshared]
  intro rr hrr
  rcases mem_append.mp hrr with hrr | hrr
  · exact h rr (mem_filter.mp hrr).1
  · -- the records that `rr_cache_handler` takes are records of the section
    exact haddl rr (mem_rrlistApply (mem_filter.mp hrr).1)

theorem naptrHandler_unshared (haddl : ∀ rr ∈ addl, busy rr = false) :
    naptrHandler sip { env with busy } req ansl addl = naptrHandler sip (unshared env) req
      ansl addl := by
  unfold naptrHandler
  dsimp only
  split
  · rfl
  · next tp replace _ =>
      rw [@rrAppend_unshared env busy _ haddl]
      split
      · rfl
      · refine srvFound_unshared ?_ haddl
        exact h

theorem srvHandler_unshared (hansl : ∀ rr ∈ ansl, busy rr = false)
    (haddl : ∀ rr ∈ addl, busy rr = false) :
    srvHandler sip { env with busy } req ansl addl = srvHandler sip (unshared env) req
      ansl addl := by
  unfold srvHandler
  dsimp only
  rw [@rrAppend_unshared env busy _ hansl]
  split
  · rfl
  · exact srvFound_unshared h haddl

theorem addrHandler_unshared (hansl : ∀ rr ∈ ansl, busy rr = false) :
    addrHandler sip { env with busy } req err ansl = addrHandler sip (unshared env) req
      err ansl := by
  unfold addrHandler
  dsimp only
  rw [@rrAppend_unshared env busy _ hansl, handlerNext_unshared]
  exact h

theorem responseHandler_unshared {call : RespCall} :
    responseHandler sip { env with busy } req call = responseHandler sip (unshared env)
      req call := by
  unfold responseHandler
  dsimp only
  rw [requestNext_unshared]
  exact h

end

variable {ansl given : List Rr} {second : Bool} {e e' : Request.Event} {id' : Nat} {answer : Answer}

theorem dnsHandler_unshared (h : ∀ rr ∈ ansl ++ addl ++ req.cachel, busy rr = false) :
    dnsHandler sip { env with busy } req handler err ansl addl =
      dnsHandler sip (unshared env) req handler err ansl addl := by
  simp only [mem_append, or_imp, forall_and] at h
  obtain ⟨⟨hansl, haddl⟩, hcachel⟩ := h
  cases handler with
  | naptr => exact naptrHandler_unshared hcachel haddl
  | srv => exact srvHandler_unshared hcachel hansl haddl
  | addr => exact addrHandler_unshared hcachel hansl

/-- An event at the transaction, which calls the handler of the request at most once. -/
theorem ct_unshared {e : CtEvent} (hphase : Phase req) (h : ∀ rr ∈ req.cachel, busy rr = false) :
    reqStep sip req (.ct e { env with busy }) = reqStep sip req (.ct e (unshared env)) := by
  have hcalls : ∀ ct call, respond sip { env with busy } { req with ct } [call] =
      respond sip (unshared env) { req with ct } [call] := by
    simp_all [respond_one, responseHandler_unshared]
  cases hct : req.ct with
  | none => simp only [reqStep, hct]
  | some ct =>
    have hstate : ct.state ≠ .COMPLETED := by
      cases hphase with
      | asking _ _ _ _ hct₀ _ _ _ | looking _ _ _ hct₀ | idle hct₀ _ _ =>
        rw [hct₀] at hct; cases hct
      | trying ct₀ hct₀ hstate hstateful hdnsq hdnsq2 =>
        simp_all
    simp only [reqStep, hct]
    have hreported := @Ctrans.reported_step sip.software ct hstate e
    cases hreported with
    | silent ct₁ hct₁ hstate₁ hnone => rw [hnone]; rfl
    | provisional _ _ _ _ _ hone | outcome _ _ hone => rw [hone]; exact hcalls _ _

/-- The answer section as an answer has it, against the one DNS gave: NAPTR records may
have been sorted. -/
def SameAnswer (handler : DnsHandler) (ansl given : List Rr) : Prop :=
  ansl = given ∨ (handler = .naptr ∧ ∃ key, ansl = dnsRrlistSort given RrType.NAPTR.code key)

theorem dnsHandler_sameAnswer (h : SameAnswer handler ansl given) :
    dnsHandler sip env req handler err ansl addl = dnsHandler sip env req handler err
      given addl := by
  rcases h with rfl | ⟨rfl, key, rfl⟩
  · rfl
  · simp only [dnsHandler, naptrHandler, dnsRrlistSort_naptr_again]

/-- What two events have in common for a request. -/
def SameActs (sip : SipStack) (req : SipRequest) (e e' : Request.Event) : Prop :=
  (reqStep sip req e).1 = (reqStep sip req e').1 ∧
    (reqStep sip req e).2.filter Out.isAct = (reqStep sip req e').2.filter Out.isAct

/-- An answer, as it is in the stack and as it was given. -/
theorem answer_unshared (hpending : (if second then req.dnsq2 else req.dnsq) = some handler)
    (hgiven : SameAnswer handler ansl given)
    (h : ∀ rr ∈ ansl ++ addl ++ req.cachel, busy rr = false) :
    SameActs sip req (.answer second err ansl addl { env with busy })
    (.answer second err given addl (unshared env)) := by
  have hhandler : ∀ req' : SipRequest, req'.cachel = req.cachel →
      dnsHandler sip { env with busy } req' handler err ansl addl =
        dnsHandler sip (unshared env) req' handler err given addl := by
    grind [dnsHandler_unshared, dnsHandler_sameAnswer]
  simp only [SameActs, reqStep, hpending]
  rw [hhandler _ (by cases second <;> rfl)]
  exact ⟨rfl, rfl⟩

/-! ## The stack -/

variable {s : Stack} {id : Nat} {r : Option SipRequest × List Out}

/-- No record that a request is given or has cached is on a list of another request, and no
record was taken out of an answer that is delivered. -/
def Apart (s : Stack) : Event → Prop
  | .answer id second _ a _ =>
    ∀ req answer, s.delivers id second a = some (req, answer) →
      (∀ rr ∈ answer.lists.ansl ++ answer.lists.addl ++ req.cachel, busyFor s id rr = false) ∧
        answer.lists.addl = answer.given.addl
  | .noAnswer id .. | .ct id .. =>
    ∀ req, s.reqs.get id = some req → ∀ rr ∈ req.cachel, busyFor s id rr = false
  | _ => True

/-- The answers are as DNS gave them, but for the order of NAPTR records. -/
def Genuine (s : Stack) : Prop :=
  ∀ a answer, s.answers.get a = some answer → SameAnswer answer.handler answer.lists.ansl
    answer.given.ansl

/-- The stack has of a request what there is of it alone. -/
structure Agrees (s : Stack) (id : Nat) (r : Option SipRequest × List Out) : Prop where
  req : s.reqs.get id = r.1
  phase : ∀ req, r.1 = some req → Phase req
  log : logOf id s = r.2.filter Out.isAct

theorem logOf_append (s : Stack) (id id' : Nat) (outs : List Out) :
    logOf id { s with log := s.log ++ outs.map fun out => (id', out) } =
      logOf id s ++ if id' = id then outs.filter Out.isAct else [] := by
  have hmap : (outs.map fun out => (id', out)).filterMap
      (fun entry => if entry.1 = id then some entry.2 else none) =
      if id' = id then outs else [] := by
    split
    · next hid => simp [hid]
    · next hid => simp [hid]
  simp only [logOf, filterMap_append, filter_append, hmap]
  split <;> rfl

/-- An event at the request itself. -/
theorem Agrees.apply (h : Agrees s id r) (hsame : ∀ req, r.1 = some req → SameActs s.sip req e e') :
    Agrees (s.apply id e) id (alone r (.event s.sip e')) := by
  obtain ⟨res, outs⟩ := r
  cases res with
  | none =>
    have hget : s.reqs.get id = none := h.req
    have hnothing : s.apply id e = s := by unfold Stack.apply; rw [hget]
    rw [hnothing]
    exact h
  | some req =>
    have hget : s.reqs.get id = some req := h.req
    obtain ⟨hres, houts⟩ := hsame req rfl
    refine ⟨?_, ?_, ?_⟩
    · rw [apply_get, if_pos rfl, hget]
      exact hres
    · exact fun req' hreq' => ((reqStep_stepped s.sip e' (h.phase req rfl)).left req' hreq').phase
    have hlog : logOf id (s.apply id e) = logOf id s ++ (reqStep s.sip req e).2.filter
        Out.isAct := by
      have happend := logOf_append s id id (reqStep s.sip req e).2
      rw [if_pos rfl] at happend
      rw [← happend, Stack.apply, hget]
      rfl
    rw [hlog, h.log, houts]
    exact (filter_append ..).symm

/-- An event at another request. -/
theorem Agrees.apply_of_ne (h : Agrees s id r) (hne : id' ≠ id) : Agrees (s.apply id' e) id r := by
  refine ⟨?_, h.phase, ?_⟩
  · grind [apply_get, req]
  rw [← h.log]
  unfold Stack.apply
  cases hget : s.reqs.get id' with
  | none => rfl
  | some req =>
    have happend := logOf_append s id id' (reqStep s.sip req e).2
    rw [if_neg hne, List.append_nil] at happend
    exact happend

theorem Agrees.request {args : Args} (h : Agrees s id r) :
    Agrees (step s (.request args env)) id ((ownInput s id (.request args env)).toList.foldl
      alone r) := by
  have happend := logOf_append s id s.reqs.fresh (begin s.sip env args).2
  have hlog : logOf id (step s (.request args env)) =
      logOf id s ++ if s.reqs.fresh = id then (begin s.sip env args).2.filter Out.isAct else [] :=
      happend
  simp only [ownInput]
  by_cases hid : s.reqs.fresh = id
  · rw [if_pos hid] at hlog ⊢
    refine ⟨?_, fun req hreq => ((begin_ran s.sip env args).left req hreq).phase, ?_⟩
    · rw [request_get, if_pos hid.symm]
      rfl
    · rw [hlog, h.log]
      exact (filter_append ..).symm
  · rw [if_neg hid] at hlog ⊢
    refine ⟨?_, h.phase, ?_⟩
    · grind [request_get, req]
    · grind [log]

/-- An event at any request. -/
theorem Agrees.event (h : Agrees s id r)
    (hsame : id' = id → ∀ req, r.1 = some req → SameActs s.sip req e e') :
    Agrees (s.apply id' e) id ((if id' = id then some (Input.event s.sip e') else none).toList.foldl
      alone r) := by
  by_cases hid : id' = id
  · rw [if_pos hid, hid]
    exact h.apply (hsame hid)
  · simp_all [apply_of_ne]

theorem Agrees.answers (h : Agrees s id r) (answers : Table Answer) :
    Agrees { s with answers } id r :=
  ⟨h.req, h.phase, h.log⟩

theorem delivers_spec {a : Nat} (h : s.delivers id second a = some (req, answer)) :
    s.reqs.get id = some req ∧ s.answers.get a = some answer ∧
      (if second then req.dnsq2 else req.dnsq) = some answer.handler := by
  unfold Stack.delivers at h
  split at h
  · next req' answer' hreq hanswer =>
      by_cases hpending : (if second then req'.dnsq2 else req'.dnsq) = some answer'.handler
      · rw [if_pos hpending] at h
        cases h
        exact ⟨hreq, hanswer, hpending⟩
      · rw [if_neg hpending] at h
        exact nomatch h
  · exact nomatch h

/-- One event, for one request. -/
theorem Agrees.step {e : Event} (h : Agrees s id r) (hgenuine : Genuine s) (hapart : Apart s e) :
    Agrees (Requests.step s e) id ((ownInput s id e).toList.foldl alone r) := by
  cases e with
  | config _ | reply _ _ _ => exact ⟨h.req, h.phase, h.log⟩
  | request args env => exact h.request
  | answer id' second err a env =>
    simp only [Requests.step, ownInput]
    cases hdelivers : s.delivers id' second a with
    | none =>
      by_cases hid : id' = id
      · rw [if_pos hid, ← hid, hdelivers]
        exact hid ▸ h
      · simp [hid, h]
    | some found =>
      obtain ⟨req, answer⟩ := found
      obtain ⟨hclear, haddl⟩ := hapart req answer hdelivers
      obtain ⟨hreq, hanswer, hpending⟩ := delivers_spec hdelivers
      have hinput : (if id' = id then (s.delivers id second a).map fun found =>
            Input.event s.sip (.answer second err found.2.given.ansl found.2.given.addl
              (unshared env)) else none) =
          if id' = id then some (Input.event s.sip
            (.answer second err answer.given.ansl answer.given.addl (unshared env)))
          else none := by
        by_cases hid : id' = id
        · simp_all
        · rw [if_neg hid, if_neg hid]
      rw [hinput]
      refine (h.event fun hid req' hreq' => ?_).answers _
      have hsame : req' = req := by
        grind [req]
      rw [← haddl, hsame]
      exact answer_unshared hpending (hgenuine a answer hanswer) hclear
  | noAnswer id' second err env =>
    refine h.event fun hid req hreq => ?_
    have hclear := hapart req (by rw [hid, h.req, hreq])
    cases hpending : (if second then req.dnsq2 else req.dnsq) with
    | none => simp only [SameActs, reqStep, hpending, and_self]
    | some handler => exact answer_unshared hpending (.inl rfl) hclear
  | ct id' e env =>
    refine h.event fun hid req hreq => ?_
    rw [SameActs, ct_unshared (h.phase req hreq) (hapart req (by rw [hid, h.req, hreq]))]
    exact ⟨rfl, rfl⟩
  | cancel _ | drop _ | close _ => exact h.event fun _ _ _ => ⟨rfl, rfl⟩

theorem SameAnswer.used (h : SameAnswer answer.handler answer.lists.ansl answer.given.ansl)
    (req : SipRequest) (outs : List Out) :
    SameAnswer (answer.used req outs).handler (answer.used req outs).lists.ansl
      (answer.used req outs).given.ansl := by
  simp only [Answer.used]
  by_cases hnaptr : answer.handler = .naptr
  · rw [if_pos hnaptr]
    refine .inr ⟨hnaptr, req.sortkey, ?_⟩
    rcases h with hgiven | ⟨-, key, hsorted⟩
    · rw [hgiven]
    · rw [hsorted, dnsRrlistSort_naptr_again]
  · simp [hnaptr, h]

/-- Answers stay genuine: their handlers only sort NAPTR records. -/
theorem Genuine.step {e : Event} (h : Genuine s) : Genuine (Requests.step s e) := by
  have hsame : ∀ s' : Stack, s'.answers = s.answers → Genuine s' := by
    intro s' heq a answer hget
    rw [heq] at hget
    exact h a answer hget
  have happly : ∀ id e, Genuine (s.apply id e) := by
    intro id e
    apply hsame
    unfold Stack.apply
    cases s.reqs.get id <;> rfl
  cases e with
  | config _ | request _ _ => exact h
  | reply handler ansl addl =>
    intro a answer hget
    simp only [Requests.step, Table.get_add] at hget
    split at hget
    · cases hget
      exact .inl rfl
    · exact h a answer hget
  | answer id second err a env =>
    simp only [Requests.step]
    cases hdelivers : s.delivers id second a with
    | none => exact h
    | some found =>
      obtain ⟨req, answer⟩ := found
      obtain ⟨-, hanswer, -⟩ := delivers_spec hdelivers
      intro a' answer' hget
      simp only [Table.get_set, hanswer, Option.bind_some] at hget
      split at hget
      · cases hget
        exact (h a answer hanswer).used _ _
      · exact h a' answer' hget
  | noAnswer _ _ _ _ | ct _ _ _ | cancel _ | drop _ | close _ => exact happly _ _

theorem agrees_run {events : List Event} (h : Agrees s id r) (hgenuine : Genuine s)
    (hapart : Each Requests.step Apart s events) :
    Agrees (events.foldl Requests.step s) id ((ownInputs id s events).foldl alone r) := by
  induction events generalizing s r with
  | nil => exact h
  | cons e events ih =>
    rw [ownInputs, foldl_append, foldl_cons]
    exact ih (h.step hgenuine hapart.1) hgenuine.step hapart.2

/-- In a run in which the requests do not meet in a record, each of them is left with and
has done what follows from its own inputs: the answers of DNS, the outcomes of its queries
and attempts, the events of its transactions and the calls of its user. -/
theorem requests_independent (sip : SipStack) (events : List Event)
    (hapart : Each Requests.step Apart (start sip) events) (id : Nat) :
    (events.foldl Requests.step (start sip)).reqs.get id =
      ((ownInputs id (start sip) events).foldl alone (none, [])).1 ∧
      logOf id (events.foldl Requests.step (start sip)) =
        ((ownInputs id (start sip) events).foldl alone (none, [])).2.filter Out.isAct := by
  have hstart : Agrees (start sip) id (none, []) := ⟨rfl, (fun _ h => nomatch h), rfl⟩
  have hgenuine : Genuine (start sip) := fun a answer hget => nomatch hget
  have hagrees := agrees_run hstart hgenuine hapart
  exact ⟨hagrees.req, hagrees.log⟩

/-- A cached answer with SRV records, and two requests to one host that are served from it. -/
def servedTwice (servers : List Dnsrr) : List Event :=
  [.reply .srv servers [], .request udpArgs firstFails, .request udpArgs firstFails,
    .answer 0 false none 0 firstFails, .answer 1 false none 0 firstFails]

/-- A single server is on no list any more when the second request gets it. -/
theorem one_server_for_two :
    Each Requests.step Apart (start udpStack) (servedTwice ((twoServers.take 1).map (·.rr))) ∧
      logOf 1 ((servedTwice ((twoServers.take 1).map (·.rr))).foldl Requests.step
        (start udpStack)) =
        ((ownInputs 1 (start udpStack) (servedTwice ((twoServers.take 1).map (·.rr)))).foldl alone
          (none, [])).2.filter Out.isAct := by
  have hapart : Each Requests.step Apart (start udpStack)
      (servedTwice ((twoServers.take 1).map (·.rr))) := by
    refine ⟨trivial, trivial, trivial, ?_, ?_, trivial⟩
    · rintro req answer ⟨⟩
      exact ⟨by decide, rfl⟩
    · rintro req answer ⟨⟩
      exact ⟨by decide, rfl⟩
  exact ⟨hapart, (requests_independent udpStack _ hapart 1).2⟩

/-- The SRV lists a request has made. -/
def srvLists (outs : List Out) : List (List Nat) :=
  outs.filterMap fun
    | .srvs _ srvl => some (srvl.map (·.key))
    | _ => none

/-- With two servers, the one that the first request has kept for later is hidden from the
second. -/
theorem server_hidden : ¬ ∀ (sip : SipStack) (events : List Event) (id : Nat),
    (events.foldl Requests.step (start sip)).reqs.get id =
      ((ownInputs id (start sip) events).foldl alone (none, [])).1 ∧
      logOf id (events.foldl Requests.step (start sip)) =
        ((ownInputs id (start sip) events).foldl alone (none, [])).2.filter Out.isAct := by
  intro h
  have hlists := congrArg srvLists (h udpStack (servedTwice (twoServers.map (·.rr))) 1).2
  exact absurd hlists (by decide)

end LibRe.Sip.Requests
