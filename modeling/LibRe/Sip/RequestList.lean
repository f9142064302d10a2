/-
LibRe.Sip.RequestList — what drives the requests on the list.

A request on the list should have a pending query or a transaction, or it stays there for
ever. Answers and transactions never leave it without one. `sip_request_cancel` does when
no provisional response has come yet, because it drops the transaction, and so does the
destructor, which calls it; and a request whose first step fails is kept by the destructor
if the caller of `sip_request` asked for a pointer. These are the only cases, so in a run
all requests are driven if and only if none of them occurs.
-/
import LibRe.Sip.Requests

namespace LibRe.Sip.Requests

open Dns Machine Sip.Request Option
open Sip.Ctrans (CtEvent SipCtrans)

/-! ## One request -/

variable {sip : SipStack} {env : Env} {req : SipRequest}

/-- What is left of a request that is cancelled. -/
theorem sipRequestCancel_pending (req : SipRequest) :
    (sipRequestCancel req).1.pending ↔ req.waits ∨
    (req.ct.isSome ∧ (req.canceled ∨ req.provrecv)) := by
  unfold sipRequestCancel
  by_cases hcanceled : req.canceled
  · simp [SipRequest.pending, hcanceled]
  rw [if_neg hcanceled]
  by_cases hprov : req.provrecv
  · rw [if_pos hprov]
    obtain ⟨ct, outs, heq, hsome, -, -⟩ := ctransCancel_spec { req with canceled := true }
    rw [heq]
    simp only [SipRequest.pending, hsome, hprov, or_true, and_true]
    rfl
  · simp [SipRequest.pending, hprov, hcanceled]

theorem sipRequestCancel_stateful (req : SipRequest) :
    (sipRequestCancel req).1.stateful = req.stateful := by
  unfold sipRequestCancel
  split
  · rfl
  dsimp only
  split
  · obtain ⟨ct, outs, heq, -⟩ := ctransCancel_spec { req with canceled := true }
    rw [heq]
  · rfl

/-- A request with a transaction is stateful and waits for no query. -/
theorem of_ct (h : Phase req) (hct : req.ct.isSome) : req.stateful ∧ ¬ req.waits := by
  cases h with
  | asking _ _ _ _ ct _ _ _ | looking _ _ _ ct | idle ct _ _ => rw [ct] at hct; exact nomatch hct
  | trying ct hct' state stateful dnsq dnsq2 => exact ⟨stateful, by simp [dnsq, dnsq2]⟩

/-- The first send or query of a request is accepted. -/
def accepted (sip : SipStack) (env : Env) (args : Args) : Bool :=
  match allocTransp sip args with
  | none => true
  | some (tp, tpSelected) =>
    if args.hostSa.isSome then (env.send 0).isNone
    else if args.routePort ≠ 0 ∨ (tpSelected ∧ sip.getaddrinfoOnly) then
      if sip.supported tp (some .inet) then (env.query 0).isNone
      else sip.supported tp (some .inet6) && (env.query 1).isNone
    else if tpSelected then
      (asciiBytes (sipTranspSrvid tp) ++ [46] ++ args.host).length < 256 && (env.query 0).isNone
    else (env.query 0).isNone

/-- After `addr_lookup` something is pending if its first query was accepted. -/
theorem addrLookup_pending (hreq : Unbound req) (name : Bytes) :
    (addrLookup sip env req name).2.1.pending ↔
      (if sip.supported req.tp (some .inet) then (env.query 0).isNone
        else sip.supported req.tp (some .inet6) && (env.query 1).isNone) = true := by
  have hnone : ¬ req.pending := by simp [SipRequest.pending, hreq.ct, hreq.dnsq, hreq.dnsq2]
  unfold addrLookup
  split
  · cases hq : env.query 0 with
    | some err => simpa using hnone
    | none =>
      have hwaits : ∀ r : SipRequest, r.dnsq.isSome → r.pending := fun r h => .inl (by simp [h])
      have hkeep : (addrLookup6 sip env { req with dnsq := some .addr } name).2.1.dnsq =
          some .addr := by
        grind [addrLookup6]
      simp only [isNone_none, iff_true]
      exact hwaits _ (by rw [hkeep]; rfl)
  · unfold addrLookup6
    split
    · next hsix =>
        cases hq : env.query 1 with
        | some err => simpa using hnone
        | none => simp [hsix, SipRequest.pending]
    · grind

/-- What the first step leaves, by what it was answered. -/
structure FirstLeft (req : SipRequest) (ok : Bool) (next : Next) : Prop where
  goesOn : ∀ req', next = .goesOn req' → req'.pending ∧ ok
  gone : next = .gone → ¬ req.stateful
  error : ∀ err req', next = .error err req' →
    req'.ct = none ∧ req'.reqp = req.reqp ∧ req'.stateful = req.stateful ∧ (req'.waits ↔ ok)

variable {ok reqp resph : Bool} {e : Event}

theorem firstLeft_goesOn {req' : SipRequest} (hpending : req'.pending) (hok : ok) :
    FirstLeft req ok (.goesOn req') :=
  ⟨fun _ h => by cases h; exact ⟨hpending, hok⟩, (fun h => nomatch h), (fun _ _ h => nomatch h)⟩

theorem firstLeft_error (hreq : Unbound req) (hok : ¬ ok) (err : Errno) :
    FirstLeft req ok (.error err req) := by
  refine ⟨(fun _ h => nomatch h), (fun h => nomatch h), ?_⟩
  rintro _ _ ⟨⟩
  refine ⟨hreq.ct, rfl, rfl, iff_of_false ?_ hok⟩
  simp [hreq.dnsq, hreq.dnsq2]

variable {args : Args}

theorem firstStep_left (hreq : Unbound req)
    (htp : allocTransp sip args = some (req.tp, req.tpSelected)) (hhost : req.host = args.host) :
    FirstLeft req (accepted sip env args) (firstStep sip env req args).1 := by
  unfold firstStep accepted
  rw [htp]
  cases hsa : args.hostSa with
  | some sa =>
    cases hsend : env.send 0 with
    | some err => exact firstLeft_error hreq Bool.false_ne_true err
    | none =>
      unfold sent
      by_cases hstateful : req.stateful
      · rw [if_pos hstateful]
        exact firstLeft_goesOn (.inr rfl) rfl
      · rw [if_neg hstateful]
        exact ⟨(fun _ h => nomatch h), fun _ => hstateful, (fun _ _ h => nomatch h)⟩
  | none =>
    simp only [isSome_none, Bool.false_eq_true, if_false]
    split
    · -- the answer of `addr_lookup` is read off its specification
      have hunbound : Unbound { req with port := sipTranspPort req.tp args.routePort } :=
        ⟨hreq.ct, hreq.dnsq, hreq.dnsq2⟩
      have hpending := @addrLookup_pending sip env _ hunbound req.host
      have hlooked := addrLookup_spec sip env hunbound req.host
      generalize addrLookup sip env _ req.host = r at hpending hlooked
      obtain ⟨err, req₁, outs⟩ := r
      cases err with
      | none =>
        exact firstLeft_goesOn (.inl (hlooked.waits rfl)) (hpending.mp (.inl (hlooked.waits rfl)))
      | some err =>
        refine ⟨(fun _ h => nomatch h), (fun h => nomatch h), ?_⟩
        rintro _ _ ⟨⟩
        obtain ⟨dnsq, dnsq2, rfl⟩ := hlooked.same
        rw [← hpending]
        simp [SipRequest.pending, hreq.ct]
    · split
      · unfold srvLookup
        rw [hhost]
        dsimp only
        split
        · next hlong =>
            have hshort : ¬ (asciiBytes (sipTranspSrvid req.tp) ++ [46] ++ args.host).length <
                256 := Nat.not_lt.mpr hlong
            refine firstLeft_error hreq ?_ .ENOMEM
            simp only [hshort, decide_false, Bool.false_and, Bool.false_eq_true, not_false_eq_true]
        · next hshort =>
            have hshort : (asciiBytes (sipTranspSrvid req.tp) ++ [46] ++ args.host).length < 256 :=
              Nat.lt_of_not_ge hshort
            cases hquery : env.query 0 with
            | some err => exact firstLeft_error hreq (by simp) err
            | none =>
              refine firstLeft_goesOn (.inl rfl) ?_
              simp only [hshort, decide_true, isNone_none, Bool.and_self]
      · cases hquery : env.query 0 with
        | some err => exact firstLeft_error hreq Bool.false_ne_true err
        | none => exact firstLeft_goesOn (.inl rfl) rfl

/-- The request that `sip_request` makes. -/
theorem sipRequestAlloc_spec (h : sipRequestAlloc sip args = .ok req) :
    args.isSip ∧ Unbound req ∧ allocTransp sip args = some (req.tp, req.tpSelected) ∧
      req.host = args.host ∧
      req.stateful = args.stateful ∧ req.reqp = args.reqp := by
  unfold sipRequestAlloc at h
  split at h
  · cases h
  · next hsip =>
      split at h
      · cases h
      · next tp tpSelected htp =>
          cases h
          exact ⟨by simpa using hsip, ⟨rfl, rfl, rfl⟩, htp, rfl, rfl, rfl⟩

/-- The destructor keeps a stateful request whose user has the pointer. -/
theorem release_kept (h : req.reqp ∧ req.stateful) :
    (release req).1 = some (sipRequestCancel { req with reqp := false, resph := false }).1 := by
  simp [release, h]

/-- A request that `sip_request` leaves on the list is driven, unless it is a stateful one
to which a pointer was asked for and whose first step was not accepted; and in that case
it is on the list. -/
theorem begin_left (sip : SipStack) (env : Env) (args : Args) :
    (∀ req, (begin sip env args).1 = some req →
      (req.pending ↔ (args.isSip → args.stateful → args.reqp → accepted sip env args))) ∧
      (args.isSip → args.stateful → args.reqp → ¬ accepted sip env args →
        ∃ req, (begin sip env args).1 = some req ∧ req.stateful) := by
  unfold begin sipRequest
  cases halloc : sipRequestAlloc sip args with
  | error err =>
    refine ⟨(fun _ h => nomatch h), fun hsip _ _ hno => ?_⟩
    cases htp : allocTransp sip args with
    | none => exact absurd (by rw [accepted, htp]) hno
    | some tp => simp [sipRequestAlloc, hsip, htp] at halloc
  | ok req₀ =>
    obtain ⟨hsip, hunbound, htp, hhost, hstateful, hreqp⟩ := sipRequestAlloc_spec halloc
    have hleft := @firstStep_left sip env req₀ args hunbound htp hhost
    dsimp only
    generalize firstStep sip env req₀ args = r at hleft
    obtain ⟨next, outs⟩ := r
    cases next with
    | goesOn req₁ =>
      obtain ⟨hpending, hok⟩ := hleft.goesOn req₁ rfl
      refine ⟨?_, fun _ _ _ hno => absurd hok hno⟩
      rintro _ ⟨⟩
      exact iff_of_true hpending fun _ _ _ => hok
    | gone =>
      exact ⟨(fun _ h => nomatch h), fun _ hst _ _ => absurd (hstateful.trans hst) (hleft.gone rfl)⟩
    | error err req₁ =>
      obtain ⟨hct, hreqp₁, hstateful₁, hwaits⟩ := hleft.error err req₁ rfl
      rw [hreqp] at hreqp₁
      rw [hstateful] at hstateful₁
      by_cases hkept : req₁.reqp ∧ req₁.stateful
      · dsimp only
        rw [release_kept hkept]
        refine ⟨?_, fun _ _ _ _ => ⟨_, rfl, (sipRequestCancel_stateful _).trans hkept.2⟩⟩
        rintro _ ⟨⟩
        rw [sipRequestCancel_pending]
        simp only [SipRequest.waits, hct, isSome_none, Bool.false_eq_true, false_and, or_false]
        rw [hreqp₁, hstateful₁] at hkept
        exact ⟨fun hw _ _ _ => hwaits.mp hw, fun hok => hwaits.mpr (hok hsip hkept.2 hkept.1)⟩
      · exact ⟨by simp [release, hkept], fun _ hst hrp _ =>
          absurd ⟨hreqp₁.trans hrp, hstateful₁.trans hst⟩ hkept⟩

/-! ## The list -/

variable {s : Stack} {id : Nat}

/-- Every stateful request on the list has a pending query or a transaction. -/
def Driven (s : Stack) : Prop := ∀ id req, s.reqs.get id = some req → req.stateful → req.pending

/-- The user cancels or drops no request whose transaction still waits for its first
provisional response, and every request that the caller holds gets past its first step. -/
def Unhurried (s : Stack) : Event → Prop
  | .request args env => args.isSip → args.stateful → args.reqp → accepted s.sip env args
  | .cancel id | .drop id =>
    ∀ req, s.reqs.get id = some req → req.reqp → req.stateful → req.ct.isSome → req.canceled ∨
      req.provrecv
  | _ => True

/-- All requests are in one of their phases, with something pending. -/
def Going (s : Stack) : Prop := ∀ id req, s.reqs.get id = some req → Phase req ∧ req.pending

/-- An event at one request leaves the others as they are. -/
theorem Going.apply {e : Request.Event} (h : Going s)
    (hone : ∀ req req', s.reqs.get id = some req → Phase req → req.pending →
      (reqStep s.sip req e).1 = some req' → req'.pending) :
    Going (s.apply id e) := by
  intro id' req' hget
  rw [apply_get] at hget
  split at hget
  · obtain ⟨req, hreq, hstep⟩ := bind_eq_some_iff.mp hget
    obtain ⟨hphase, hpending⟩ := h id req hreq
    exact ⟨((reqStep_stepped s.sip e hphase).left req' hstep).phase,
      hone req req' hreq hphase hpending hstep⟩
  · exact h id' req' hget

/-- Without a hurry, a cancelled request keeps what it waits for. -/
theorem sipRequestCancel_keeps (hphase : Phase req) (hpending : req.pending)
    (hcalm : req.stateful → req.ct.isSome → req.canceled ∨ req.provrecv) :
    (sipRequestCancel { req with reqp, resph }).1.pending := by
  rw [sipRequestCancel_pending]
  rcases hpending with hwaits | hct
  · exact .inl hwaits
  · exact .inr ⟨hct, hcalm (of_ct hphase hct).1 hct⟩

theorem Going.step (h : Going s) (hcalm : Unhurried s e) : Going (Requests.step s e) := by
  cases e with
  | config _ | reply _ _ _ => exact h
  | request args env =>
    intro id req hget
    rw [request_get] at hget
    split at hget
    · exact ⟨((begin_ran _ env args).left req hget).phase,
        ((begin_left _ env args).1 req hget).mpr hcalm⟩
    · exact h id req hget
  | answer id second err a env =>
    simp only [Requests.step]
    cases hdelivers : s.delivers id second a with
    | none => exact h
    | some found =>
      intro id' req' hget
      refine Going.apply h ?_ id' req' hget
      intro req req' _ hphase hpending hstep
      exact ((answer_stepped s.sip _ _ _ _ _ hphase).left req' hstep).pending hpending
  | noAnswer id second err env =>
    refine Going.apply h ?_
    intro req req' _ hphase hpending hstep
    exact ((answer_stepped s.sip _ _ _ _ _ hphase).left req' hstep).pending hpending
  | ct id e env =>
    refine Going.apply h ?_
    intro req req' _ hphase hpending hstep
    exact ((ct_stepped s.sip _ e hphase).left req' hstep).pending hpending
  | cancel id =>
    refine Going.apply h ?_
    intro req req' hget hphase hpending hstep
    simp only [reqStep] at hstep
    split at hstep
    · next hreqp =>
        rw [← some.inj hstep]
        exact sipRequestCancel_keeps hphase hpending (hcalm req hget hreqp)
    · simp_all
  | drop id =>
    refine Going.apply h ?_
    intro req req' hget hphase hpending hstep
    simp only [reqStep] at hstep
    split at hstep
    · next hreqp =>
        by_cases hstateful : req.stateful
        · rw [release_kept ⟨hreqp, hstateful⟩] at hstep
          rw [← some.inj hstep]
          exact sipRequestCancel_keeps hphase hpending (hcalm req hget hreqp)
        · simp_all [release]
    · simp_all
  | close id =>
    refine Going.apply h ?_
    intro req req' _ _ _ hstep
    cases hstep

/-- A cancelled request whose transaction had no provisional response has nothing left. -/
theorem sipRequestCancel_drops (hphase : Phase req) (hct : req.ct.isSome)
    (h : (sipRequestCancel { req with reqp, resph }).1.pending) : req.canceled ∨ req.provrecv := by
  rw [sipRequestCancel_pending] at h
  rcases h with hwaits | ⟨-, hcanceled⟩
  · exact absurd (show req.waits from hwaits) ((of_ct hphase hct).2)
  · exact hcanceled

/-- A request that is cancelled without its provisional response is driven by nothing
afterwards, and neither is one that is kept after its first step failed. -/
theorem unhurried_of_driven (h : Going s) (hdriven : Driven (Requests.step s e)) :
    Unhurried s e := by
  cases e with
  | request args env =>
    intro hsip hstateful hreqp
    by_contra hno
    obtain ⟨hpending, hleft⟩ := begin_left s.sip env args
    obtain ⟨req, hreq, hreqStateful⟩ := hleft hsip hstateful hreqp hno
    have hget : (Requests.step s (.request args env)).reqs.get s.reqs.fresh = some req := by
      rw [request_get, if_pos rfl, hreq]
    exact hno ((hpending req hreq).mp (hdriven _ req hget hreqStateful) hsip hstateful hreqp)
  | cancel id =>
    intro req hget hreqp hstateful hct
    have hstep : (reqStep s.sip req .cancel).1 = some (sipRequestCancel req).1 := by
      simp only [reqStep, if_pos hreqp]
    have hafter : (s.apply id .cancel).reqs.get id = some (sipRequestCancel req).1 := by
      rw [apply_get, if_pos rfl, hget, bind_some, hstep]
    exact sipRequestCancel_drops (h id req hget).1 hct
      (hdriven id _ hafter ((sipRequestCancel_stateful req).trans hstateful))
  | drop id =>
    intro req hget hreqp hstateful hct
    have hstep : (reqStep s.sip req .drop).1 = some (sipRequestCancel
        { req with reqp := false, resph := false }).1 := by
      simp only [reqStep, if_pos hreqp, release_kept ⟨hreqp, hstateful⟩]
    have hafter : (s.apply id .drop).reqs.get id = some (sipRequestCancel
        { req with reqp := false, resph := false }).1 := by
      rw [apply_get, if_pos rfl, hget, bind_some, hstep]
    exact sipRequestCancel_drops (h id req hget).1 hct
      (hdriven id _ hafter ((sipRequestCancel_stateful _).trans hstateful))
  | config _ | reply _ _ _ | answer _ _ _ _ _ | noAnswer _ _ _ _ | ct _ _ _ | close _ => trivial

/-- In a run, every stateful request on the list has a pending query or a transaction at
all times if and only if no request is cancelled or dropped between its sending and its
first provisional response, and none that the caller holds fails in its first step. -/
theorem requests_driven_iff (sip : SipStack) (events : List Event) :
    Always Requests.step Driven (start sip) events ↔
    Each Requests.step Unhurried (start sip) events := by
  have hstart : Going (start sip) := fun id req hget => nomatch hget
  refine always_iff_each ?_ ?_ ?_ hstart each_true
  · exact fun s e h _ hcalm => h.step hcalm
  · exact fun s h id req hget _ => (h id req hget).2
  · exact fun s e h _ hdriven => unhurried_of_driven h hdriven

/-- The arguments and the message of an INVITE to `sip:127.0.0.1`. -/
def inviteArgs : Args := { udpArgs with met := "INVITE", hostSa := some (.inet 0x7f000001 0) }

/-- Everything the INVITE asks for is accepted. -/
def inviteEnv : Env := { firstFails with send := fun _ => none, msg := { optionsMsg with
  met := "INVITE", cseqMet := "INVITE" } }

/-- An INVITE is cancelled before a response to it has come: it stays on the list, with no
transaction that could send the CANCEL. -/
theorem request_left_behind : ¬ ∀ (sip : SipStack) (events : List Event),
    Always Requests.step Driven (start sip) events := by
  intro h
  have hafter := (h udpStack [.request inviteArgs inviteEnv, .cancel 0]).last
  rcases hafter 0 _ rfl rfl with hwaits | hct
  · exact nomatch hwaits
  · exact nomatch hct

end LibRe.Sip.Requests
