/-
LibRe.Sip.RequestRuns — whole runs of a request.

Every event at a request keeps the order of the log, the budgets and what the user may be
told (`Stepped`); by induction every run does. So the response handler is called with one
outcome at most, records are taken in the order of their lists, and what is spent on
queries and attempts is bounded by the transports and the records received.
-/
import LibRe.Sip.RequestTheorems

namespace LibRe.Sip.Request

open Dns Machine List Option Nat
open Sip.Ctrans (SipCtrans RespCall CtEvent ctransStep respCalls sipCtransRequest
  sipCtransCancel OneOutcome)

variable {P : Prop} {now : Option SipRequest} {outs : List Out} {req' : SipRequest}

variable {sip : SipStack} {env : Env} {req : SipRequest}

/-! ## One step -/

/-- What every event keeps. Received records pay for queries and attempts. -/
abbrev Stepped (P : Prop) (req : SipRequest) (r : Option SipRequest × List Out) : Prop :=
  Went P req.lists (budget req) (stock req) r.1 r.2

theorem Stepped.refl (h : Phase req) : Stepped req.pending req (some req, []) :=
  .on trivial ⟨h, rfl, id⟩ rfl (le_of_eq (zero_add _)) (le_of_eq (zero_add _))

/-- The handler of an answer. -/
theorem Went.answered {ansl addl : List Rr} {m : Nat}
    (h : Went True req.lists (budget req + 2 * m) (stock req + m + m * m) now outs)
    (hm : m = ansl.length + addl.length) :
    Stepped req.pending req (now, .answer ansl addl :: outs) := by
  subst hm
  refine (Went.after [.answer ansl addl] (by simp) (by simp) (h.weaken fun _ => trivial) ?_ ?_)
  · simp
  · simp

/-- The answer to a query. -/
theorem answer_stepped (sip : SipStack) (env : Env) (second : Bool) (err : Option Errno)
    (ansl addl : List Rr) (hphase : Phase req) :
    Stepped req.pending req (reqStep sip req (.answer second err ansl addl env)) := by
  have hsame := Stepped.refl hphase
  simp only [reqStep]
  cases hphase with
  | trying _ _ _ _ hdnsq hdnsq2 | idle _ hdnsq hdnsq2 => simpa [hdnsq, hdnsq2] using hsame
  | asking handler hne hdnsq hdnsq2 hct haddrl hsrvl hcachel =>
    cases second with
    | true => simpa [hdnsq2] using hsame
    | false =>
      have hfresh : Fresh { req with dnsq := none } := ⟨⟨hct, rfl, hdnsq2⟩, haddrl, hsrvl, hcachel⟩
      have hlists : req.lists = ⟨[], []⟩ := by simp [hdnsq, hsrvl]
      have hbudget : budget req = stage { req with dnsq := some handler } := by
        simp [budget, stage, hdnsq, hsrvl]
      simp only [Bool.false_eq_true, if_false, hdnsq]
      refine Went.answered ?_ rfl
      rw [hlists, hbudget]
      cases handler with
      | addr => exact absurd rfl hne
      | naptr =>
        exact (naptrHandler_went hfresh (le_add_left _ _)).mono (le_refl _) (le_add_left _ _)
      | srv =>
        exact (srvHandler_went hfresh (le_add_right _ _) (le_add_left _ _)).mono (le_refl _)
          (le_add_left _ _)
  | looking hwaits hdnsq hdnsq2 hct =>
    have hspec : ∀ dnsq dnsq2, (dnsq ≠ none → dnsq = some .addr) →
        (dnsq2 ≠ none → dnsq2 = some .addr) →
        Stepped req.pending req ((addrHandler sip env { req with dnsq, dnsq2 } err ansl).1,
          .answer ansl addl :: (addrHandler sip env { req with dnsq, dnsq2 } err ansl).2) := by
      intro dnsq dnsq2 h1 h2
      have hlists : req.lists = ⟨[], req.srvl⟩ := by simp [hwaits, -SipRequest.waits]
      have hstock : stock { req with dnsq, dnsq2 } = stock req := rfl
      refine Went.answered ?_ rfl
      rw [hlists]
      refine (@addrHandler_went err sip env { req with dnsq, dnsq2 } ansl hct h1 h2).mono ?_ ?_
      · simp only [budget]
        omega
      · rw [hstock]
        omega
    cases second with
    | true =>
      cases hslot : req.dnsq2 with
      | none => simpa [hslot] using hsame
      | some handler =>
        cases hslot.symm.trans (hdnsq2 (by simp [hslot]))
        exact hspec req.dnsq none hdnsq (by simp)
    | false =>
      cases hslot : req.dnsq with
      | none => simpa [hslot] using hsame
      | some handler =>
        cases hslot.symm.trans (hdnsq (by simp [hslot]))
        exact hspec none req.dnsq2 (by simp) hdnsq2

variable {ct : Option SipCtrans} {canceled reqp resph : Bool} {call : RespCall} {log : List Out}
  {r : Option SipRequest × List Out}

/-- Nothing but the transaction and flags changes, and what the user is told is provisional. -/
theorem Stepped.renewed {provrecv : Bool}
    (hphase : Phase { req with ct, canceled, provrecv, reqp, resph })
    (hpending : P → ct.isSome) (houts : ∀ out ∈ outs, out = .cancel ∨ ∃ call : RespCall,
      out = .resph call ∧ call.provisional) :
    Stepped P req (some { req with ct, canceled, provrecv, reqp, resph }, outs) := by
  have hsaid : queries outs = 0 ∧ attempts outs = 0 ∧ (∀ call ∈ calls outs, call.provisional) ∧
      ∀ l, InOrder l outs ∧ l.afterAll outs = l := by
    induction outs with
    | nil => simp
    | cons out outs ih =>
      have hrest := ih fun o ho => houts o (mem_cons_of_mem _ ho)
      rcases houts out mem_cons_self with rfl | ⟨call, rfl, hcall⟩
      · simpa using hrest
      · simpa [hcall] using hrest
  obtain ⟨hq, ha, hprov, horder⟩ := hsaid
  refine ⟨(horder _).1, ?_, ?_, ?_, fun _ _ => hprov, Ctrans.oneOutcome_of_provisional hprov⟩
  · rintro _ ⟨⟩
    exact ⟨hphase, by rw [(horder _).2]; rfl, fun h => .inr (hpending h)⟩
  · rw [hq, zero_add]
    exact le_add_right (budget req) _
  · rw [ha, zero_add, add_assoc]
    exact le_add_right (stock req) _

/-- `sip_ctrans_cancel` does not end the transaction. -/
theorem ctransCancel_spec (req : SipRequest) :
    ∃ ct outs, ctransCancel req = ({ req with ct }, outs) ∧ (ct.isSome = req.ct.isSome) ∧
      (∀ ct₁, ct = some ct₁ → ∃ ct₀, req.ct = some ct₀ ∧ ct₁.state = ct₀.state) ∧
      (outs = [] ∨ outs = [.cancel]) := by
  unfold ctransCancel
  split
  · next ct hct =>
      obtain ⟨ct₀, hct₀, hcancel⟩ := map_eq_some_iff.mp hct
      refine ⟨some ct, _, rfl, by rw [hct₀]; rfl, ?_, .inr rfl⟩
      rintro ct₁ ⟨⟩
      exact ⟨ct₀, hct₀, by rw [Ctrans.cancel_eq hcancel]⟩
  · exact ⟨req.ct, _, rfl, rfl, fun ct₁ hct₁ => ⟨ct₁, hct₁, rfl⟩, .inl rfl⟩

/-- A provisional response is passed on; the first one after a cancellation also makes the
transaction send a CANCEL. -/
theorem provisional_stepped {ct : SipCtrans} (hcall : call.provisional)
    (hstate : ct.state ≠ .COMPLETED)
    (hstateful : req.stateful) (hdnsq : req.dnsq = none) (hdnsq2 : req.dnsq2 = none) :
    Stepped P req (responseHandler sip env { req with ct := some ct } call) := by
  have hany : (call.msg.any fun msg => decide (msg.scode < 200)) = true := by
    obtain ⟨-, msg, hmsg, hcode⟩ := hcall
    simp [hmsg, hcode]
  have hsays : ∀ (ct₁ : SipCtrans) provrecv outs, ct₁.state = ct.state →
      (outs = [] ∨ outs = [.cancel]) →
      Stepped P req (some { req with ct := some ct₁, provrecv },
        outs ++ if req.resph then [.resph call] else []) := by
    intro ct₁ provrecv outs hst houts
    refine .renewed (.trying ct₁ rfl (hst ▸ hstate) hstateful hdnsq hdnsq2) (fun _ => rfl) ?_
    rcases houts with rfl | rfl <;> split <;> simp [hcall]
  unfold responseHandler
  rw [if_pos hany]
  cases hprov : req.provrecv with
  | true =>
    simp only [if_true]
    exact hsays ct true [] rfl (.inl rfl)
  | false =>
    by_cases hcanceled : req.canceled
    · obtain ⟨ct₁, outs, heq, hsome, hsame, houts⟩ :=
        ctransCancel_spec { req with ct := some ct, provrecv := true }
      obtain ⟨ct₁, rfl⟩ := isSome_iff_exists.mp hsome
      obtain ⟨ct₀, hct₀, hst⟩ := hsame ct₁ rfl
      cases hct₀
      rw [if_pos hcanceled, heq]
      exact hsays ct₁ true outs hst houts
    · rw [if_neg hcanceled]
      exact hsays ct true [] rfl (.inl rfl)

/-- An outcome of the transaction: the next address is tried, or the request ends. -/
theorem outcome_stepped (hcall : ¬ call.msg.any fun msg => msg.scode < 200)
    (hdnsq : req.dnsq = none) (hdnsq2 : req.dnsq2 = none) :
    Stepped True req (responseHandler sip env { req with ct } call) := by
  have hlists : req.lists = ⟨req.addrl, req.srvl⟩ := by simp [hdnsq, hdnsq2]
  have hbudget : budget req = 2 * req.srvl.length := by simp [budget, stage, hdnsq]
  unfold responseHandler
  rw [if_neg hcall]
  dsimp only
  split
  · have hgoes : Unbound { req with ct := none } := ⟨rfl, hdnsq, hdnsq2⟩
    obtain ⟨hwent, hcalls⟩ := requestNext_spec sip env req.srvl 0 _ hgoes
    generalize requestNext sip env req.srvl 0 { req with ct := none } = r at *
    obtain ⟨next, outs⟩ := r
    unfold Stepped
    rw [hlists, hbudget]
    cases next with
    | goesOn _ | gone => exact hwent
    | error err req₁ => exact hwent.ends hcalls req₁ (some err) call.msg
  · exact (Went.nothing (P := True)).ends rfl { req with ct := none } call.err call.msg

theorem respond_one (sip : SipStack) (env : Env) (req : SipRequest) (call : RespCall) :
    respond sip env req [call] = responseHandler sip env req call := by
  rw [respond]
  cases hrun : responseHandler sip env req call with
  | mk res outs =>
    cases res with
    | none => rfl
    | some req₁ => simp only [respond, List.append_nil]

/-- An event at the transaction. -/
theorem ct_stepped (sip : SipStack) (env : Env) (e : CtEvent) (hphase : Phase req) :
    Stepped req.pending req (reqStep sip req (.ct e env)) := by
  have hsame := Stepped.refl hphase
  simp only [reqStep]
  cases hphase with
  | asking _ _ _ _ hct _ _ _ | looking _ _ _ hct | idle hct _ _ => simpa [hct] using hsame
  | trying ct hct hstate hstateful hdnsq hdnsq2 =>
    have hreported := @Ctrans.reported_step sip.software ct hstate e
    rw [hct]
    dsimp only
    generalize ctransStep sip.software ct e = r at hreported ⊢
    obtain ⟨ct', ctOuts⟩ := r
    cases hreported with
    | silent ct₁ hct₁ hstate₁ hcalls =>
      subst hct₁
      rw [hcalls]
      exact .renewed (.trying ct₁ rfl hstate₁ hstateful hdnsq hdnsq2) (fun _ => rfl) (by simp)
    | provisional ct₁ msg hct₁ hstate₁ hmsg hcalls =>
      subst hct₁
      rw [hcalls, respond_one]
      exact provisional_stepped ⟨rfl, msg, rfl, hmsg⟩ hstate₁ hstateful hdnsq hdnsq2
    | outcome call hcall hcalls =>
      rw [hcalls, respond_one]
      exact (outcome_stepped hcall hdnsq hdnsq2).weaken fun _ => trivial

/-- The phase of a request with no transaction but its own, or none. -/
theorem Phase.cancel (h : Phase req)
    (hct : ∀ ct₁, ct = some ct₁ → ∃ ct₀, req.ct = some ct₀ ∧ ct₁.state = ct₀.state) :
    Phase { req with ct, canceled, reqp, resph } := by
  have hnone : req.ct = none → ct = none := by
    intro hno
    cases ct with
    | none => rfl
    | some ct₁ => simpa [hno] using hct ct₁ rfl
  cases h with
  | asking handler hne hdnsq hdnsq2 hct₀ haddrl hsrvl hcachel =>
    exact .asking handler hne hdnsq hdnsq2 (hnone hct₀) haddrl hsrvl hcachel
  | looking hwaits hdnsq hdnsq2 hct₀ => exact .looking hwaits hdnsq hdnsq2 (hnone hct₀)
  | idle hct₀ hdnsq hdnsq2 => exact .idle (hnone hct₀) hdnsq hdnsq2
  | trying ct₀ hct₀ hstate hstateful hdnsq hdnsq2 =>
    cases ct with
    | none => exact .idle rfl hdnsq hdnsq2
    | some ct₁ =>
      obtain ⟨ct₂, hct₂, hst⟩ := hct ct₁ rfl
      cases hct₀.symm.trans hct₂
      exact .trying ct₁ rfl (by rw [hst]; exact hstate) hstateful hdnsq hdnsq2

/-- Cancelling, with or without letting go of the request. -/
theorem cancel_stepped (reqp resph : Bool) (hphase : Phase req) :
    Stepped False req (some (sipRequestCancel { req with reqp, resph }).1,
      (sipRequestCancel { req with reqp, resph }).2) := by
  unfold sipRequestCancel
  split
  · exact .renewed (hphase.cancel fun ct₁ hct₁ => ⟨ct₁, hct₁, rfl⟩) False.elim (by simp)
  dsimp only
  split
  · obtain ⟨ct, outs, heq, -, hsame, houts⟩ := ctransCancel_spec
      { req with reqp, resph, canceled := true }
    rw [heq]
    exact .renewed (hphase.cancel hsame) False.elim (by rcases houts with rfl | rfl <;> simp)
  · exact .renewed (hphase.cancel (by simp)) False.elim (by simp)

/-- Every event at a request. -/
theorem reqStep_stepped (sip : SipStack) (e : Event) (hphase : Phase req) :
    Stepped False req (reqStep sip req e) := by
  have hsame : Stepped False req (some req, []) := (Stepped.refl hphase).weaken False.elim
  cases e with
  | answer second err ansl addl env =>
    exact (answer_stepped sip env second err ansl addl hphase).weaken False.elim
  | ct e env => exact (ct_stepped sip env e hphase).weaken False.elim
  | cancel =>
    simp only [reqStep]
    split
    · exact cancel_stepped req.reqp req.resph hphase
    · exact hsame
  | drop =>
    simp only [reqStep, release]
    split
    · split
      · exact cancel_stepped false false hphase
      · exact hsame.gone
    · exact hsame
  | close => exact hsame.ends rfl req (some .ECONNABORTED) none

/-! ## Whole runs -/

/-- What holds of a request and its log. -/
abbrev Ran (r : Option SipRequest × List Out) : Prop :=
  Went False ⟨[], []⟩ (sipTransps.length + 3) 1 r.1 r.2

/-- One more step. -/
theorem Ran.step (h : Ran (some req, log)) (hstep : Stepped False req r) :
    Ran (r.1, log ++ r.2) := by
  have hlists := (h.left req rfl).lists
  exact .after log h.order (h.told req rfl) (hlists ▸ hstep) h.queries h.attempts

/-- The request that is there after its first step, whether it returned an error or not. -/
def Next.left : Next → Option SipRequest
  | .goesOn req => some req
  | .gone => none
  | .error _ req => some req

theorem sent_left (env : Env) (req : SipRequest) : (sent env req).left = (sent env req).res := by
  unfold sent
  split <;> rfl

theorem Asks.ran {q a : Nat} {r : Option Errno × SipRequest × List Out} (h : Asks ⟨[], []⟩ q a r)
    (hq : q ≤ sipTransps.length + 3) (ha : a ≤ 1) : Ran ((nextOf r).1.left, (nextOf r).2) := by
  obtain ⟨err, req', outs⟩ := r
  cases err <;> exact (h.went.mono hq ha).weaken False.elim

/-- The first step of a request. -/
theorem firstStep_ran (sip : SipStack) (env : Env) (args : Args) (hreq : Fresh req) :
    Ran ((firstStep sip env req args).1.left, (firstStep sip env req args).2) := by
  have hlists : (⟨[], []⟩ : Lists) = ⟨req.addrl, req.srvl⟩ := by rw [hreq.addrl, hreq.srvl]
  unfold firstStep
  split
  · split
    · rw [sent_left]
      refine (Went.sent hreq.toUnbound ?_ (by exact hlists) rfl ?_ ?_).weaken False.elim
      · simp
      · simp [hreq.srvl]
      · simp [hreq.addrl, hreq.srvl]
    · exact (hreq.on (by simp) rfl rfl id).mono (by simp) (by simp)
  · split
    · have hgoes : Unbound { req with port := sipTranspPort req.tp args.routePort } :=
        ⟨hreq.ct, hreq.dnsq, hreq.dnsq2⟩
      have hasks := (addrLookup_spec sip env hgoes req.host).asks hreq.addrl
      rw [show Lists.mk [] _ = ⟨[], []⟩ from congrArg (Lists.mk []) hreq.srvl] at hasks
      exact hasks.ran (by simp [hreq.srvl]) (by simp [hreq.srvl])
    · split
      · next htp => exact (srvLookup_asks hreq req.host).ran (by simp [stage, htp]) (zero_le _)
      · split
        · exact (hreq.asks_fails _ (by simp) (le_refl 1)).ran (by simp) (zero_le _)
        · exact (hreq.asks (h := .naptr) (by decide) req.host _).ran (by simp [stage]; omega)
            (zero_le _)

/-- A request with all that it did. -/
def begin (sip : SipStack) (env : Env) (args : Args) : Option SipRequest × List Out :=
  ((sipRequest sip env args).1, (sipRequest sip env args).2.1)

/-- One event; what the stack supports may change from event to event. -/
def run (r : Option SipRequest × List Out) (e : SipStack × Event) : Option SipRequest × List Out :=
  match r.1 with
  | none => r
  | some req => ((reqStep e.1 req e.2).1, r.2 ++ (reqStep e.1 req e.2).2)

theorem begin_ran (sip : SipStack) (env : Env) (args : Args) : Ran (begin sip env args) := by
  unfold begin sipRequest
  cases halloc : sipRequestAlloc sip args with
  | error err => exact .nothing
  | ok req =>
    have hfresh : Fresh req := by
      unfold sipRequestAlloc at halloc
      split at halloc
      · cases halloc
      · split at halloc
        · cases halloc
        · cases halloc
          exact ⟨⟨rfl, rfl, rfl⟩, rfl, rfl, rfl⟩
    have hran := firstStep_ran sip env args hfresh
    dsimp only
    generalize firstStep sip env req args = r at hran ⊢
    obtain ⟨next, outs⟩ := r
    cases next with
    | goesOn _ | gone => exact hran
    | error err req₁ =>
      have hphase := (hran.left req₁ rfl).phase
      unfold release
      dsimp only
      split
      · exact Ran.step hran (cancel_stepped false false hphase)
      · simpa using hran.gone

theorem run_ran (h : Ran r) (e : SipStack × Event) : Ran (run r e) := by
  obtain ⟨now, log⟩ := r
  cases now with
  | none => exact h
  | some req => exact Ran.step h (reqStep_stepped e.1 e.2 (h.left req rfl).phase)

/-! ## Records and attempts -/

/-- How often a record was tried. -/
def tries (rr : Rr) (log : List Out) : Nat :=
  log.countP fun
    | .attempt rr' .. => rr' = some rr
    | _ => false

/-- How often a record was put on the address list. -/
def puts (rr : Rr) (log : List Out) : Nat :=
  (log.map fun
    | .addrs _ addrl => addrl.count rr
    | _ => 0).sum

/-- A record that was put on the address list is tried once, or still there, or given up. -/
theorem tries_add_left {rr : Rr} : ∀ {l : Lists}, InOrder l log →
    tries rr log + (l.afterAll log).addrl.count rr = puts rr log + l.addrl.count rr := by
  induction log with
  | nil => exact fun _ => rfl
  | cons out log ih =>
    intro l h
    have hrest := ih h.2
    have hfirst := h.1
    rw [afterAll_cons]
    cases out with
    | addrs key addrl =>
      have hnil : l.addrl = [] := hfirst.1
      simp only [tries, puts, Lists.after, hnil, countP_cons, map_cons, sum_cons,
        count_nil] at hrest ⊢
      simp only [Bool.false_eq_true, if_false]
      omega
    | attempt rr' tp dst err =>
      cases rr' with
      | none => simpa [tries, puts] using hrest
      | some rr' =>
        obtain ⟨rest, hl⟩ : ∃ rest, l.addrl = rr' :: rest := by
          have hhead : l.addrl.head? = some rr' := hfirst
          cases hl : l.addrl with
          | nil => rw [hl] at hhead; cases hhead
          | cons x rest => rw [hl] at hhead; cases hhead; exact ⟨rest, rfl⟩
        simp only [tries, puts, Lists.after, hl, tail_cons, countP_cons, map_cons, sum_cons,
          count_cons, decide_eq_true_eq, some.injEq, beq_iff_eq] at hrest ⊢
        omega
    | query _ _ _
    | answer _ _
    | srvs _ _ | srv _ | cached _ | cancel | resph _ => simpa [tries, puts] using hrest

/-- In every run of a request, with any answers and any outcomes of its transactions, the
response handler is called with one outcome at most and not after it; records are taken in
the order of their sorted lists, and each is tried at most once for every time it was put
on the address list; and transports and received records bound the queries and the
transactions that were tried to start. -/
theorem request_failover (sip : SipStack) (env : Env) (args : Args)
    (events : List (SipStack × Event)) :
    OneOutcome (calls (events.foldl run (begin sip env args)).2) ∧
      InOrder ⟨[], []⟩ (events.foldl run (begin sip env args)).2 ∧
      (∀ rr, tries rr (events.foldl run (begin sip env args)).2 ≤ puts rr
        (events.foldl run (begin sip env args)).2) ∧
      queries (events.foldl run (begin sip env args)).2 ≤
        sipTransps.length + 3 + 2 * received (events.foldl run (begin sip env args)).2 ∧
      attempts (events.foldl run (begin sip env args)).2 ≤
        1 + received (events.foldl run (begin sip env args)).2 +
          received (events.foldl run (begin sip env args)).2 * received
            (events.foldl run (begin sip env args)).2 := by
  have hran : ∀ r : Option SipRequest × List Out, Ran r → Ran (events.foldl run r) := by
    induction events with
    | nil => exact fun r h => h
    | cons e events ih => exact fun r h => ih (run r e) (run_ran h e)
  have h := hran _ (begin_ran sip env args)
  generalize events.foldl run (begin sip env args) = r at h
  refine ⟨h.once, h.order, ?_, (le_add_right _ _).trans h.queries,
    (le_add_right _ _).trans h.attempts⟩
  intro rr
  have hcount : tries rr r.2 + _ = puts rr r.2 + _ := tries_add_left h.order
  simp only [count_nil] at hcount
  omega

/-! ## One address behind two SRV records

Two servers on one host have one address record between them, which is tried for each of
them, at its port. -/

/-- A stack with UDP over IPv4. -/
def udpStack : SipStack where
  supported tp af := tp = .UDP ∧ af ≠ some .inet6
  tpDef := none
  getaddrinfoOnly := false
  software := none

/-- Two servers on the host `t`. -/
def twoServers : List Rr :=
  [{ key := 0, rr := { name := [115], dnsclass := 1, ttl := 60, rdlen := 0,
                       rdata := .srv 1 0 5060 [116] } },
   { key := 1, rr := { name := [115], dnsclass := 1, ttl := 60, rdlen := 0,
                       rdata := .srv 2 0 5080 [116] } }]

/-- The address of `t`. -/
def hostAddr : Rr := { key := 2, rr := { name := [116], dnsclass := 1, ttl := 60, rdlen := 4,
                                         rdata := .a 0x7f000001 } }

/-- A request to `sip:s;transport=udp`. -/
def udpArgs : Args where
  isSip := true
  met := "OPTIONS"
  host := [115]
  hostSa := none
  routePort := 0
  dlgTp := none
  transport := some (some .UDP)
  stateful := true
  reqp := true
  resph := true
  sortkey := 0

/-- The message of the example. -/
def optionsMsg : SipMsg where
  tp := .UDP
  met := "OPTIONS"
  ruri := "sip:s"
  scode := 0
  viaVal := ""
  viaBranch := "z9hG4bK1"
  viaSentby := ""
  toVal := ""
  toTag := ""
  fromVal := ""
  fromTag := ""
  callid := "1"
  cseqNum := 1
  cseqMet := "OPTIONS"
  routes := []
  tag := 0

/-- Queries are accepted; the first attempt in a step fails. -/
def firstFails : Env where
  send n := if n = 0 then some .ECONNRESET else none
  query _ := none
  busy _ := false
  branch := "z9hG4bK1"
  msg := optionsMsg

/-- A record may be tried more than once: it is put on the address list again for another
SRV record with the same target. -/
theorem record_tried_twice :
    ¬ ∀ (sip : SipStack) (env : Env) (args : Args) (events : List (SipStack × Event)) (rr : Rr),
      tries rr (events.foldl run (begin sip env args)).2 ≤ 1 := by
  intro h
  have hbound := h udpStack firstFails udpArgs
    [(udpStack, .answer false none twoServers [hostAddr] firstFails)] hostAddr
  revert hbound
  decide +kernel

end LibRe.Sip.Request
