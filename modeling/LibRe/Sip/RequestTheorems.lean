/-
LibRe.Sip.RequestTheorems — how a request goes through its records.

Three things are followed along a run. `InOrder` reads the log: the lists were in order
when they were set, and every record taken was the first one left. `budget` and `stock` are
what a request may still spend on queries and on attempts: each query and each attempt
lowers them, and only records that are received raise them. The calls of the response
handler are provisional as long as the request is there.
-/
import LibRe.Sip.CtransTheorems
import LibRe.Sip.Request

namespace LibRe.Sip.Request

open Dns Machine List Option Nat
open Sip.Ctrans (SipCtrans RespCall CtEvent ctransStep respCalls sipCtransRequest
  sipCtransCancel OneOutcome)

variable {err : Option Errno} {outs : List Out}

/-! ## What a log says -/

@[simp] def Out.isQuery : Out → Bool
  | .query .. => true
  | _ => false

@[simp] def Out.isAttempt : Out → Bool
  | .attempt .. => true
  | _ => false

/-- The number of records in an answer. -/
@[simp] def Out.records : Out → Nat
  | .answer ansl addl => ansl.length + addl.length
  | _ => 0

@[simp] def Out.call? : Out → Option RespCall
  | .resph call => some call
  | _ => none

/-- The queries that were started, or tried to. -/
def queries (log : List Out) : Nat := log.countP Out.isQuery

/-- How often an address was tried. -/
def attempts (log : List Out) : Nat := log.countP Out.isAttempt

/-- The records received. -/
def received (log : List Out) : Nat := (log.map Out.records).sum

/-- The calls of the user's response handler. -/
def calls (log : List Out) : List RespCall := log.filterMap Out.call?

@[simp] theorem queries_nil : queries [] = 0 := rfl
@[simp] theorem attempts_nil : attempts [] = 0 := rfl
@[simp] theorem received_nil : received [] = 0 := rfl
@[simp] theorem calls_nil : calls [] = [] := rfl

@[simp] theorem queries_append (a b : List Out) : queries (a ++ b) = queries a + queries b :=
  countP_append
@[simp] theorem attempts_append (a b : List Out) : attempts (a ++ b) = attempts a + attempts b :=
  countP_append
@[simp] theorem received_append (a b : List Out) : received (a ++ b) = received a + received b := by
  simp [received]
@[simp] theorem calls_append (a b : List Out) : calls (a ++ b) = calls a ++ calls b :=
  filterMap_append

@[simp] theorem queries_cons (out : Out) (log : List Out) :
    queries (out :: log) = queries log + out.isQuery.toNat := by
  rw [queries, countP_cons]
  cases out.isQuery <;> rfl

@[simp] theorem attempts_cons (out : Out) (log : List Out) :
    attempts (out :: log) = attempts log + out.isAttempt.toNat := by
  rw [attempts, countP_cons]
  cases out.isAttempt <;> rfl

@[simp] theorem received_cons (out : Out) (log : List Out) :
    received (out :: log) = out.records + received log := rfl

@[simp] theorem calls_cons (out : Out) (log : List Out) :
    calls (out :: log) = out.call?.toList ++ calls log := by
  rw [calls, filterMap_cons]
  cases out.call? <;> rfl

/-! ## The order of attempts -/

/-- The address list and the SRV list. -/
structure Lists where
  addrl : List Rr
  srvl : List Rr

variable {l : Lists}

/-- What is left of the lists. -/
@[simp] def Lists.after (l : Lists) : Out → Lists
  | .addrs _ addrl => { l with addrl }
  | .srvs _ srvl => { l with srvl }
  | .attempt (some _) .. => { l with addrl := l.addrl.tail }
  | .srv _ => { l with srvl := l.srvl.tail }
  | _ => l

/-- A list is set when nothing is left of the one before, and is in order; a record that is
taken is the first of its list. -/
@[simp] def Lists.allows (l : Lists) : Out → Prop
  | .addrs key addrl =>
    l.addrl = [] ∧ addrl.Pairwise fun x y => addrRank (sortKey key) x ≤ addrRank (sortKey key) y
  | .srvs key srvl =>
    l.srvl = [] ∧ srvl.Pairwise fun x y => srvRank (sortKey key) x ≤ srvRank (sortKey key) y
  | .attempt (some rr) .. => l.addrl.head? = some rr
  | .srv rr => l.srvl.head? = some rr
  | _ => True

def Lists.afterAll (l : Lists) (log : List Out) : Lists := log.foldl Lists.after l

/-- Every record that is taken is the first one left of its list, and gone then. -/
def InOrder : Lists → List Out → Prop
  | _, [] => True
  | l, out :: log => l.allows out ∧ InOrder (l.after out) log

@[simp] theorem afterAll_nil (l : Lists) : l.afterAll [] = l := rfl

@[simp] theorem afterAll_cons (l : Lists) (out : Out) (log : List Out) :
    l.afterAll (out :: log) = (l.after out).afterAll log := rfl

@[simp] theorem afterAll_append (l : Lists) (a b : List Out) :
    l.afterAll (a ++ b) = (l.afterAll a).afterAll b :=
  foldl_append

@[simp] theorem inOrder_nil (l : Lists) : InOrder l [] := trivial

@[simp] theorem inOrder_cons (l : Lists) (out : Out) (log : List Out) :
    InOrder l (out :: log) ↔ l.allows out ∧ InOrder (l.after out) log := Iff.rfl

theorem inOrder_append {a b : List Out} : InOrder l (a ++ b) ↔
    InOrder l a ∧ InOrder (l.afterAll a) b := by
  induction a generalizing l with
  | nil => simp
  | cons out a ih =>
    rw [cons_append, inOrder_cons, ih, inOrder_cons, afterAll_cons, and_assoc]

/-! ## What a request may still spend -/

/-- The queries that the pending one may lead to. -/
def stage (req : SipRequest) : Nat :=
  match req.dnsq with
  | some .naptr => sipTransps.length + 2
  | some .srv => if req.tpSelected then 2 else transpIndex req.tp + 2
  | _ => 0

/-- Every SRV record may lead to two queries. -/
def budget (req : SipRequest) : Nat := stage req + 2 * req.srvl.length

/-- Every SRV record may put all records that were kept on the address list. -/
@[simp] def stock (req : SipRequest) : Nat := req.addrl.length + req.srvl.length * req.cachel.length

/-- A query is pending. -/
@[simp] def SipRequest.waits (req : SipRequest) : Bool := req.dnsq.isSome || req.dnsq2.isSome

/-- A query or a transaction is there that will go on with the request. -/
def SipRequest.pending (req : SipRequest) : Prop := req.waits ∨ req.ct.isSome

/-- The lists that are gone through; addresses that come in while a query is pending are
not yet among them. -/
@[simp] def SipRequest.lists (req : SipRequest) : Lists where
  addrl := if req.waits then [] else req.addrl
  srvl := req.srvl

/-- What a request waits for: a NAPTR or SRV answer, address answers, its transaction, or
nothing. -/
inductive Phase (req : SipRequest) : Prop where
  | asking (h : DnsHandler) (hh : h ≠ .addr) (dnsq : req.dnsq = some h) (dnsq2 : req.dnsq2 = none)
      (ct : req.ct = none)
      (addrl : req.addrl = []) (srvl : req.srvl = []) (cachel : req.cachel = [])
  | looking (waits : req.waits) (dnsq : req.dnsq ≠ .none → req.dnsq = some .addr)
      (dnsq2 : req.dnsq2 ≠ .none → req.dnsq2 = some .addr) (ct : req.ct = none)
  | trying (ct : SipCtrans) (hct : req.ct = some ct) (state : ct.state ≠ .COMPLETED)
      (stateful : req.stateful) (dnsq : req.dnsq = none) (dnsq2 : req.dnsq2 = none)
  | idle (ct : req.ct = none) (dnsq : req.dnsq = none) (dnsq2 : req.dnsq2 = none)

/-- Neither a query nor a transaction. -/
structure Unbound (req : SipRequest) : Prop where
  ct : req.ct = none
  dnsq : req.dnsq = none
  dnsq2 : req.dnsq2 = none

variable {sip : SipStack} {env : Env} {req : SipRequest}

theorem Unbound.lists (h : Unbound req) : req.lists = { addrl := req.addrl, srvl := req.srvl } := by
  unfold SipRequest.lists SipRequest.waits
  rw [h.dnsq, h.dnsq2]
  rfl

theorem Unbound.stage (h : Unbound req) : stage req = 0 := by
  unfold Request.stage
  rw [h.dnsq]

/-- A request as it is left, with what is left of the lists. -/
structure Left (P : Prop) (l : Lists) (req : SipRequest) : Prop where
  phase : Phase req
  lists : req.lists = l
  pending : P → req.pending

/-- What is done from the lists `l` on, and the request that is left: the log goes on in
order, `q` queries and `a` attempts may be spent besides those that received records pay
for, and the user is told provisional responses while the request is there and at most one
outcome behind them. With `P` something is pending. -/
structure Went (P : Prop) (l : Lists) (q a : Nat) (res : Option SipRequest) (outs : List Out) :
    Prop where
  order : InOrder l outs
  left : ∀ req, res = some req → Left P (l.afterAll outs) req
  queries : queries outs + res.elim 0 budget ≤ q + 2 * received outs
  attempts : attempts outs + res.elim 0 stock ≤ a + received outs + received outs * received outs
  told : ∀ req, res = some req → ∀ call ∈ calls outs, call.provisional
  once : OneOutcome (calls outs)

variable {P Q : Prop} {q a q₁ a₁ : Nat} {now : Option SipRequest} {req' : SipRequest}

theorem Went.mono (h : Went P l q a now outs) (hq : q ≤ q₁) (ha : a ≤ a₁) :
    Went P l q₁ a₁ now outs :=
  { h with queries := by have := h.queries; omega, attempts := by have := h.attempts; omega }

theorem oneOutcome_nil : OneOutcome [] := Ctrans.oneOutcome_of_provisional (by simp)

/-- A request that goes on and has told nothing. -/
theorem Went.on (horder : InOrder l outs) (hleft : Left P (l.afterAll outs) req')
    (hcalls : Request.calls outs = [])
    (hq : Request.queries outs + budget req' ≤ q) (ha : Request.attempts outs + stock req' ≤ a) :
    Went P l q a (some req') outs :=
  ⟨horder, by simp [hleft], by simp only [elim_some]; omega, by simp only [elim_some]; omega,
    by simp [hcalls], hcalls ▸ oneOutcome_nil⟩

/-- The request has come to nothing. -/
theorem Went.gone (h : Went Q l q a now outs) : Went P l q a none outs :=
  ⟨h.order, by simp, by have := h.queries; simp only [elim_none]; omega,
    by have := h.attempts; simp only [elim_none]; omega, by simp, h.once⟩

theorem Went.nothing : Went P l q a none [] :=
  ⟨trivial, by simp, by simp, by simp, by simp, oneOutcome_nil⟩

/-- Something is done first, and then the rest. -/
theorem Went.after (first : List Out) (hfirst : InOrder l first)
    (hprov : ∀ call ∈ Request.calls first, call.provisional)
    (h : Went P (l.afterAll first) q₁ a₁ now outs)
    (hq : Request.queries first + q₁ ≤ q + 2 * Request.received first)
    (ha : Request.attempts first + a₁ ≤ a + Request.received first + Request.received first *
      Request.received first) :
    Went P l q a now (first ++ outs) := by
  have hq₁ := h.queries
  have ha₁ := h.attempts
  refine ⟨inOrder_append.mpr ⟨hfirst, h.order⟩, by simpa using h.left, ?_, ?_, ?_, ?_⟩
  · simp only [queries_append, received_append]
    omega
  · simp only [attempts_append, received_append]
    nlinarith
  · intro req hreq call hcall
    rw [calls_append] at hcall
    exact (mem_append.mp hcall).elim (hprov call) (h.told req hreq call)
  · obtain ⟨prov, fin, heq, hp, hf, hlen⟩ := h.once
    refine ⟨Request.calls first ++ prov, fin, by rw [calls_append, heq, append_assoc], ?_, hf, hlen⟩
    exact fun call hcall => (mem_append.mp hcall).elim (hprov call) (hp call)

/-- The request ends after something was done. -/
theorem Went.ends (h : Went Q l q a now outs) (hcalls : Request.calls outs = []) (req : SipRequest)
    (err : Option Errno)
    (msg : Option SipMsg) : Went P l q a none (outs ++ terminate req err msg) := by
  have hgone : Went P l q a none outs := h.gone
  unfold terminate
  split
  · refine ⟨inOrder_append.mpr ⟨h.order, by simp⟩, by simp, by simpa using hgone.queries,
      by simpa using hgone.attempts, by simp, ?_⟩
    by_cases hcall : RespCall.provisional ⟨err, msg⟩
    · exact Ctrans.oneOutcome_of_provisional (by simp [hcalls, hcall])
    · have hnone : ∀ call ∈ ([] : List RespCall), call.provisional := by simp
      simpa [hcalls] using Ctrans.oneOutcome_concat hnone hcall
  · simpa using hgone

/-! ## Records that are put on a list -/

/-- What is appended: each record once, and none that is on the list already. -/
theorem rrAppend_eq (busy : Rr → Bool) (rrs : List Rr) :
    ∀ lst, ∃ new, rrAppend busy lst rrs = lst ++ new ∧ new.Nodup ∧ (∀ x ∈ new, x ∉ lst) ∧ ∀ x ∈ new,
    x ∈ rrs := by
  induction rrs with
  | nil =>
    exact fun lst => ⟨[], (List.append_nil _).symm, nodup_nil, (fun _ h => nomatch h),
      fun _ h => nomatch h⟩
  | cons r rrs ih =>
    intro lst
    have hkeep : rrAppendHandler busy lst r = lst ∨ rrAppendHandler busy lst r = lst ++ [r] ∧
        r ∉ lst := by
      unfold rrAppendHandler
      split
      · grind
      · grind
      · grind
      · exact .inl rfl
    show ∃ new, rrAppend busy (rrAppendHandler busy lst r) rrs = _ ∧ _
    rcases hkeep with hkeep | ⟨hkeep, hr⟩
    · rw [hkeep]
      obtain ⟨new, heq, hnodup, hout, hin⟩ := ih lst
      exact ⟨new, heq, hnodup, hout, fun x hx => mem_cons_of_mem _ (hin x hx)⟩
    rw [hkeep]
    obtain ⟨new, heq, hnodup, hout, hin⟩ := ih (lst ++ [r])
    refine ⟨r :: new, by rw [heq, append_assoc]; rfl, ?_, ?_, ?_⟩
    · exact nodup_cons.mpr ⟨fun hmem => hout r hmem (by simp), hnodup⟩
    · intro x hx
      rcases mem_cons.mp hx with rfl | hx
      · exact hr
      · exact fun hmem => hout x hx (mem_append_left _ hmem)
    · intro x hx
      rcases mem_cons.mp hx with rfl | hx
      · exact mem_cons_self
      · exact mem_cons_of_mem _ (hin x hx)

/-- A walk puts no more on a list than there is. -/
theorem length_rrAppend_le (busy : Rr → Bool) (lst rrl : List Rr) (name : Option Bytes)
    (q : RrSearch) :
    (rrAppend busy lst (rrlistApply rrl name q)).length ≤ lst.length + rrl.length := by
  obtain ⟨new, heq, hnodup, -, hin⟩ := rrAppend_eq busy (rrlistApply rrl name q) lst
  rw [heq, length_append]
  exact Nat.add_le_add_left (hnodup.subperm fun x hx => mem_rrlistApply (hin x hx)).length_le _

/-! ## Queries -/

/-- Queries spend nothing else and tell nothing. -/
theorem of_queries (h : ∀ out ∈ outs, out.isQuery) :
    queries outs = outs.length ∧ attempts outs = 0 ∧ received outs = 0 ∧ calls outs = [] ∧
      ∀ l, InOrder l outs ∧ l.afterAll outs = l := by
  induction outs with
  | nil => simp
  | cons out outs ih =>
    have hrest := ih fun o ho => h o (mem_cons_of_mem _ ho)
    have hout := h out mem_cons_self
    cases out <;> simp_all

/-- Address queries at most, and no transaction. -/
theorem Phase.of_addr (hct : req.ct = none) (hdnsq : req.dnsq ≠ none → req.dnsq = some .addr)
    (hdnsq2 : req.dnsq2 ≠ none → req.dnsq2 = some .addr) : Phase req := by
  by_cases hwaits : req.waits
  · exact .looking hwaits hdnsq hdnsq2 hct
  · simp only [SipRequest.waits, Bool.or_eq_true, not_or, Bool.not_eq_true, isSome_eq_false_iff,
      isNone_iff_eq_none] at hwaits
    exact .idle hct hwaits.1 hwaits.2

/-- The request that `addr_lookup` leaves, and what it did. -/
structure Looked (req : SipRequest) (r : Option Errno × SipRequest × List Out) : Prop where
  same : ∃ dnsq dnsq2, r.2.1 = { req with dnsq, dnsq2 }
  phase : Phase r.2.1
  waits : r.1 = none → r.2.1.waits
  stage : Request.stage r.2.1 = 0
  few : r.2.2.length ≤ 2
  queries : ∀ out ∈ r.2.2, out.isQuery

/-- One specification of `addr_lookup`. -/
theorem addrLookup_spec (sip : SipStack) (env : Env) (hreq : Unbound req) (name : Bytes) :
    Looked req (addrLookup sip env req name) := by
  obtain ⟨hct, hdnsq, hdnsq2⟩ := hreq
  unfold addrLookup addrLookup6
  cases h4 : sip.supported req.tp (some .inet) <;> cases h6 : sip.supported req.tp (some .inet6) <;>
    cases h0 : env.query 0 <;> cases h1 : env.query 1
  all_goals
    simp only [hdnsq, hdnsq2, Bool.false_eq_true, if_true, if_false, and_self,
      reduceCtorEq, false_and]
    refine ⟨⟨_, _, rfl⟩, Phase.of_addr hct ?_ ?_, ?_, ?_, ?_, ?_⟩
    all_goals simp [Request.stage, hdnsq, hdnsq2]

/-- A call that may fail: what it did told the user nothing. -/
structure Asks (l : Lists) (q a : Nat) (r : Option Errno × SipRequest × List Out) : Prop where
  went : Went (r.1 = none) l q a (some r.2.1) r.2.2
  calls : calls r.2.2 = []

variable {r : Option Errno × SipRequest × List Out} {addl ansl : List Rr} {m : Nat}

theorem Looked.asks (h : Looked req r) (haddrl : req.addrl = []) :
    Asks ⟨[], req.srvl⟩ (2 + 2 * req.srvl.length) (req.srvl.length * req.cachel.length) r := by
  obtain ⟨hsame, hphase, hwaits, hstage, hfew, hall⟩ := h
  obtain ⟨err, req', outs⟩ := r
  obtain ⟨dnsq, dnsq2, rfl⟩ := hsame
  obtain ⟨hqueries, hattempts, -, hcalls, horder⟩ := of_queries hall
  dsimp only at hstage hfew hqueries
  refine ⟨.on (horder _).1 ⟨hphase, ?_, fun h => .inl (hwaits h)⟩ hcalls ?_ ?_, hcalls⟩
  · simp [(horder _).2, haddrl]
  · dsimp only [budget]
    omega
  · simp [hattempts, haddrl]

/-- The lists are still empty. -/
structure Fresh (req : SipRequest) : Prop extends Unbound req where
  addrl : req.addrl = []
  srvl : req.srvl = []
  cachel : req.cachel = []

/-- A first query is started. -/
theorem Fresh.asks (hreq : Fresh req) {h : DnsHandler} (hh : h ≠ .addr) (name : Bytes)
    (type : UInt16) :
    Asks ⟨[], []⟩ (1 + stage { req with dnsq := some h }) 0 (none, { req with dnsq := some h },
      [.query name type none]) := by
  refine ⟨.on (by simp) ⟨?_, ?_, fun _ => .inl rfl⟩ rfl ?_ ?_, rfl⟩
  · exact .asking h hh rfl hreq.dnsq2 hreq.ct hreq.addrl hreq.srvl hreq.cachel
  · simp [hreq.srvl]
  · simp [budget, hreq.srvl]
  · simp [hreq.addrl, hreq.srvl]

/-- Nothing comes of a first query or a first attempt. -/
theorem Fresh.on (hreq : Fresh req) (horder : InOrder ⟨[], []⟩ outs)
    (hafter : Lists.afterAll ⟨[], []⟩ outs = ⟨[], []⟩)
    (hcalls : calls outs = []) (hP : ¬ P) : Went P ⟨[], []⟩ (queries outs) (attempts outs)
    (some req) outs := by
  refine .on horder ⟨.idle hreq.ct hreq.dnsq hreq.dnsq2, ?_, fun h => absurd h hP⟩ hcalls ?_ ?_
  · rw [hafter, hreq.lists, hreq.addrl, hreq.srvl]
  · simp [budget, hreq.stage, hreq.srvl]
  · simp [hreq.addrl, hreq.srvl]

theorem Fresh.asks_fails (hreq : Fresh req) (err : Errno) (hall : ∀ out ∈ outs, out.isQuery)
    (hq : outs.length ≤ q) :
    Asks ⟨[], []⟩ q 0 (some err, req, outs) := by
  obtain ⟨hqueries, hattempts, -, hcalls, horder⟩ := of_queries hall
  exact ⟨(hreq.on (horder _).1 (horder _).2 hcalls (by simp)).mono (by omega) (by omega), hcalls⟩

theorem srvLookup_asks (hreq : Fresh req) (domain : Bytes) :
    Asks ⟨[], []⟩ (1 + stage { req with dnsq := some .srv }) 0 (srvLookup env req domain) := by
  unfold srvLookup
  dsimp only
  split
  · exact hreq.asks_fails _ (by simp) (zero_le _)
  · split
    · exact hreq.asks_fails _ (by simp) (le_add_right 1 _)
    · exact hreq.asks (h := .srv) (by decide) _ _

/-! ## `request_next` -/

/-- The addresses that are left. -/
def Tried.rest : Tried → List Rr
  | .sent rest => rest
  | .stuck rest => rest
  | .failed _ => []

/-- The request that is left, if it goes on. -/
def Next.res : Next → Option SipRequest
  | .goesOn req => some req
  | _ => none

/-- The addresses are tried from the first one on. -/
theorem tryAddrs_spec (env : Env) (req : SipRequest) (srvl addrl : List Rr) (n : Nat)
    (err : Option Errno) :
    InOrder ⟨addrl, srvl⟩ (tryAddrs env req n err addrl).2 ∧
      (Lists.mk addrl srvl).afterAll (tryAddrs env req n err addrl).2 =
        ⟨(tryAddrs env req n err addrl).1.rest, srvl⟩ ∧
      attempts (tryAddrs env req n err addrl).2 + (tryAddrs env req n err addrl).1.rest.length =
        addrl.length ∧
      queries (tryAddrs env req n err addrl).2 = 0 ∧
      calls (tryAddrs env req n err addrl).2 = [] := by
  induction addrl generalizing n err with
  | nil => simp [tryAddrs, Tried.rest]
  | cons rr rest ih =>
    unfold tryAddrs
    split
    · simp [Tried.rest]
    split
    · simp [Tried.rest]
      omega
    · next e _ =>
        obtain ⟨horder, hafter, hattempts, hqueries, hcalls⟩ := ih (n + 1) (some e)
        simp [horder, hafter, hqueries, hcalls]
        omega

theorem sipCtransRequest_state (tp : SipTransp) (met branch : String) (msg : SipMsg) :
    (sipCtransRequest tp met branch msg).state ≠ .COMPLETED := by
  show (if met = "INVITE" then Ctrans.State.CALLING else Ctrans.State.TRYING) ≠ .COMPLETED
  split <;> decide

/-- No address is left that could be tried. -/
theorem Went.used (horder : InOrder l outs) (hcalls : Request.calls outs = [])
    (hq : Request.queries outs = 0) (ha : Request.attempts outs ≤ a) : Went P l q a none outs :=
  ⟨horder, by simp, by simp [hq], by simp only [elim_none]; omega, by simp, hcalls ▸ oneOutcome_nil⟩

/-- A request has been sent: there is a transaction, or the request is gone. -/
theorem Went.sent (hreq : Unbound req) (horder : InOrder l outs)
    (hafter : l.afterAll outs = ⟨req.addrl, req.srvl⟩)
    (hcalls : Request.calls outs = []) (hq : Request.queries outs + 2 * req.srvl.length ≤ q)
    (ha : Request.attempts outs + stock req ≤ a) : Went True l q a (sent env req).res outs := by
  have hstage := hreq.stage
  unfold Request.sent
  split
  · next hstateful =>
    refine .on horder ⟨.trying _ rfl (sipCtransRequest_state _ _ _ _) hstateful hreq.dnsq
      hreq.dnsq2, ?_, fun _ => .inr rfl⟩
      hcalls ?_ ha
    · simp [hafter, hreq.dnsq, hreq.dnsq2]
    · simp only [budget, Request.stage] at hstage ⊢
      omega
  · have hon : Went False l q a (some req) outs :=
      .on horder ⟨.idle hreq.ct hreq.dnsq hreq.dnsq2, by rw [hafter, hreq.lists], False.elim⟩ hcalls
        (by rw [budget, hstage]; omega) ha
    exact hon.gone

theorem Went.weaken (h : Went P l q a now outs) (hP : Q → P) : Went Q l q a now outs :=
  { h with left := fun req hreq => { h.left req hreq with
    pending := fun hQ => (h.left req hreq).pending (hP hQ) } }

theorem Asks.next (h : Asks l q a r) :
    Went True l q a (nextOf r).1.res (nextOf r).2 ∧ Request.calls (nextOf r).2 = [] := by
  obtain ⟨err, req', outs⟩ := r
  cases err with
  | some err => exact ⟨h.went.gone, h.calls⟩
  | none => exact ⟨h.went.weaken fun _ => rfl, h.calls⟩

/-- `request_next` spends two queries for each SRV record at most, and what is in stock. -/
theorem requestNext_spec (sip : SipStack) (env : Env) (srvl : List Rr) (n : Nat) (req : SipRequest)
    (hreq : Unbound req) :
    Went True ⟨req.addrl, srvl⟩ (2 * srvl.length)
        (req.addrl.length + srvl.length * req.cachel.length)
        (requestNext sip env srvl n req).1.res (requestNext sip env srvl n req).2 ∧
      calls (requestNext sip env srvl n req).2 = [] := by
  induction srvl generalizing n req with
  | nil =>
    obtain ⟨horder, hafter, hattempts, hqueries, hcalls⟩ :=
      tryAddrs_spec env req [] req.addrl n none
    rw [requestNext]
    generalize tryAddrs env req n none req.addrl = r at *
    obtain ⟨tried, outs⟩ := r
    have hle : attempts outs ≤ req.addrl.length := le.intro hattempts
    cases tried with
    | sent rest =>
      refine ⟨.sent ⟨hreq.ct, hreq.dnsq, hreq.dnsq2⟩ horder hafter hcalls (by simp [hqueries]) ?_,
        hcalls⟩
      dsimp only [stock, Tried.rest] at hattempts ⊢
      omega
    | stuck _ | failed _ => exact ⟨.used horder hcalls hqueries (le_add_right_of_le hle), hcalls⟩
  | cons rr srvl ih =>
    obtain ⟨horder, hafter, hattempts, hqueries, hcalls⟩ :=
      tryAddrs_spec env req (rr :: srvl) req.addrl n none
    rw [requestNext]
    generalize tryAddrs env req n none req.addrl = r at *
    obtain ⟨tried, outs⟩ := r
    have hle : attempts outs ≤ req.addrl.length := le.intro hattempts
    have hmul : (srvl.length + 1) * req.cachel.length = srvl.length * req.cachel.length +
        req.cachel.length := succ_mul _ _
    cases tried with
    | sent rest =>
      refine ⟨.sent ⟨hreq.ct, hreq.dnsq, hreq.dnsq2⟩ horder hafter hcalls (by simp [hqueries]) ?_,
        hcalls⟩
      dsimp only [stock, Tried.rest] at hattempts ⊢
      omega
    | stuck rest => exact ⟨.used horder hcalls hqueries (le_add_right_of_le hle), hcalls⟩
    | failed err =>
      -- the addresses are used up, and the SRV record is taken from its list
      dsimp only [Tried.rest] at hafter hattempts
      have hgoes : ∀ port addrl srvl, Unbound
          { req with port, addrl, srvl, provrecv := req.provrecv && req.addrl.isEmpty } :=
        fun _ _ _ => ⟨hreq.ct, hreq.dnsq, hreq.dnsq2⟩
      have hlength := length_rrAppend_le (fun r => env.busy r || (rr :: srvl).contains r)
        [] req.cachel (some (srvData rr).2)
        { type1 := RrType.A.code, type2 := RrType.AAAA.code, dnsclass := dnsClassIn,
          recurse := true }
      dsimp only
      split
      · obtain ⟨hperm, hsorted⟩ := dnsRrlistSortAddr_spec (srvAddrs env req (rr :: srvl)
          (srvData rr).2) req.sortkey
        generalize dnsRrlistSortAddr (srvAddrs env req (rr :: srvl) (srvData rr).2) req.sortkey =
          addrl at hperm hsorted ⊢
        obtain ⟨hwent, hrest⟩ := ih (n + outs.length) _ (hgoes (srvData rr).1 addrl req.srvl)
        have hfirst : InOrder ⟨req.addrl, rr :: srvl⟩
            (outs ++ [.srv rr, .addrs req.sortkey addrl]) :=
          inOrder_append.mpr ⟨horder, by simp [hafter, hsorted]⟩
        have hsplit : ∀ rest : List Out, outs ++ .srv rr :: .addrs req.sortkey addrl :: rest =
            (outs ++ [.srv rr, .addrs req.sortkey addrl]) ++ rest := by simp
        rw [hsplit]
        refine ⟨.after _ hfirst (by simp [hcalls]) (by simpa [hafter] using hwent) ?_ ?_, ?_⟩
        · simp [hqueries]
          omega
        · have hle := hperm.length_eq
          simp [srvAddrs] at hlength hle ⊢
          omega
        · simp [hcalls, hrest]
      · have hlooked := addrLookup_spec sip env (hgoes (srvData rr).1 [] srvl) (srvData rr).2
        obtain ⟨hwent, hrest⟩ := (hlooked.asks rfl).next
        rw [append_cons]
        refine ⟨.after _ (inOrder_append.mpr ⟨horder, by simp [hafter]⟩) (by simp [hcalls])
          (by simpa [hafter] using hwent) ?_ ?_, ?_⟩
        · simp [hqueries]
          omega
        · simp
          omega
        · simp [hcalls, hrest]

/-! ## Answers -/

theorem fail_went (req : SipRequest) (err : Errno) :
    Went P l q a (fail req err).1 (fail req err).2 :=
  (Went.nothing (P := P)).ends rfl req (some err) none

theorem handlerNext_went (sip : SipStack) (env : Env) (hreq : Unbound req) :
    Went True ⟨req.addrl, req.srvl⟩ (2 * req.srvl.length) (stock req) (handlerNext sip env req).1
      (handlerNext sip env req).2 := by
  obtain ⟨hwent, hcalls⟩ := requestNext_spec sip env req.srvl 0 req hreq
  unfold handlerNext
  generalize requestNext sip env req.srvl 0 req = r at *
  obtain ⟨next, outs⟩ := r
  cases next with
  | goesOn _ | gone => exact hwent
  | error err req₁ => exact hwent.ends hcalls req₁ (some err) none

theorem Asks.handler (h : Asks l q a r) :
    Went True l q a (handlerQuery r).1 (handlerQuery r).2 := by
  obtain ⟨err, req', outs⟩ := r
  cases err with
  | some err => exact h.went.ends h.calls req' (some err) none
  | none => exact h.went.weaken fun _ => rfl

/-- The handlers go on with SRV records, and the records of the answer pay for what follows. -/
theorem srvFound_went {srvl : List Rr} (hreq : Fresh req) (hsrvl : srvl.length ≤ m)
    (haddl : addl.length ≤ m) :
    Went True ⟨[], []⟩ (q + 2 * m) (m * m) (srvFound sip env req srvl addl).1
      (srvFound sip env req srvl addl).2 := by
  obtain ⟨hperm, hsorted⟩ := dnsRrlistSort_srv srvl req.sortkey
  have hcached : (rrCache sip req addl).length ≤ addl.length := by
    simp [rrlistApply_of_not_recurse, length_filter_le, rrCache]
  unfold srvFound
  generalize dnsRrlistSort srvl RrType.SRV.code req.sortkey = sorted at hperm hsorted ⊢
  generalize rrCache sip req addl = cached at hcached ⊢
  have hlen := hperm.length_eq
  have hgoes : Unbound { req with srvl := sorted,
                                  cachel := req.cachel.filter (!cached.contains ·) ++ cached } :=
    ⟨hreq.ct, hreq.dnsq, hreq.dnsq2⟩
  have hwent := handlerNext_went sip env hgoes
  refine .after [.srvs req.sortkey sorted, .cached cached] (by simp [hsorted]) (by simp)
    (by simpa [hreq.addrl] using hwent) ?_ ?_
  · simp
    omega
  · simp [hreq.cachel, hlen]
    exact Nat.mul_le_mul hsrvl (hcached.trans haddl)

theorem transpIndex_lt_of_next {i : Nat} {tp : SipTransp} (h : transpNextSrv sip i = some tp) :
    transpIndex tp < i := by
  have hmem : tp ∈ sipTransps.take i := mem_reverse.mp (mem_of_find?_eq_some h)
  match i with
  | 0 => simp at hmem
  | 1 | 2 | 3 | 4 => revert hmem; cases tp <;> decide
  | i + 5 => cases tp <;> simp [transpIndex]

/-- The next SRV query leads to fewer ones. -/
theorem stage_srv (req : SipRequest) : stage { req with dnsq := some .srv } ≤ transpIndex
    req.tp + 2 := by
  simp only [stage]
  split <;> omega

theorem naptrHandler_went (hreq : Fresh req) (hm : addl.length ≤ m) :
    Went True ⟨[], []⟩ (sipTransps.length + 2 + 2 * m) (m * m)
      (naptrHandler sip env req ansl addl).1 (naptrHandler sip env req ansl addl).2 := by
  unfold naptrHandler
  dsimp only
  split
  · split
    · exact fail_went ..
    · next tp htp =>
        have hlt := transpIndex_lt_of_next htp
        have hstage := stage_srv { req with tp }
        have hfresh : Fresh { req with tp } :=
          ⟨⟨hreq.ct, hreq.dnsq, hreq.dnsq2⟩, hreq.addrl, hreq.srvl, hreq.cachel⟩
        refine (srvLookup_asks hfresh req.host).handler.mono ?_ (zero_le _)
        dsimp only at hstage ⊢
        omega
  · next tp replace _ =>
      have hfresh : Fresh { req with tp, tpSelected := true } :=
        ⟨⟨hreq.ct, hreq.dnsq, hreq.dnsq2⟩, hreq.addrl, hreq.srvl, hreq.cachel⟩
      split
      · split
        · exact (hfresh.asks_fails _ (by simp) (by simp; omega)).handler.mono (le_refl _)
            (zero_le _)
        · refine (hfresh.asks (h := .srv) (by decide) replace RrType.SRV.code).handler.mono
            ?_ (zero_le _)
          simp [stage, sipTransps]
          omega
      · refine srvFound_went hfresh ((length_rrAppend_le _ _ _ _ _).trans ?_) hm
        simpa [hreq.srvl] using hm

theorem srvHandler_went (hreq : Fresh req) (hans : ansl.length ≤ m) (hadd : addl.length ≤ m) :
    Went True ⟨[], []⟩ (stage { req with dnsq := some .srv } + 2 * m) (m * m)
      (srvHandler sip env req ansl addl).1 (srvHandler sip env req ansl addl).2 := by
  have hfresh : ∀ tp port, Fresh { req with tp, port } := fun tp port =>
    ⟨⟨hreq.ct, hreq.dnsq, hreq.dnsq2⟩, hreq.addrl, hreq.srvl, hreq.cachel⟩
  have haddr : ∀ tp port, Went True ⟨[], []⟩ (stage { req with dnsq := some .srv } + 2 * m) (m * m)
      (handlerQuery (addrLookup sip env { req with tp, port } req.host)).1
      (handlerQuery (addrLookup sip env { req with tp, port } req.host)).2 := by
    intro tp port
    have hasks := (addrLookup_spec sip env (hfresh tp port).toUnbound req.host).asks hreq.addrl
    rw [show (⟨[], []⟩ : Lists) = ⟨[], req.srvl⟩ by rw [hreq.srvl]]
    refine hasks.handler.mono ?_ (by simp [hreq.srvl])
    simp only [stage, hreq.srvl, length_nil]
    split <;> omega
  unfold srvHandler
  dsimp only
  split
  · split
    · exact haddr _ _
    · next htp =>
        split
        · next tp hnext =>
            have hlt := transpIndex_lt_of_next hnext
            have hstage := stage_srv { req with tp }
            refine (srvLookup_asks (hfresh tp req.port) req.host).handler.mono ?_ (zero_le _)
            simp only [stage, if_neg htp] at hstage ⊢
            omega
        · split
          · exact fail_went ..
          · exact haddr _ _
  · refine srvFound_went hreq ((length_rrAppend_le _ _ _ _ _).trans ?_) hadd
    simpa [hreq.srvl] using hans

/-- An address answer: the request waits for the other one, or goes on. -/
theorem addrHandler_went (hct : req.ct = none)
    (hdnsq : req.dnsq ≠ none → req.dnsq = some .addr)
    (hdnsq2 : req.dnsq2 ≠ none → req.dnsq2 = some .addr) :
    Went True ⟨[], req.srvl⟩ (2 * req.srvl.length) (stock req + ansl.length)
      (addrHandler sip env req err ansl).1 (addrHandler sip env req err ansl).2 := by
  have hlength := length_rrAppend_le (fun rr => env.busy rr || req.srvl.contains rr)
    req.addrl ansl none
    { type1 := RrType.A.code, type2 := RrType.AAAA.code, dnsclass := dnsClassIn, recurse := false }
  unfold addrHandler
  dsimp only
  generalize rrAppend _ req.addrl _ = addrl at hlength ⊢
  split
  · next hwaits =>
      have hwaits : req.waits := by simpa using hwaits
      refine .on trivial ⟨.looking hwaits hdnsq hdnsq2 hct, ?_, fun _ => .inl hwaits⟩ rfl ?_ ?_
      · show Lists.mk (if req.waits then [] else addrl) req.srvl = ⟨[], req.srvl⟩
        rw [if_pos hwaits]
      · by_cases hnone : req.dnsq = none
        · simp [budget, stage, hnone]
        · simp [budget, stage, hdnsq hnone]
      · simp
        omega
  · next hwaits =>
      simp only [not_or, Bool.not_eq_true, isSome_eq_false_iff, isNone_iff_eq_none] at hwaits
      split
      · exact fail_went ..
      obtain ⟨hperm, hsorted⟩ := dnsRrlistSortAddr_spec addrl req.sortkey
      have hle := hperm.length_eq
      generalize dnsRrlistSortAddr addrl req.sortkey = sorted at hsorted hle ⊢
      have hgoes : ∀ addrl, Unbound { req with addrl } := fun _ => ⟨hct, hwaits.1, hwaits.2⟩
      refine .after [.addrs req.sortkey sorted] (by simp [hsorted])
        (by simp) (handlerNext_went sip env (hgoes _)) ?_ ?_
      · simp
      · simp
        omega

end LibRe.Sip.Request
