/-
LibRe.Stun.Ctrans — STUN client transactions (`src/stun/ctrans.c`).

A transaction waits for the response to its request and calls its handler when it ends:
by a response, when it has been sent often enough, or when its transport fails. A
connection that the peer closes in good order is reported with error 0, and this error is
what the handler gets: to the user it looks like a response.

Translation notes. What the sockets answer is given with the event; a user acts in a
handler by further events. A transaction whose request fails uses up a number. Buffer,
socket and destination are left out, and the timers that run as long as a transaction
does. The handler is shown the message as it was received.
-/
import LibRe.Lib.Machine
import LibRe.Lib.Table
import LibRe.Stun.Msg

namespace LibRe.Stun.Ctrans

open Machine List Option

inductive Proto where
  | UDP | TCP | DTLS | other
  deriving DecidableEq, Repr

/-- The connection a transaction has: none of its own, or one it has made. -/
inductive Conn where
  | given | connecting | estab
  deriving DecidableEq, Repr

/-- `struct stun_conf` -/
structure StunConf where
  rto : UInt32
  rc : Nat
  rm : UInt32

/-- `struct stun_ctrans` -/
structure StunCtrans where
  tid : Bytes
  met : UInt16
  key : Option Bytes
  resph : Bool
  conn : Conn := .given
  txc : Nat := 0
  ival : UInt32 := 0

/-- A call of `ct->resph`. -/
structure RespCall where
  err : Option Errno
  scode : UInt16 := 0
  reason : Option Bytes := none
  msg : Option Held := none

/-- The request of transaction `id` is sent, or its handler called. -/
inductive Out where
  | send (id : Nat)
  | resph (id : Nat) (ct : StunCtrans) (call : RespCall)

/-- A STUN instance (`struct stun`): its transactions, and all that they have done. -/
structure Instance where
  cts : Table StunCtrans := Table.empty
  log : List Out := []

def Instance.emit (s : Instance) (out : Out) : Instance := { s with log := s.log ++ [out] }

/-- The request of a transaction is sent, which is `ct` from now on. -/
def Instance.send (s : Instance) (id : Nat) (ct : StunCtrans) : Instance :=
  { s.emit (.send id) with cts := s.cts.set id (some ct) }

/-- `completed` -/
def Instance.completed (s : Instance) (id : Nat) (call : RespCall) : Instance :=
  match s.cts.get id with
  | none => s
  | some ct =>
    let s := { s with cts := s.cts.set id none }
    if ct.resph then s.emit (.resph id ct call) else s

/-- `ec` and `herr` of `stun_ctrans_recv`. -/
def errcode (msg : StunMsg) : Option Errno × StunErrcode :=
  if stunClass msg.hdr.type = StunClass.ERROR_RESP.code then
    match (stunMsgAttr msg .ERR_CODE).map StunAttr.v with
    | some (.errCode code reason) => (none, ⟨code, reason⟩)
    | _ => (some .EPROTO, ⟨0, [79, 75]⟩)
  else (none, ⟨0, [79, 75]⟩) -- "OK"

/-- `match_handler` -/
def matchHandler (msg : StunMsg) (ct : StunCtrans) : Bool :=
  ct.met = stunMethod msg.hdr.type ∧ ct.tid = msg.hdr.tid

/-- The check of a response, which 401 and 438 are excepted from. -/
def verifies (D : Digests) (ct : StunCtrans) (code : UInt16) (held : Held) : Bool :=
  if code = 401 ∨ code = 438 then true
  else
    match ct.key with
    | none => true
    | some key => (stunMsgChkMi D key held).1 = none

/-- `stun_ctrans_recv` -/
def stunCtransRecv (D : Digests) (s : Instance) (held : Held) : Instance :=
  match s.cts.items.find? fun item => matchHandler held.1 item.2 with
  | none => s
  | some (id, ct) =>
    let (herr, ec) := errcode held.1
    if verifies D ct ec.code held then
      let herr := if herr = none ∧ unknownAttrs held.1 ≠ [] then some .EPROTO else herr
      s.completed id { err := herr, scode := ec.code, reason := some ec.reason, msg := some held }
    else s

/-- `stun_recv`, as far as responses go. -/
def stunRecv (D : Digests) (s : Instance) (mb : Mbuf) : Instance :=
  match stunMsgDecode mb with
  | .error _ => s
  | .ok msg =>
    if stunClass msg.hdr.type = StunClass.ERROR_RESP.code ∨ stunClass msg.hdr.type =
      StunClass.SUCCESS_RESP.code then
      stunCtransRecv D s (msg, mb)
    else s

/-- `timeout_handler`; `err` is the answer of `stun_send`. -/
def timeoutHandler (conf : StunConf) (s : Instance) (id : Nat) (ct : StunCtrans)
    (err : Option Errno) : Instance :=
  if ct.txc ≥ conf.rc then s.completed id { err := some .ETIMEDOUT }
  else
    let ival := if ct.txc + 1 ≥ conf.rc then conf.rto * conf.rm else ct.ival * 2
    let s := s.send id { ct with txc := ct.txc + 1, ival }
    if err = none then s else s.completed id { err }

/-- What `stun_ctrans_request` is called with; `sock` and `dst` say whether they are given. -/
structure Args where
  proto : Proto
  sock : Bool
  dst : Bool
  tid : Bytes
  met : UInt16
  key : Option Bytes
  resph : Bool

/-- `stun_ctrans_request`: the error, whether something was sent, and the transaction.
`listen` is the answer of `udp_listen`, `send` that of sending or connecting. -/
def stunCtransRequest (conf : StunConf) (args : Args) (listen send : Option Errno) :
    Option Errno × Bool × StunCtrans :=
  let ct : StunCtrans := { tid := args.tid, met := args.met, key := args.key, resph := args.resph }
  match args.proto with
  | .UDP =>
    if !args.dst then (some .EINVAL, false, ct)
    else
      match if args.sock then none else listen with
      | some err => (some err, false, ct)
      | none => (send, true, { ct with txc := 1, ival := conf.rto })
  | .TCP =>
    if args.sock then (send, true, { ct with txc := conf.rc })
    else (send, false, { ct with txc := conf.rc, conn := .connecting })
  | .DTLS =>
    if !args.sock then (some .EINVAL, false, ct)
      else (send, true, { ct with txc := 1, ival := conf.rto })
  | .other => (some .EPROTONOSUPPORT, false, ct)

/-- A request, a packet, a timer, a connection that is established or closed (`none` is
error 0), a transaction dropped by its user, and `stun_ctrans_close`. -/
inductive Event where
  | request (args : Args) (listen send : Option Errno)
  | recv (mb : Mbuf)
  | timeout (id : Nat) (err : Option Errno)
  | estab (id : Nat) (err : Option Errno)
  | close (id : Nat) (err : Option Errno)
  | drop (id : Nat)
  | shut

def step (D : Digests) (conf : StunConf) (s : Instance) : Event → Instance
  | .request args listen send =>
    let (err, sent, ct) := stunCtransRequest conf args listen send
    let cts := if err = none then s.cts.add ct else s.cts.skip
    { cts, log := s.log ++ if sent then [.send s.cts.fresh] else [] }
  | .recv mb => stunRecv D s mb
  | .timeout id err =>
    match s.cts.get id with
    | some ct => timeoutHandler conf s id ct err
    | none => s
  | .estab id err =>
    match s.cts.get id with
    | some ct =>
      if ct.conn = .connecting then
        let s := s.send id { ct with conn := .estab }
        if err = none then s else s.completed id { err }
      else s
    | none => s
  | .close id err =>
    match s.cts.get id with
    | some ct => if ct.conn = .given then s else s.completed id { err }
    | none => s
  | .drop id => { s with cts := s.cts.set id none }
  | .shut => s.cts.items.foldl (fun s item => s.completed item.1 { err := some .ECONNABORTED }) s

/-! ## What a log says -/

def Out.id : Out → Nat
  | .send id => id
  | .resph id _ _ => id

@[simp] def Out.isSend : Out → Bool
  | .send _ => true
  | .resph .. => false

/-- How often the request of a transaction was sent. -/
def sends (log : List Out) (id : Nat) : Nat := log.countP fun out => out.isSend && out.id == id

/-- How often its handler was called. -/
def calls (log : List Out) (id : Nat) : Nat := log.countP fun out => !out.isSend && out.id == id

/-- A response goes to the transaction with its method and transaction ID, and a success or
an error code other than 401 and 438 was verified under the key, if there is one. -/
def Right (D : Digests) : Out → Prop
  | .send _ => True
  | .resph _ ct call =>
    (∀ held, call.msg = some held → ct.met = stunMethod held.1.hdr.type ∧ ct.tid = held.1.hdr.tid) ∧
      ∀ key, ct.key = some key →
        (call.err = none ∧ call.scode = 0 ∨ call.scode ≠ 0 ∧ call.scode ≠ 401 ∧ call.scode ≠ 438) →
          ∃ held, call.msg = some held ∧ (stunMsgChkMi D key held).1 = none

/-- Every handler is called once at most and rightly, and no request is sent more than `rc`
times. -/
def AllRight (D : Digests) (conf : StunConf) (s : Instance) : Prop :=
  (∀ id, calls s.log id ≤ 1 ∧ sends s.log id ≤ max conf.rc 1) ∧ ∀ out ∈ s.log, Right D out

/-- The connection that a transaction with a key has made is not closed without an error. -/
def NotClosed (s : Instance) (e : Event) : Prop :=
  ∀ id ct, e = .close id none → s.cts.get id = some ct → ct.conn = .given ∨ ct.resph = false ∨
    ct.key = none

/-! ## The invariant -/

/-- A live transaction has called nobody, and its counter covers what it has sent. -/
structure Sound (D : Digests) (conf : StunConf) (s : Instance) : Prop where
  log_lt : ∀ out ∈ s.log, out.id < s.cts.fresh
  live : ∀ id ct, s.cts.get id = some ct → calls s.log id = 0 ∧ ct.txc ≤ max conf.rc 1 ∧
    (ct.txc = 0 → conf.rc = 0) ∧
    sends s.log id + (if ct.conn = .connecting then 1 else 0) ≤ max ct.txc 1
  right : AllRight D conf s

@[simp] theorem sends_append (a b : List Out) (id : Nat) :
    sends (a ++ b) id = sends a id + sends b id :=
  countP_append

@[simp] theorem calls_append (a b : List Out) (id : Nat) :
    calls (a ++ b) id = calls a id + calls b id :=
  countP_append

@[simp] theorem sends_send (id' id : Nat) : sends [.send id'] id = if id' = id then 1 else 0 := by
  simp [sends, Out.id, countP_cons]

@[simp] theorem calls_send (id' id : Nat) : calls [.send id'] id = 0 := by
  simp [calls]

@[simp] theorem sends_resph (id' : Nat) (ct : StunCtrans) (call : RespCall) (id : Nat) :
    sends [.resph id' ct call] id = 0 := by
  simp [sends]

@[simp] theorem calls_resph (id' : Nat) (ct : StunCtrans) (call : RespCall) (id : Nat) :
    calls [.resph id' ct call] id = if id' = id then 1 else 0 := by
  simp [calls, Out.id, countP_cons]

variable {D : Digests} {conf : StunConf} {s : Instance} {id : Nat} {ct : StunCtrans}

/-- Nothing is said of a number that is not used yet. -/
theorem Sound.fresh (h : Sound D conf s) : sends s.log s.cts.fresh = 0 ∧
    calls s.log s.cts.fresh = 0 := by
  have := h.log_lt
  simp only [sends, calls, countP_eq_zero]
  grind

theorem Sound.drop (h : Sound D conf s) (id : Nat) :
    Sound D conf { s with cts := s.cts.set id none } :=
  { h with live := fun id' ct hct => h.live id' ct (by grind [Table.get_set, bind_fun_none]) }

/-- A transaction is removed, and its handler called rightly. -/
theorem Sound.completed (h : Sound D conf s) {call : RespCall}
    (hright : ∀ ct, s.cts.get id = some ct → ct.resph → Right D (.resph id ct call)) :
    Sound D conf (s.completed id call) := by
  unfold Instance.completed
  split
  · exact h
  rename_i ct hget
  have hlive := h.live id ct hget
  have hlt := Table.lt_of_get hget
  obtain ⟨hcount, hall⟩ := h.right
  have hgone := h.drop id
  split
  · refine ⟨?_, fun id' ct' hct' => ?_, fun id' => ?_, ?_⟩
    · have := h.log_lt
      simp only [Instance.emit, mem_append, mem_singleton, Table.fresh_set]
      grind [Out.id]
    · have := hgone.live id' ct' hct'
      have hne : id ≠ id' := by
        rintro rfl
        simp [Instance.emit, Table.get_set] at hct'
      simpa [Instance.emit, hne] using this
    · simp only [Instance.emit, calls_append, sends_append, calls_resph, sends_resph]
      grind
    · simp only [Instance.emit, mem_append, mem_singleton]
      grind
  · exact hgone

/-- A live transaction sends its request, which its counter covers. -/
theorem Sound.send (h : Sound D conf s) (hget : s.cts.get id = some ct) (ct' : StunCtrans)
    (hroom : sends s.log id < max conf.rc 1) (hct' : ct'.txc ≤ max conf.rc 1 ∧
      (ct'.txc = 0 → conf.rc = 0) ∧
      sends s.log id + 1 + (if ct'.conn = .connecting then 1 else 0) ≤ max ct'.txc 1) :
      Sound D conf (s.send id ct') := by
  have hlive := h.live id ct hget
  have hlt := Table.lt_of_get hget
  refine ⟨?_, fun id' ct₁ hct₁ => ?_, fun id' => ?_, ?_⟩
  · have := h.log_lt
    simp only [Instance.send, Instance.emit, mem_append, mem_singleton, Table.fresh_set]
    grind [Out.id]
  · have := h.live id' ct₁
    simp only [Instance.send, Table.get_set, hget, bind_some] at hct₁
    simp only [Instance.send, Instance.emit, calls_append, sends_append, calls_send, sends_send]
    grind
  · have := h.right.1 id'
    simp only [Instance.send, Instance.emit, calls_append, sends_append, calls_send, sends_send]
    grind
  · have := h.right.2
    simp only [Instance.send, Instance.emit, mem_append, mem_singleton]
    grind [Right]

theorem right_error {call : RespCall} (hmsg : call.msg = none) (herr : call.err ≠ none)
    (hscode : call.scode = 0) :
    Right D (.resph id ct call) := by
  simp [Right, hmsg, herr, hscode]

theorem recv_sound (h : Sound D conf s) (held : Held) : Sound D conf (stunCtransRecv D s held) := by
  unfold stunCtransRecv
  split
  · exact h
  rename_i id ct hfind
  have hget : s.cts.get id = some ct := Table.get_eq_some_iff.mpr (mem_of_find?_eq_some hfind)
  have hmatch : matchHandler held.1 ct :=
    find?_some (p := fun item : Nat × StunCtrans => matchHandler held.1 item.2) hfind
  simp only
  split
  · rename_i hverifies
    refine h.completed fun ct' hct' _ => ?_
    simp only [Right, verifies, matchHandler] at hverifies hmatch ⊢
    grind
  · exact h

theorem request_sound (h : Sound D conf s) (args : Args) (listen send : Option Errno) :
    Sound D conf (step D conf s (.request args listen send)) := by
  obtain ⟨hsends, hcalls⟩ := h.fresh
  have hnew : ∀ ct sent, stunCtransRequest conf args listen send = (none, sent, ct) →
      ct.txc ≤ max conf.rc 1 ∧
      (ct.txc = 0 → conf.rc = 0) ∧ (if sent then 1 else 0) + (if ct.conn = .connecting then 1
        else 0) ≤ max ct.txc 1 := by
    intro ct sent hct
    unfold stunCtransRequest at hct
    grind
  simp only [step]
  generalize stunCtransRequest conf args listen send = r at hnew ⊢
  obtain ⟨err, sent, ct⟩ := r
  refine ⟨?_, fun id ct' hct' => ?_, fun id => ?_, ?_⟩
  · have := h.log_lt
    cases sent <;> cases err <;> simp <;> grind [Out.id]
  · have := h.live id ct'
    have := @Table.lt_of_get _ s.cts id ct'
    cases sent <;> cases err <;> simp [Table.get_add] at hct' ⊢ <;> grind
  · have := h.right.1 id
    cases sent <;> simp <;> grind
  · have := h.right.2
    cases sent <;> simp <;> grind [Right]

/-- Only a connection that is closed without an error ends a transaction as a response does. -/
theorem step_sound (h : Sound D conf s) {e : Event} (he : NotClosed s e) :
    Sound D conf (step D conf s e) := by
  have hfail : ∀ {s} id err, Sound D conf s → err ≠ none → Sound D conf (s.completed id { err }) :=
    fun _ _ h herr =>
    h.completed fun _ _ _ => right_error rfl herr rfl
  cases e with
  | request args listen send => exact request_sound h args listen send
  | recv mb =>
    simp only [step, stunRecv]
    split
    · exact h
    · split
      · exact recv_sound h _
      · exact h
  | timeout id err =>
    simp only [step]
    split
    · rename_i ct hget
      have := h.live id ct hget
      unfold timeoutHandler
      split
      · exact hfail id _ h (by simp)
      have hsent := fun ival => h.send hget { ct with txc := ct.txc + 1, ival }
        (by grind) (by grind)
      simp only
      split
      · exact hsent _
      · exact hfail id err (hsent _) ‹_›
    · exact h
  | estab id err =>
    simp only [step]
    split
    · rename_i ct hget
      have := h.live id ct hget
      split
      · have hsent := h.send hget { ct with conn := .estab } (by grind) (by grind)
        split
        · exact hsent
        · exact hfail id err hsent ‹_›
      · exact h
    · exact h
  | close id err =>
    simp only [step]
    split
    · split
      · exact h
      · refine h.completed fun ct' hct' hresph => ?_
        have := he id ct'
        simp only [Right]
        grind
    · exact h
  | drop id => exact h.drop id
  | shut => exact foldlRecOn _ _ h fun s hs item _ => hfail item.1 _ hs (by simp)

theorem start_sound : Sound D conf {} := by
  constructor <;> simp [AllRight, sends, calls]

/-- The handler of a transaction with a key is told of a success that nobody has verified. -/
theorem NotClosed.of_right (hright : AllRight D conf (step D conf s e)) : NotClosed s e := by
  rintro id ct rfl hget
  by_contra! hno
  have hcall : Right D (.resph id ct { err := none }) :=
    hright.2 _ (by simp [step, Instance.completed, Instance.emit, hget, hno])
  obtain ⟨key, hkey⟩ := ne_none_iff_exists'.mp hno.2.2
  simpa [hkey] using hcall.2 key hkey

/-- In every run the handlers are called once at most, a response goes to the transaction it
answers and is verified under its key, and a request is sent `rc` times at most, if and only
if no connection that a transaction with a key has made is closed without an error. -/
theorem transactions_right_iff (D : Digests) (conf : StunConf) (events : List Event) :
    Always (step D conf) (AllRight D conf) {} events ↔ Each (step D conf) NotClosed {} events :=
  always_iff_each (fun _ _ h _ he => step_sound h he) (fun _ h => h.right)
    (fun _ _ _ _ h => NotClosed.of_right h)
    start_sound each_true

/-- A connection made for a request with a key, which the peer accepts and closes. -/
theorem not_transactions_right : ¬ ∀ (D : Digests) (conf : StunConf) (events : List Event),
    Always (step D conf) (AllRight D conf) {} events := by
  intro h
  obtain ⟨-, -, -, hright⟩ := h ⟨fun _ _ => ⟨replicate 20 0, rfl⟩, fun _ => 0⟩ ⟨500, 7, 16⟩
    [.request ⟨.TCP, false, true, replicate 12 9, 1, some [107, 101, 121], true⟩ none none,
      .estab 0 none, .close 0 none]
  have hclosed := NotClosed.of_right hright
  simpa using hclosed 0 ⟨replicate 12 9, 1, some [107, 101, 121], true, .estab, 7, 0⟩ rfl rfl

end LibRe.Stun.Ctrans
