/-
LibRe.Sipsess.SessTheorems — what ends a session, and what its requests repeat.

Most of what a session does touches neither its replies nor its log (`core`), or in ways
that the invariants below do not mind (`Moves`); what the handlers do is said once, in these
terms. Each invariant breaks in one way: a reply that awaits a PRACK leaves its list without
the counter, the negotiation state of another request is taken for that of the response that
is acknowledged, and the timer of a PRACK hands over the wrong object. Runs that do not do so
are exactly those in which the invariant holds.
-/
import LibRe.Sipsess.Sess

namespace LibRe.Sipsess

open Machine List Option

variable {s s' : Sess} {env : Env}

/-! ## What stays as it is -/

/-- The replies with their counter, and the requests with the log. -/
abbrev Core := List Reply × Int × Table Request × List Out

def Sess.core (s : Sess) : Core := (s.replyl, s.prackWaitingCnt, s.requests, s.log)

@[simp] theorem core_eta (s : Sess) :
    (s.replyl, s.prackWaitingCnt, s.requests, s.log) = s.core := by rw [Sess.core]

@[simp] theorem core_mk (replyl requests cnt relSeq negState ls msg st req desc tmr modifyPending
    established peerterm terminated log) :
    Sess.core ⟨replyl, requests, cnt, relSeq, negState, ls, msg, st, req, desc, tmr, modifyPending,
      established, peerterm, terminated, log⟩ = (replyl, cnt, requests, log) := by rw [Sess.core]

@[simp] theorem emit_core (s : Sess) (out : Out) :
    (s.emit out).core = (s.core.1, s.core.2.1, s.core.2.2.1, out :: s.core.2.2.2) := rfl

@[simp] theorem terminate_core (s : Sess) : (terminate s).core = s.core := by
  simp [terminate, apply_ite Sess.core]

@[simp] theorem sipsessReinvite_core (s : Sess) (resetLs : Bool) (env : Env) :
    (sipsessReinvite s resetLs env).2.core = s.core := by
  unfold sipsessReinvite
  cases resetLs <;> simp [apply_ite Prod.snd, apply_ite Sess.core]

@[simp] theorem reinviteOut_core (s : Sess) (err : Option Errno) (env : Env) :
    (reinviteOut s err env).core = s.core := by
  simp [reinviteOut, apply_ite Sess.core]

@[simp] theorem reinviteRespHandler_core (s : Sess) (resp : Except Errno Resp) (env : Env) :
    (reinviteRespHandler s resp env).core = s.core := by
  cases resp <;> simp [reinviteRespHandler, apply_ite Sess.core]

/-! ## Moves -/

/-- What handlers do that no invariant minds: the replies change with their counter, or a
request is dropped, kept with another state, or made. -/
inductive Moves (c : Core) : Core → Prop where
  | refl : Moves c c
  | replies {c' : Core} {replyl : List Reply} {cnt : Int} : Moves c c' →
      cnt - replyl.countP (·.awaitingPrack) = c'.2.1 - c'.1.countP (·.awaitingPrack) →
      Moves c (replyl, cnt, c'.2.2)
  | drop {c' : Core} (id : Nat) :
      Moves c c' → Moves c (c'.1, c'.2.1, c'.2.2.1.set id none, c'.2.2.2)
  | keep {c' : Core} {id : Nat} {r r₀ : Request} : Moves c c' → c'.2.2.1.get id = some r₀ →
      r.req = r₀.req → (r.tmr = r₀.tmr ∨ r.tmr = none ∨ r.tmr = some (.request id)) →
      Moves c (c'.1, c'.2.1, c'.2.2.1.set id (some r), c'.2.2.2)
  | make {c' : Core} (req : Req) : Moves c c' → Moves c
      (c'.1, c'.2.1, c'.2.2.1.add { req }, .original c'.2.2.1.fresh req :: c'.2.2.2)

attribute [local simp] Moves.refl

theorem Moves.trans {c c' c'' : Core} (h : Moves c c') (h' : Moves c' c'') : Moves c c'' := by
  induction h' with
  | refl => exact h
  | replies _ heq ih => exact ih.replies heq
  | drop id _ ih => exact ih.drop id
  | keep _ hget hreq htmr ih => exact ih.keep hget hreq htmr
  | make req _ ih => exact ih.make req

section

variable (s : Sess)

theorem request_moves (id : Nat) (env : Env) : Moves s.core (request s id env).2.core := by
  unfold request
  cases s.requests.get id with
  | none => exact .refl
  | some r =>
    have hgone : Moves s.core (s.setRequest id none).core := .drop id .refl
    by_cases htmr : r.tmr.isSome
    · simpa [htmr] using hgone
    · by_cases hsend : env.send = none
      · simp [htmr, hsend, apply_ite Prod.snd, apply_ite Sess.core]
      · simpa [htmr, hsend] using hgone

theorem newRequest_moves (req : Req) (env : Env) : Moves s.core (newRequest s req env).core := by
  have hmade : Moves s.core { s with
      requests := s.requests.add { req }, log := .original s.requests.fresh req :: s.log }.core :=
    .make req .refl
  exact hmade.trans (request_moves _ _ env)

theorem sipsessPrack_moves (rack : Rack) (desc : Desc) (env : Env) :
    Moves s.core (sipsessPrack s rack desc env).core := by
  unfold sipsessPrack
  by_cases hterm : s.terminated
  · simp [hterm]
  · simpa [hterm] using newRequest_moves s _ env

theorem sipsessUpdate_moves (env : Env) : Moves s.core (sipsessUpdate s env).core := by
  unfold sipsessUpdate
  split
  · exact .refl
  · simpa [apply_ite Sess.core] using newRequest_moves s _ env

theorem sipsessModify_moves (desc : Desc) (env : Env) :
    Moves s.core (sipsessModify s desc env).core := by
  unfold sipsessModify
  split
  · exact .refl
  split
  · exact .refl
  dsimp only
  split
  · -- the first INVITE is not answered yet
    simpa using sipsessUpdate_moves { s with desc } env
  · simp [apply_ite Sess.core]

/-- Nothing in a 2xx awaits a PRACK. -/
theorem sipsessReply2xx_moves (msg : Msg) (scode : Nat) (desc : Desc) (env : Env) :
    Moves s.core (sipsessReply2xx s msg scode desc env).2.core := by
  have hkeep : ∀ r : Reply, (if 100 < r.scode ∧ r.scode < 200 then { r with timed := false }
      else r).awaitingPrack = r.awaitingPrack := by
    intro r
    split <;> rfl
  unfold sipsessReply2xx
  split
  · -- the response to a PRACK or an UPDATE is not on the list
    simp [apply_ite Prod.snd, apply_ite Sess.core]
  split
  · exact .refl
  dsimp only
  split
  · exact .refl
  split
  · exact .refl
  · refine Moves.replies .refl ?_
    simp [countP_map, Function.comp_def, hkeep]
    rfl

/-- A reliable response is counted. -/
theorem sipsessReply1xx_moves (msg : Msg) (scode : Nat) (rel100 : Rel100) (desc : Desc)
    (env : Env) : Moves s.core (sipsessReply1xx s msg scode rel100 desc env).2.core := by
  unfold sipsessReply1xx
  split
  · exact .refl
  dsimp only
  split
  · exact .refl
  split
  · exact .refl
  split
  · exact .refl
  split
  · refine Moves.replies .refl ?_
    simp
    rfl
  · exact .refl

theorem inviteRespHandler_moves (resp : Except Errno Resp) (env : Env) :
    Moves s.core (inviteRespHandler s resp env).core := by
  unfold inviteRespHandler
  cases resp with
  | error err => simp
  | ok resp =>
    dsimp only
    split
    · cases hrel : resp.rel with
      | none => simp [apply_ite Sess.core]
      | some rel =>
        -- a PRACK is sent unless the response is out of order or has no SDP
        dsimp only
        split
        · simp
        split
        · simp
        simp only [apply_ite Sess.core, terminate_core, core_mk, core_eta, ite_self]
        generalize hs₁ : Sess.mk .. = s₁
        have hcore : s.core = s₁.core := by simp [← hs₁]
        rw [hcore]
        exact sipsessPrack_moves s₁ _ _ env
    · simp [apply_ite Sess.core]

theorem requestOut_moves (id : Nat) (err : Option Errno) :
    Moves s.core (requestOut s id err).core := by
  have hgone : ∀ s' : Sess, s'.core = s.core → Moves s.core (s'.setRequest id none).core := by
    intro s' hs'
    rw [← hs']
    exact .drop id .refl
  unfold requestOut
  split
  · exact hgone _ (terminate_core s)
  · exact hgone _ rfl

end

variable {id : Nat} {r r₀ : Request}

/-- A request is kept, with another state of its loop or timer. -/
theorem setRequest_moves (hget : s.requests.get id = some r₀) (hreq : r.req = r₀.req)
    (htmr : r.tmr = r₀.tmr ∨ r.tmr = none ∨ r.tmr = some (.request id)) :
    Moves s.core (s.setRequest id (some r)).core := .keep .refl hget hreq htmr

theorem setRequest_get (hget : s.requests.get id = some r₀) :
    (s.setRequest id (some r)).requests.get id = some r := by
  simp [Sess.setRequest, Table.get_set, hget]

theorem requestRespHandler_moves (hget : s.requests.get id = some r) (resp : Except Errno Resp)
    (env : Env) : Moves s.core (requestRespHandler s id r resp env).core := by
  unfold requestRespHandler
  cases resp with
  | error err => exact requestOut_moves s id _
  | ok resp =>
    dsimp only
    generalize (r.ls.loops resp.scode).2 = ls
    refine (setRequest_moves (r := { r with ls }) hget rfl (.inl rfl)).trans ?_
    have hget₁ := setRequest_get (r := { r with ls }) hget
    generalize s.setRequest id (some { r with ls }) = s₁ at hget₁ ⊢
    -- the negotiation state changes in some cases, and the description
    have hout : ∀ {s₂ : Sess} err, s₂.core = s₁.core →
        Moves s₁.core (requestOut s₂ id err).core := by
      intro s₂ err hs₂
      rw [← hs₂]
      exact requestOut_moves s₂ id err
    split
    · exact hout none rfl
    split
    · exact hout none (by simp [apply_ite Sess.core])
    split
    · exact hout none rfl
    generalize hs₂ : (if r.req.met = .UPDATE then _ else s₁) = s₂
    have hcore : s₂.core = s₁.core := by simp [← hs₂, apply_ite Sess.core]
    have hget₂ : s₂.requests.get id = some { r with ls } := by
      simp [← hs₂, apply_ite Sess.requests, hget₁]
    rw [← hcore] at hout ⊢
    split
    · split
      · exact hout _ rfl
      split
      · exact (request_moves s₂ id env).trans (requestOut_moves _ id _)
      · exact request_moves s₂ id env
    split
    · exact hout none (terminate_core s₂)
    split
    · exact setRequest_moves hget₂ rfl (.inr (.inr rfl))
    · exact hout none rfl

/-- The timer of a request lets it be sent again, or not. -/
theorem requestTimer_moves (hget : s.requests.get id = some r) (arg : Arg) (env : Env) :
    ∃ (s' : Sess) (sent : Option Req), Moves s.core s'.core ∧
      requestTimer s id r arg env = s'.emit (.retry (.request id) sent) := by
  have hkept : Moves s.core (s.setRequest id (some { r with tmr := none })).core :=
    setRequest_moves hget rfl (.inr (.inl rfl))
  refine ⟨_, _, ?_, rfl⟩
  cases arg with
  | sess => exact hkept
  | request id' =>
    dsimp only
    split
    · exact hkept.trans (request_moves _ id' env)
    · exact hkept
  | prack id' =>
    dsimp only
    split
    · exact hkept
    · exact hkept.trans (request_moves _ id' env)

theorem targetRefreshHandler_moves (s : Sess) (msg : Msg) (env : Env) :
    Moves s.core (targetRefreshHandler s msg env).core := by
  unfold targetRefreshHandler
  dsimp only
  split
  · exact .refl
  split
  · exact .refl
  simp only [core_mk, core_eta]
  split
  · exact sipsessReply2xx_moves
      { s with negState := if msg.sdp then .REMOTE_OFFER else .LOCAL_OFFER } msg 200 env.offer.2 env
  · exact sipsessReply2xx_moves s msg 200 none env

/-! ## Acknowledgements -/

theorem takeLast_perm {p : Reply → Bool} {replyl rest : List Reply} {reply : Reply}
    (h : takeLast p replyl = some (reply, rest)) : replyl.Perm (reply :: rest) := by
  induction replyl generalizing rest with
  | nil => simp [takeLast] at h
  | cons r replyl ih =>
    unfold takeLast at h
    split at h
    · next found rest' hrest =>
        cases h
        exact ((ih hrest).cons r).trans (List.Perm.swap ..)
    · split at h
      · cases h
        exact List.Perm.refl _
      · cases h

/-- The reply that an ACK or a PRACK acknowledges, and the others. -/
def acked (s : Sess) : Event → Option (Reply × List Reply)
  | .ack msg => takeLast (fun r => msg.cseq = r.seq) s.replyl
  | .prack msg =>
    takeLast (fun r => msg.rack.cseq = r.seq ∧ msg.rack.relSeq = r.relSeq ∧ msg.rack.met = r.met)
      s.replyl
  | _ => none

/-- An ACK or a PRACK ends the session. -/
def ends (s : Sess) (e : Event × Env) : Bool :=
  !s.terminated && s.negState = .LOCAL_OFFER &&
    match e.1 with
    | .ack msg => !msg.sdp || !s.established && e.2.answer ≠ none
    | .prack msg => !msg.sdp
    | _ => false

/-- A reply that awaits a PRACK leaves its list, and the counter stays. -/
def lapses (s : Sess) (e : Event) : Bool :=
  match e with
  | .timeout reply => reply ∈ s.replyl ∧ reply.timed ∧ reply.awaitingPrack
  | .prack _ => s.terminated && (acked s e).any (·.1.awaitingPrack)
  | _ => (acked s e).any (·.1.awaitingPrack)

theorem sipsessReinvite_established (s : Sess) (resetLs : Bool) (env : Env) :
    (sipsessReinvite s resetLs env).2.established = s.established := by
  unfold sipsessReinvite
  cases resetLs <;> simp [apply_ite Prod.snd, apply_ite Sess.established]

variable {reply : Reply} {rest : List Reply}

/-- The log after an acknowledgement. -/
def ackedLog (s : Sess) (e : Event × Env) (reply : Reply) : List Out :=
  if ends s e then .ended reply.offer :: s.log else s.log

theorem ackHandler_core {msg : Msg} (h : acked s (.ack msg) = some (reply, rest)) :
    (ackHandler s msg env).core =
      (rest, s.prackWaitingCnt, s.requests, ackedLog s (.ack msg, env) reply) := by
  have htake : takeLast (fun r => msg.cseq = r.seq) s.replyl = some (reply, rest) := h
  unfold ackHandler
  simp only [htake]
  cases hterm : s.terminated with
  | true => simp [ackedLog, ends, hterm, apply_ite Sess.core]
  | false =>
    by_cases hoffer : s.negState = .LOCAL_OFFER
    · cases hsdp : msg.sdp with
      | false => simp [ackedLog, ends, hterm, hoffer, hsdp]
      | true =>
        -- the answer is in the ACK; only the first one can end the session with it
        cases hest : s.established <;> by_cases hanswer : env.answer = none <;>
          by_cases hmod : s.modifyPending ∧ rest = [] <;>
          simp [ackedLog, ends, hterm, hoffer, hsdp, hest, hanswer, hmod,
            sipsessReinvite_established]
    · by_cases hmod : s.modifyPending ∧ rest = [] <;>
        simp [ackedLog, ends, hterm, hoffer, hmod, apply_ite Sess.core]

theorem prackHandler_moves {msg : Msg} (h : acked s (.prack msg) = some (reply, rest)) :
    Moves (rest, s.prackWaitingCnt - (if s.terminated then 0 else reply.awaitingPrack.toNat),
      s.requests, ackedLog s (.prack msg, env) reply) (prackHandler s msg env).core := by
  unfold acked at h
  unfold prackHandler
  simp only [h]
  cases hterm : s.terminated with
  | true => simp [ackedLog, ends, hterm, apply_ite Sess.core]
  | false =>
    simp only [Bool.false_eq_true, if_false]
    generalize hs₁ : (if reply.awaitingPrack then _ else _) = s₁
    have hcore : s₁.core = (rest, s.prackWaitingCnt - reply.awaitingPrack.toNat, s.requests,
        s.log) := by
      rw [← hs₁]
      cases reply.awaitingPrack <;> simp
    have hneg : s₁.negState = s.negState := by
      rw [← hs₁]
      cases reply.awaitingPrack <;> rfl
    rw [hneg]
    have hreply := fun negState desc => sipsessReply2xx_moves { s₁ with negState } msg 200 desc env
    by_cases hoffer : s.negState = .LOCAL_OFFER
    · cases hsdp : msg.sdp with
      | false => simp [ackedLog, ends, hterm, hoffer, hsdp, hcore]
      | true => simpa [ackedLog, ends, hterm, hoffer, hsdp, hcore] using hreply .DONE none
    · by_cases hdone : s.negState = .DONE ∧ msg.sdp
      · simpa [ackedLog, ends, hterm, hdone, hcore] using hreply .REMOTE_OFFER env.offer.2
      · simpa [ackedLog, ends, hterm, hoffer, hdone, hcore] using hreply s₁.negState none

/-! ## One event -/

/-- Events that neither acknowledge a reply nor come from a timer. -/
def quiet : Event → Bool
  | .ack _ | .prack _ | .timeout _ | .timer _ => false
  | _ => true

theorem step_moves {e : Event} (he : quiet e) : Moves s.core (step s (e, env)).core := by
  cases e with
  | progress scode rel100 desc =>
    simp only [step]
    cases s.msg with
    | none => exact .refl
    | some msg =>
      dsimp only
      split
      · exact sipsessReply1xx_moves s msg scode rel100 desc env
      · exact .refl
  | answer scode desc =>
    simp only [step]
    cases s.msg with
    | none => exact .refl
    | some msg =>
      dsimp only
      split
      · exact sipsessReply2xx_moves s msg scode desc env
      · exact .refl
  | refresh msg => exact targetRefreshHandler_moves s msg env
  | modify desc => exact sipsessModify_moves s desc env
  | response src resp =>
    cases src with
    | sess =>
      simp only [step]
      split
      · -- a later INVITE, or the first one
        split
        · cases resp with
          | error err => simp
          | ok resp =>
            dsimp only
            split <;> simp
        · exact inviteRespHandler_moves s resp env
      · simp
      · exact .refl
    | request id =>
      simp only [step]
      cases hget : s.requests.get id with
      | none => exact .refl
      | some r =>
        have hmoves := requestRespHandler_moves hget resp env
        cases resp with
        | error err => exact hmoves
        | ok resp =>
          dsimp only
          split
          · exact .refl
          · exact hmoves
  | bye | close | abort => simp [step]
  | ack _ | prack _ | timeout _ | timer _ => cases he

/-- The ends that acknowledgements brought: whether the response had an offer. -/
def endings (log : List Out) : List Bool :=
  log.filterMap fun | .ended offer => some offer | _ => none

/-- By how much the counter is too high, and the ends. -/
def tally (c : Core) : Int × List Bool :=
  (c.2.1 - c.1.countP (·.awaitingPrack), endings c.2.2.2)

@[simp] theorem endings_log (s : Sess) : endings s.log = (tally s.core).2 := rfl

/-- A timer's request is no end. -/
@[simp] theorem tally_retry (c : Core) (src : Src) (sent : Option Req) :
    tally (c.1, c.2.1, c.2.2.1, .retry src sent :: c.2.2.2) = tally c := rfl

theorem Moves.tally {c c' : Core} (h : Moves c c') : tally c' = tally c := by
  induction h with
  | refl => rfl
  | replies _ heq ih =>
    rw [← ih]
    exact Prod.ext heq rfl
  | drop _ _ ih | keep _ _ _ _ ih | make _ _ ih => exact ih

theorem endings_ackedLog (s : Sess) (e : Event × Env) (reply : Reply) :
    endings (ackedLog s e reply) = (if ends s e then [reply.offer] else []) ++ endings s.log := by
  unfold ackedLog
  split <;> rfl

/-- A reply has left the list, and the counter may have changed with it. -/
theorem tally_less (h : s.replyl.Perm (reply :: rest)) (cnt : Int) (requests : Table Request)
    (log : List Out) : tally (rest, cnt, requests, log) =
      ((tally s.core).1 + reply.awaitingPrack.toNat + (cnt - s.prackWaitingCnt), endings log) := by
  have hcount := h.countP_eq (·.awaitingPrack)
  refine Prod.ext ?_ rfl
  simp only [tally, Sess.core, hcount, countP_cons]
  cases reply.awaitingPrack
  · simp
  · simp
    omega

/-- What an event does to counter and replies, and the ends it brings. -/
theorem step_tally (s : Sess) (e : Event × Env) :
    tally (step s e).core = ((tally s.core).1 + (lapses s e.1).toNat,
        (if ends s e then (acked s e.1).toList.map (·.1.offer) else []) ++ (tally s.core).2) := by
  obtain ⟨e, env⟩ := e
  have hquiet : quiet e → tally (step s (e, env)).core = tally s.core :=
    fun he => (step_moves he).tally
  cases e with
  | ack msg =>
    cases hacked : acked s (.ack msg) with
    | none =>
      have hnone := hacked
      unfold acked at hnone
      simp only [step, ackHandler, hnone]
      simp [lapses, hacked]
    | some found =>
      have hperm := takeLast_perm hacked
      simp only [step, ackHandler_core hacked, tally_less hperm, endings_ackedLog, lapses, hacked]
      simp
  | prack msg =>
    cases hacked : acked s (.prack msg) with
    | none =>
      have hnone := hacked
      unfold acked at hnone
      simp only [step, prackHandler, hnone]
      simp [lapses, hacked]
    | some found =>
      have hperm := takeLast_perm hacked
      simp only [step, (prackHandler_moves hacked).tally, tally_less hperm,
        endings_ackedLog, lapses, hacked]
      cases s.terminated <;> simp
  | timeout reply =>
    simp only [step, replyTimeout, acked, lapses, ends]
    by_cases hmem : reply ∈ s.replyl
    · have hrest := tally_less (perm_cons_erase hmem)
      cases htimed : reply.timed <;> simp [hmem, apply_ite Sess.core, hrest]
    · simp [hmem]
  | timer src =>
    have hsame : tally (step s (.timer src, env)).core = tally s.core := by
      cases src with
      | sess =>
        simp only [step, reinviteTimer]
        split <;> simp
      | request id =>
        simp only [step]
        cases hget : s.requests.get id with
        | none => rfl
        | some r =>
          cases harg : r.tmr with
          | none => simp [harg]
          | some arg =>
            obtain ⟨s', sent, hmoves, htimer⟩ := requestTimer_moves hget arg env
            simp [harg, htimer, hmoves.tally]
    simp [hsame, lapses, acked, ends]
  | progress _ _ _ | answer _ _ | refresh _ | modify _ | response _ _ | bye | close | abort =>
    simpa [acked, lapses] using hquiet rfl

/-- The counter is the number of replies that await a PRACK; when there are none, a 2xx is not
refused with `EAGAIN` unless the transport does. -/
def Counts (s : Sess) : Prop :=
  s.prackWaitingCnt = s.replyl.countP (·.awaitingPrack) ∧
    (s.replyl.countP (·.awaitingPrack) = 0 → ∀ msg scode desc env, env.reply ≠ some .EAGAIN →
      (sipsessReply2xx s msg scode desc env).1 ≠ some .EAGAIN)

theorem counts_of_count (h : s.prackWaitingCnt = s.replyl.countP (·.awaitingPrack)) : Counts s := by
  refine ⟨h, fun hnone msg scode desc env henv => ?_⟩
  have hzero : ¬ s.prackWaitingCnt > 0 := by omega
  unfold sipsessReply2xx
  split
  · dsimp only
    split
    · exact henv
    · simp
  split
  · simp
  dsimp only
  split
  · exact henv
  · simp

/-- The counter of a session is right in a whole run, if and only if no reply that awaits its PRACK
times out, is matched by an ACK, or gets its PRACK when the session has ended. -/
theorem prack_waiting_cnt_iff (start : Start) (events : List (Event × Env)) :
    Always step Counts start.sess events ↔ Each step (fun s e => ¬ lapses s e.1) start.sess
      events := by
  have hgap : ∀ s : Sess, (tally s.core).1 = 0 ↔
      s.prackWaitingCnt = s.replyl.countP (·.awaitingPrack) := by
    intro s
    show s.prackWaitingCnt - _ = 0 ↔ _
    exact sub_eq_zero
  have hkeep : ∀ s (e : Event × Env), (tally s.core).1 = 0 → True → ¬ lapses s e.1 →
      (tally (step s e).core).1 = 0 := by
    intro s e hinv _ hnot
    simp [step_tally, hinv, hnot]
  refine always_iff_each hkeep (fun s hinv => counts_of_count ((hgap s).mp hinv)) ?_ ?_ each_true
  · intro s e hinv _ hcounts hlapse
    have hstep := (hgap _).mpr hcounts.1
    simp [step_tally, hinv, hlapse] at hstep
  · cases start <;> rfl

/-- A session that answers an INVITE with a reliable 183, which nobody acknowledges. -/
def unheard : List (Event × Env) :=
  [(.progress 183 .ENABLED (some [118]), {}),
   (.timeout { seq := 1, relSeq := 1, met := .INVITE, scode := 183, awaitingPrack := true,
               offer := false }, {})]

/-- Then its 200 is refused. -/
theorem prack_waiting_cnt_too_high : ¬ ∀ (start : Start) (events : List (Event × Env)),
    Always step Counts start.sess events := by
  intro h
  have hrun := (h (.accept { met := .INVITE, cseq := 1, sdp := true, rel100 := .ENABLED })
    unheard).last.1
  revert hrun
  decide

/-- An ACK or PRACK for a response without an offer ends the session. -/
def strays (s : Sess) (e : Event × Env) : Bool := ends s e && (acked s e.1).any (!·.1.offer)

/-- No session is ended by the acknowledgement of a response without an offer, if and only if none
arrives while an offer of another request is pending: an ACK or PRACK without SDP, or the first ACK
with SDP that is no answer. -/
theorem acknowledged_iff (start : Start) (events : List (Event × Env)) :
    Always step (fun s => .ended false ∉ s.log) start.sess events ↔
    Each step (fun s e => ¬ strays s e) start.sess events := by
  have hlog : ∀ s : Sess, .ended false ∈ s.log ↔ false ∈ (tally s.core).2 := by
    intro s
    show _ ↔ false ∈ s.log.filterMap _
    rw [mem_filterMap]
    constructor
    · exact fun h => ⟨_, h, rfl⟩
    · rintro ⟨out, hout, hfalse⟩
      split at hfalse <;> simp_all
  have hstep : ∀ s e, .ended false ∈ (step s e).log ↔ strays s e ∨ .ended false ∈ s.log := by
    intro s e
    rw [hlog, hlog, step_tally, strays]
    cases ends s e <;> cases acked s e.1 <;> simp
  have hkeep : ∀ s e, .ended false ∉ s.log → True → ¬ strays s e →
      .ended false ∉ (step s e).log := by
    intro s e hinv _ hnot
    simp [hstep, hinv, hnot]
  refine always_iff_each hkeep (fun _ => id) ?_ ?_ each_true
  · intro s e hinv _ hnext hstray
    exact hnext ((hstep s e).mpr (.inl hstray))
  · cases start <;> simp [Start.sess]

/-- A reliable 183 answers the offer, the session sends an UPDATE with a new one, and the PRACK of
the 183 ends it. -/
theorem prack_ends_update : ¬ ∀ (start : Start) (events : List (Event × Env)),
    Always step (fun s => .ended false ∉ s.log) start.sess events := by
  intro h
  have hrun := (h (.accept { met := .INVITE, cseq := 1, sdp := true, rel100 := .ENABLED })
    [(.progress 183 .ENABLED (some [118]), {}), (.modify (some [119]), {}),
     (.prack { met := .PRACK, cseq := 2, rack := ⟨1, 1, .INVITE⟩, sdp := false }, {})]).last
  revert hrun
  decide

/-! ## Requests that are sent again -/

/-- A delayed re-INVITE is an INVITE, and another delayed request what it was at first. -/
def Right (log : List Out) : Out → Prop
  | .retry .sess sent => ∃ req, sent = some req ∧ req.met = .INVITE
  | .retry (.request id) sent => ∃ req, sent = some req ∧ .original id req ∈ log
  | _ => True

/-- The requests are those that were made, with themselves for their timers' handlers. -/
structure Ready (c : Table Request × List Out) : Prop where
  made : ∀ id r, c.1.get id = some r →
    .original id r.req ∈ c.2 ∧ (r.tmr = none ∨ r.tmr = some (.request id))
  right : ∀ out ∈ c.2, Right c.2 out

variable {log : List Out} {out : Out}

theorem Right.cons {out' : Out} (h : Right log out) : Right (out' :: log) out := by
  unfold Right at h ⊢
  split at h
  · exact h
  · obtain ⟨req, hsent, hmem⟩ := h
    exact ⟨req, hsent, mem_cons_of_mem _ hmem⟩
  · exact h

variable {requests : Table Request} {e : Event × Env}

theorem Ready.cons (h : Ready (requests, log)) (hout : Right log out) :
    Ready (requests, out :: log) where
  made := fun id r hget => ⟨mem_cons_of_mem _ (h.made id r hget).1, (h.made id r hget).2⟩
  right := by
    intro out' hmem
    rcases mem_cons.mp hmem with rfl | hmem
    · exact hout.cons
    · exact (h.right out' hmem).cons

/-- A request is left, or kept with another timer. -/
theorem Ready.set {r : Option Request} (h : Ready (requests, log))
    (hr : ∀ r' r₀, r = some r' → requests.get id = some r₀ →
      r'.req = r₀.req ∧ (r'.tmr = none ∨ r'.tmr = some (.request id))) :
    Ready (requests.set id r, log) := by
  refine ⟨fun id' r' hget => ?_, h.right⟩
  rw [Table.get_set] at hget
  split at hget
  · next hid =>
      subst hid
      obtain ⟨r₀, hr₀, hsome⟩ := bind_eq_some_iff.mp hget
      obtain ⟨hreq, htmr⟩ := hr r' r₀ hsome hr₀
      exact ⟨hreq ▸ (h.made _ r₀ hr₀).1, htmr⟩
  · exact h.made id' r' hget

theorem Ready.make (h : Ready (requests, log)) (req : Req) :
    Ready (requests.add { req }, .original requests.fresh req :: log) := by
  have hlog : Ready (requests, .original requests.fresh req :: log) := h.cons trivial
  refine ⟨fun id r hget => ?_, hlog.right⟩
  rw [Table.get_add] at hget
  split at hget
  · cases hget
    simp_all
  · exact hlog.made id r hget

theorem Moves.ready {c c' : Core} (h : Moves c c') (hready : Ready c.2.2) : Ready c'.2.2 := by
  induction h with
  | refl => exact hready
  | replies _ _ ih => exact ih
  | drop id _ ih => exact ih.set (by simp)
  | keep _ hget hreq htmr ih =>
    refine ih.set ?_
    rintro r' r₀ ⟨⟩ hr₀
    cases hget.symm.trans hr₀
    refine ⟨hreq, ?_⟩
    rcases htmr with htmr | htmr
    · rw [htmr]
      exact (ih.made _ _ hget).2
    · exact htmr
  | make req _ ih => exact ih.make req

theorem Ready.ackedLog (h : Ready s.core.2.2) (e : Event × Env) (reply : Reply) :
    Ready (s.requests, ackedLog s e reply) := by
  unfold Sipsess.ackedLog
  split
  · exact Ready.cons h trivial
  · exact h

theorem request_sent (hget : s.requests.get id = some r) (htmr : r.tmr = none) (env : Env) :
    (request s id env).1 = some r.req ∧ (request s id env).2.log = s.log := by
  unfold request
  rw [hget]
  simp only [htmr, isSome_none, Bool.false_eq_true, if_false]
  split
  · exact ⟨rfl, rfl⟩
  split
  · exact ⟨rfl, rfl⟩
  · exact ⟨rfl, rfl⟩

/-- No timer comes for a PRACK that is to be repeated, and that of a re-INVITE while no other
request is under way. -/
def Repeats (s : Sess) (e : Event × Env) : Prop :=
  match e.1 with
  | .timer .sess => s.tmr → s.req = none
  | .timer (.request id) => ∀ r, s.requests.get id = some r → r.tmr.isSome → r.req.met = .UPDATE
  | _ => True

theorem Ready.step (h : Ready s.core.2.2) (he : Repeats s e) : Ready (step s e).core.2.2 := by
  obtain ⟨e, env⟩ := e
  cases e with
  | ack msg =>
    cases hacked : acked s (.ack msg) with
    | none =>
      unfold acked at hacked
      simpa only [Sipsess.step, ackHandler, hacked] using h
    | some found =>
      simp only [Sipsess.step, ackHandler_core hacked]
      exact h.ackedLog _ _
  | prack msg =>
    cases hacked : acked s (.prack msg) with
    | none =>
      unfold acked at hacked
      simpa only [Sipsess.step, prackHandler, hacked] using h
    | some found => exact (prackHandler_moves hacked).ready (h.ackedLog _ _)
  | timeout reply =>
    simp only [Sipsess.step, replyTimeout]
    split
    · exact h
    · simp [apply_ite Sess.core]
      exact h
  | timer src =>
    cases src with
    | sess =>
      simp only [Sipsess.step, reinviteTimer]
      split
      · exact h
      · next htmr =>
          have hreq : s.req = none := he (by simpa using htmr)
          simp only [emit_core, sipsessReinvite_core]
          refine Ready.cons h ?_
          unfold sipsessReinvite
          simp [hreq, apply_ite Prod.fst, Right]
    | request id =>
      simp only [Sipsess.step]
      cases hget : s.requests.get id with
      | none => exact h
      | some r =>
        cases harg : r.tmr with
        | none => simpa [harg] using h
        | some arg =>
          have hmet : r.req.met = .UPDATE := he r hget (by simp [harg])
          obtain ⟨hmade, htmr⟩ := h.made id r hget
          obtain rfl : arg = .request id := by simpa [harg] using htmr
          have hget₁ := setRequest_get (r := { r with tmr := none }) hget
          obtain ⟨hsent, hlog⟩ := request_sent hget₁ rfl env
          have hkept : Ready (s.setRequest id (some { r with tmr := none })).core.2.2 :=
            (setRequest_moves (r := { r with tmr := none }) hget rfl (.inr (.inl rfl))).ready h
          simp only [harg, requestTimer, hmet, if_true]
          refine Ready.cons ((request_moves _ id env).ready hkept) ?_
          rw [hsent]
          exact ⟨r.req, rfl, hlog ▸ hmade⟩
  | progress _ _ _ | answer _ _ | refresh _ | modify _ | response _ _ | bye | close | abort =>
    exact (step_moves rfl).ready h

/-- A timer that comes for nothing is seen in the log. -/
theorem repeats_of_right (h : Ready s.core.2.2)
    (hright : ∀ out ∈ (step s e).log, Right (step s e).log out) : Repeats s e := by
  obtain ⟨e, env⟩ := e
  cases e
  case timer src =>
    cases src with
    | sess =>
      intro htmr
      by_contra hreq
      have hsome : s.req.isSome := isSome_iff_ne_none.mpr hreq
      have hnone := hright (.retry .sess none)
        (by simp [step, reinviteTimer, sipsessReinvite, Sess.emit, htmr, hsome])
      simp [Right] at hnone
    | request id =>
      intro r hget hsome
      by_contra hmet
      obtain ⟨arg, harg⟩ := isSome_iff_exists.mp hsome
      obtain rfl : arg = .request id := by simpa [harg] using (h.made id r hget).2
      have hnone := hright (.retry (.request id) none)
        (by simp [step, requestTimer, Sess.emit, hget, harg, hmet])
      simp [Right] at hnone
  all_goals trivial

/-- What delayed requests send is right in a whole run, if and only if no timer comes for a PRACK,
and that of a re-INVITE while no other request is under way. -/
theorem retries_iff (start : Start) (events : List (Event × Env)) :
    Always step (fun s => ∀ out ∈ s.log, Right s.log out) start.sess events ↔
    Each step Repeats start.sess events := by
  have hkeep : ∀ s e, Ready s.core.2.2 → True → Repeats s e → Ready (step s e).core.2.2 :=
    fun _ _ h _ he => h.step he
  refine always_iff_each hkeep (fun _ h => h.right) (fun _ _ h _ => repeats_of_right h) ?_ each_true
  cases start <;> exact ⟨by simp [Start.sess], by simp [Start.sess]⟩

/-- A PRACK that is answered with 491 is not sent again. -/
theorem prack_not_repeated : ¬ ∀ (start : Start) (events : List (Event × Env)),
    Always step (fun s => ∀ out ∈ s.log, Right s.log out) start.sess events := by
  intro h
  have hrun := (h (.connect (some [118]))
    [(.response .sess (.ok { scode := 183, sdp := true, rel := some 1, cseq := 1 }), {}),
     (.response (.request 0) (.ok { scode := 491 }), {}), (.timer (.request 0), {})]).last
  have hnone := hrun (.retry (.request 0) none) (by decide)
  simp [Right] at hnone

end LibRe.Sipsess
