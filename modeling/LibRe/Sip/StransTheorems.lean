/-
LibRe.Sip.StransTheorems — what server transactions let through, and what they answer.

`Fits` relates a transaction to the responses its user has sent with it: none in `TRYING`,
provisional ones in `PROCEEDING`, one final response behind them later, and the buffer of
the transaction is the last of them. Every event keeps it for all transactions of the
table, and then the rules for one incoming request are read off the handlers.
-/
import LibRe.Lib.Machine
import LibRe.Sip.Strans

namespace LibRe.Sip.Strans

open Machine List

variable {r : Response} {st' : SipStrans} {cmp : SipStrans → Bool}

/-- The responses that a user has sent with transaction `id`. -/
def responses (log : List Out) (id : Nat) : List Response :=
  log.filterMap fun
    | .response id' r => if id' = id then some r else none
    | _ => none

/-- The final ones among them. -/
def finals (log : List Out) (id : Nat) : List Response :=
  (responses log id).filter fun r => 200 ≤ r.scode

/-- Only answers to replies are responses of users. -/
@[simp] def Out.isResponse : Out → Bool
  | .response .. => true
  | _ => false

@[simp] theorem responses_append (a b : List Out) (id : Nat) :
    responses (a ++ b) id = responses a id ++ responses b id :=
  filterMap_append

@[simp] theorem responses_response (id' : Nat) (r : Response) (id : Nat) :
    responses [.response id' r] id = if id' = id then [r] else [] := by
  simp only [responses, filterMap_cons, filterMap_nil]
  split <;> simp_all

theorem responses_other {b : List Out} (h : ∀ out ∈ b, ¬ out.isResponse) (id : Nat) :
    responses b id = [] := by
  refine filterMap_eq_nil_iff.mpr fun out hout => ?_
  have := h out hout
  cases out <;> simp_all

/-! ## One transaction -/

/-- The buffer of a transaction is the last response. -/
def Holds (st : SipStrans) (r : Response) : Prop := st.mb = some r.mb ∧ st.dst = r.dst

/-- Provisional responses and then `r`. -/
def EndsWith (rs : List Response) (r : Response) : Prop :=
  ∃ prov, rs = prov ++ [r] ∧ ∀ p ∈ prov, p.scode < 200

/-- The responses sent with a transaction, by its state. -/
def Fits (st : SipStrans) (rs : List Response) : Prop :=
  match st.state with
  | .TRYING => rs = []
  | .PROCEEDING => ∃ r, EndsWith rs r ∧ r.scode < 200 ∧ Holds st r
  | .ACCEPTED => ∃ r, EndsWith rs r ∧ 200 ≤ r.scode ∧ r.scode < 300 ∧ Holds st r
  | .COMPLETED => ∃ r, EndsWith rs r ∧ 200 ≤ r.scode ∧ Holds st r
  | .CONFIRMED => ∃ r, EndsWith rs r ∧ 200 ≤ r.scode ∧ Holds st r

/-- No final response has been sent. -/
def SipStrans.early (st : SipStrans) : Prop := st.state = .TRYING ∨ st.state = .PROCEEDING

variable {st : SipStrans} {rs : List Response} {sts : Table SipStrans} {log : List Out} {id : Nat}
  {msg : SipMsg}

theorem EndsWith.getLast? (h : EndsWith rs r) : rs.getLast? = some r := by
  obtain ⟨prov, rfl, -⟩ := h
  exact getLast?_concat

/-- Behind `TRYING` there is a last response, and the transaction has it. -/
theorem Fits.last (h : Fits st rs) (hstate : st.state ≠ .TRYING) :
    ∃ r, EndsWith rs r ∧ Holds st r := by
  unfold Fits at h
  split at h <;> grind

/-- What was sent before a final response. -/
theorem Fits.provisional (h : Fits st rs) (hearly : st.early) : ∀ r ∈ rs, r.scode < 200 := by
  unfold Fits at h
  rcases hearly with hstate | hstate
  · simp_all
  · rw [hstate] at h
    obtain ⟨r, ⟨prov, rfl, hprov⟩, hr, -⟩ := h
    grind

theorem finals_of_early (h : Fits st (responses log id)) (hearly : st.early) :
    finals log id = [] := by
  simpa [finals] using h.provisional hearly

/-- The final response is the last one. -/
theorem finals_of_endsWith (h : EndsWith (responses log id) r) (hr : 200 ≤ r.scode) :
    finals log id = [r] := by
  obtain ⟨prov, hrs, hprov⟩ := h
  have hnone : prov.filter (fun r => decide (200 ≤ r.scode)) = [] := by simpa using hprov
  simp [finals, hrs, hnone, hr]

/-- What is sent again is the last response. -/
theorem Fits.resend (h : Fits st (responses log id)) (hstate : st.state ≠ .TRYING) :
    ∃ r, (responses log id).getLast? = some r ∧ resend id st = [.resend id r.dst r.mb] := by
  obtain ⟨r, hends, hmb, hdst⟩ := h.last hstate
  exact ⟨r, hends.getLast?, by simp [Strans.resend, hmb, hdst]⟩

/-- State, buffer and address are what the responses have to do with. -/
theorem Fits.congr (h : Fits st rs) (hstate : st'.state = st.state) (hmb : st'.mb = st.mb)
    (hdst : st'.dst = st.dst) : Fits st' rs := by
  unfold Fits Holds at h ⊢
  rwa [hstate, hmb, hdst]

/-- A reply while no final response has been sent. -/
theorem Fits.replied (h : ∀ r ∈ rs, r.scode < 200) (hold : Holds st r)
    (hst' : replied st r.scode = some st') :
    Fits st' (rs ++ [r]) ∧ (r.scode < 200 → st'.early) ∧ st'.held = st.held := by
  have hends : EndsWith (rs ++ [r]) r := ⟨rs, rfl, h⟩
  obtain ⟨hmb, hdst⟩ := hold
  unfold Strans.replied at hst'
  split_ifs at hst' <;> cases hst' <;> simp only [Fits, Holds, SipStrans.early] <;> grind

/-! ## All transactions -/

/-- Every transaction fits the responses sent with it; a user only has the pointer to one
while no final response has been sent. -/
structure Sound (sts : Table SipStrans) (log : List Out) : Prop where
  log_lt : ∀ id r, Out.response id r ∈ log → id < sts.fresh
  fits : ∀ id st, sts.get id = some st → Fits st (responses log id)
  held : ∀ id st, sts.get id = some st → st.held → st.early

section

variable (h : Sound sts log)
include h

theorem Sound.responses_fresh : responses log sts.fresh = [] := by
  refine filterMap_eq_nil_iff.mpr fun out hout => ?_
  have := h.log_lt sts.fresh
  grind

/-- Nothing but what is seen changes. -/
theorem Sound.seen {outs : List Out} (houts : ∀ out ∈ outs, ¬ out.isResponse) :
    Sound sts (log ++ outs) := by
  refine ⟨fun id r hmem => ?_, fun id st hst => ?_, h.held⟩
  · rcases mem_append.mp hmem with hmem | hmem
    · exact h.log_lt id r hmem
    · exact absurd rfl (houts _ hmem)
  · simpa [responses_other houts] using h.fits id st hst

/-- One transaction changes or goes; if it stays it fits what has been sent. -/
theorem Sound.set {st' : Option SipStrans} (hst' : ∀ st, st' = some st → sts.get id ≠ none →
    Fits st (responses log id) ∧ (st.held → st.early)) : Sound (sts.set id st') log := by
  refine ⟨h.log_lt, fun id' st hst => ?_, fun id' st hst => ?_⟩ <;> rw [Table.get_set] at hst
  · grind [fits, Option.bind_eq_some_iff]
  · grind [held, Option.bind_eq_some_iff]

/-- A transaction is gone. -/
theorem Sound.free (id : Nat) : Sound (sts.set id none) log := h.set (by simp)

/-- A transaction changes in what has nothing to do with its responses. -/
theorem Sound.update (hget : sts.get id = some st) (hstate : st'.state = st.state)
    (hmb : st'.mb = st.mb) (hdst : st'.dst = st.dst) (hheld : st'.held = st.held) :
    Sound (sts.set id (some st')) log := by
  refine h.set fun st₁ hst₁ _ => ?_
  cases hst₁
  refine ⟨(h.fits id st hget).congr hstate hmb hdst, ?_⟩
  unfold SipStrans.early
  rw [hheld, hstate]
  exact h.held id st hget

theorem Sound.alloc (msg : SipMsg) (cancelh : Bool) :
    Sound (sts.add (sipStransAlloc msg cancelh)) log := by
  have hfresh := h.responses_fresh
  refine ⟨fun id r hmem => Nat.lt_succ_of_lt (h.log_lt id r hmem), fun id st hst => ?_,
    fun id st hst => ?_⟩ <;>
    rw [Table.get_add] at hst
  · grind [fits, Fits, sipStransAlloc]
  · grind [held, SipStrans.early, sipStransAlloc]

/-- A response is sent. -/
theorem Sound.reply (hget : sts.get id = some st) (hearly : st.early) (r : Response)
    (err : Option Errno) :
    Sound (sipStransReply sts id st r err).1 (log ++ (sipStransReply sts id st r err).2) := by
  unfold sipStransReply
  cases err with
  | some err => simpa using h.free id
  | none =>
    have hprov := (h.fits id st hget).provisional hearly
    have hself : ∀ st', replied { st with mb := some r.mb, dst := r.dst, held := r.scode < 200 }
        r.scode = some st' →
        Fits st' (responses log id ++ [r]) ∧ (r.scode < 200 → st'.early) ∧
        st'.held = decide (r.scode < 200) :=
      fun st' => Fits.replied hprov ⟨rfl, rfl⟩
    refine ⟨fun id' r' hmem => ?_, fun id' st' hst' => ?_, fun id' st' hst' => ?_⟩
    · have := h.log_lt id' r'
      have := Table.lt_of_get hget
      simp only [mem_append, mem_singleton, Out.response.injEq, Table.fresh_set] at hmem ⊢
      grind
    · grind [fits, responses_append, responses_response, Table.get_set]
    · grind [held, Table.get_set]

end

/-! ## Lookups -/

theorem hashLookup_some (h : hashLookup sts cmp = some (id, st)) : sts.get id = some st ∧ cmp st :=
  ⟨Table.get_eq_some_iff.mpr (mem_of_find?_eq_some h),
    find?_some (p := fun item : Nat × SipStrans => cmp item.2) h⟩

theorem hashLookup_none (h : hashLookup sts cmp = none) (hget : sts.get id = some st) : ¬ cmp st :=
  fun hcmp => find?_eq_none.mp h _ (Table.get_eq_some_iff.mp hget) hcmp

/-- A lookup finds something if there is something to be found. -/
theorem hashLookup_isSome (hget : sts.get id = some st) (hcmp : cmp st) :
    ∃ id' st', hashLookup sts cmp = some (id', st') := by
  cases hlookup : hashLookup sts cmp with
  | none => exact absurd hcmp (hashLookup_none hlookup hget)
  | some item => exact ⟨item.1, item.2, rfl⟩

/-! ## Incoming requests -/

@[simp] theorem mem_resend {out : Out} : out ∈ resend id st ↔ ∃ mb, st.mb = some mb ∧
    out = .resend id st.dst mb := by
  simp [resend, eq_comm]

@[simp] theorem mem_sipReply {out : Out} {scode : Nat} {reason : String} :
    out ∈ sipReply msg scode reason ↔ msg.met ≠ "ACK" ∧ out = .reply msg scode reason := by
  simp [sipReply]

theorem resend_not_response : ∀ out ∈ resend id st, ¬ out.isResponse := by
  simp +contextual

theorem sipReply_not_response (msg : SipMsg) (scode : Nat) (reason : String) :
    ∀ out ∈ sipReply msg scode reason, ¬ out.isResponse := by
  simp

/-- An ACK that is not absorbed has no transaction, or one with a final response below 300. -/
theorem Sound.ackHandler (h : Sound sts log) (msg : SipMsg) :
    Sound (ackHandler sts msg).2 log ∧ ((ackHandler sts msg).1 = false →
      (∀ id st, sts.get id = some st → ¬ cmpAckHandler msg st) ∨
        ∃ id st r, sts.get id = some st ∧ cmpAckHandler msg st ∧ finals log id = [r] ∧
        r.scode < 300) := by
  unfold Strans.ackHandler
  split
  · rename_i hlookup
    exact ⟨h, fun _ => .inl fun id st hget => hashLookup_none hlookup hget⟩
  rename_i id st hlookup
  obtain ⟨hget, hcmp⟩ := hashLookup_some hlookup
  have hfits := h.fits id st hget
  have hheld := h.held id st hget
  split
  · rename_i hstate
    simp only [Fits, hstate] at hfits
    obtain ⟨r, hends, hfinal, hok, -⟩ := hfits
    exact ⟨h, fun _ => .inr ⟨id, st, r, hget, hcmp, finals_of_endsWith hends hfinal, hok⟩⟩
  · rename_i hstate
    split
    · exact ⟨h.free id, by simp⟩
    · refine ⟨h.set ?_, by simp⟩
      rintro _ ⟨⟩ -
      simp only [Fits, SipStrans.early, hstate] at hfits hheld ⊢
      exact ⟨hfits, by simpa using hheld⟩
  · exact ⟨h, by simp⟩

/-- Cancel handlers are called before the final response. -/
theorem Sound.cancelHandler (h : Sound sts log) (msg : SipMsg) :
    Sound (cancelHandler sts msg).2.1 (log ++ (cancelHandler sts msg).2.2) ∧
      ∀ id, Out.cancelh id ∈ (cancelHandler sts msg).2.2 → finals log id = [] := by
  unfold Strans.cancelHandler
  split
  · exact ⟨h.seen (by simp), by simp⟩
  rename_i id st hlookup
  obtain ⟨hget, -⟩ := hashLookup_some hlookup
  have hset : Sound (sts.set id (some { st with cancelMsg := some { msg with tag := st.msg.tag } }))
      log :=
    h.update hget rfl rfl rfl rfl
  have hcalled : st.early → ∀ id', Out.cancelh id' ∈ (if st.cancelh then [Out.cancelh id] else []) →
      finals log id' = [] := by
    intro hearly
    cases st.cancelh <;> simp [finals_of_early (h.fits id st hget) hearly]
  split
  · refine ⟨hset.seen ?_, by simpa using hcalled (.inl ‹_›)⟩
    cases st.cancelh <;> simp +contextual [or_imp]
  · refine ⟨hset.seen ?_, by simpa using hcalled (.inr ‹_›)⟩
    cases st.cancelh <;> simp +contextual [or_imp]
  · exact ⟨h.seen (sipReply_not_response _ _ _), by simp⟩

theorem Sound.requestHandler (h : Sound sts log) (msg : SipMsg) :
    Sound (requestHandler sts msg).2.1 (log ++ (requestHandler sts msg).2.2) ∧
      ∀ id, Out.cancelh id ∈ (requestHandler sts msg).2.2 → finals log id = [] := by
  unfold Strans.requestHandler
  split
  · exact ⟨(h.ackHandler msg).1.seen (by simp), by simp⟩
  split
  · split
    · exact ⟨h.seen resend_not_response, by simp⟩
    · exact ⟨h.seen resend_not_response, by simp⟩
    · exact ⟨h.seen (by simp), by simp⟩
  · split_ifs
    · exact ⟨h.seen (sipReply_not_response _ _ _), by simp⟩
    · exact h.cancelHandler msg
    · exact ⟨h.seen (by simp), by simp⟩

/-- `msg` repeats the request of a transaction. An ACK has no transaction of its own. -/
def Repeats (msg : SipMsg) (st : SipStrans) : Prop := msg.met ≠ "ACK" ∧ cmpHandler msg st

/-- `msg` is the request of a transaction that came by another way: it has no tag in To,
and no transaction has its branch. -/
def Merged (sts : Table SipStrans) (msg : SipMsg) : Prop :=
  msg.met ≠ "ACK" ∧ msg.toTag = "" ∧ (∀ id st, sts.get id = some st → ¬ Repeats msg st) ∧
    ∃ id st, sts.get id = some st ∧ cmpMergeHandler msg st

/-- The rules for an incoming request, by the transactions of the stack and the responses
sent with them so far; `outs` is what is seen of its arrival. -/
structure RequestRight (s : Stack) (msg : SipMsg) (outs : List Out) : Prop where
  absorbed : ∀ id st, s.sts.get id = some st → Repeats msg st → ∀ msg', Out.passed msg' ∉ outs
  answered : ∀ id st, s.sts.get id = some st → Repeats msg st →
    outs = [] ∨ ∃ id' st' r, s.sts.get id' = some st' ∧ Repeats msg st' ∧
      (responses s.log id').getLast? = some r ∧
      outs = [.resend id' r.dst r.mb]
  merged : Merged s.sts msg → outs = [.reply msg 482 "Loop Detected"]
  cancel : ∀ id, Out.cancelh id ∈ outs → finals s.log id = []
  ack : msg.met = "ACK" → Out.passed msg ∈ outs →
    (∀ id st, s.sts.get id = some st → ¬ cmpAckHandler msg st) ∨
      ∃ id st r, s.sts.get id = some st ∧ cmpAckHandler msg st ∧ finals s.log id = [r] ∧
      r.scode < 300

/-- Nothing else passes a request on or calls a cancel handler. -/
def ServerRight (s : Stack) (e : Event) : Prop :=
  match e with
  | .recv msg => RequestRight s msg (act s.sts e).2
  | _ => ∀ out ∈ (act s.sts e).2, (∀ msg, out ≠ .passed msg) ∧ ∀ id, out ≠ .cancelh id

variable {s : Stack}

/-- What is seen of a request that repeats one of a transaction. -/
theorem Sound.repeated (h : Sound s.sts s.log) (hget : s.sts.get id = some st)
    (hrep : Repeats msg st) :
    (Strans.requestHandler s.sts msg).1 = true ∧
      ((Strans.requestHandler s.sts msg).2.2 = [] ∨
        ∃ id' st' r, s.sts.get id' = some st' ∧ Repeats msg st' ∧
          (responses s.log id').getLast? = some r ∧
          (Strans.requestHandler s.sts msg).2.2 = [.resend id' r.dst r.mb]) := by
  obtain ⟨id', st', hlookup⟩ := hashLookup_isSome hget hrep.2
  obtain ⟨hget', hcmp⟩ := hashLookup_some hlookup
  have hresend : st'.state ≠ .TRYING →
      ∃ id₁ st₁ r, s.sts.get id₁ = some st₁ ∧ Repeats msg st₁ ∧
        (responses s.log id₁).getLast? = some r ∧
        Strans.resend id' st' = [.resend id₁ r.dst r.mb] := by
    intro hstate
    obtain ⟨r, hlast, hr⟩ := (h.fits id' st' hget').resend hstate
    exact ⟨id', st', r, hget', ⟨hrep.1, hcmp⟩, hlast, hr⟩
  unfold Strans.requestHandler
  simp only [if_neg hrep.1, hlookup]
  split
  · exact ⟨rfl, .inr (hresend (by simp [*]))⟩
  · exact ⟨rfl, .inr (hresend (by simp [*]))⟩
  · exact ⟨rfl, .inl rfl⟩

/-- A merged request. -/
theorem requestHandler_merged (h : Merged sts msg) :
    requestHandler sts msg = (true, sts, [.reply msg 482 "Loop Detected"]) := by
  obtain ⟨hack, htag, hnone, id, st, hget, hcmp⟩ := h
  have hlookup : hashLookup sts (cmpHandler msg) = none := by
    cases hlookup : hashLookup sts (cmpHandler msg) with
    | none => rfl
    | some item =>
      obtain ⟨hget', hcmp'⟩ := hashLookup_some hlookup
      exact absurd ⟨hack, hcmp'⟩ (hnone _ _ hget')
  obtain ⟨id', st', hmerge⟩ := hashLookup_isSome hget hcmp
  simp [requestHandler, hack, hlookup, htag, hmerge, sipReply]

/-- What is seen of a request that `request_handler` absorbs. -/
theorem act_recv_of_handled (h : (requestHandler sts msg).1 = true) :
    (act sts (.recv msg)).2 = (requestHandler sts msg).2.2 := by
  simp only [act, h, if_true]

theorem Sound.requestRight (h : Sound s.sts s.log) (msg : SipMsg) :
    RequestRight s msg (Strans.act s.sts (.recv msg)).2 where
  absorbed id st hget hrep msg' := by
    obtain ⟨hhandled, houts⟩ := h.repeated hget hrep
    rw [act_recv_of_handled hhandled]
    rcases houts with houts | ⟨id', st', r, -, -, -, houts⟩ <;> simp [houts]
  answered id st hget hrep := by
    obtain ⟨hhandled, houts⟩ := h.repeated hget hrep
    rwa [act_recv_of_handled hhandled]
  merged hmerged := by
    simp [requestHandler_merged, act_recv_of_handled, hmerged]
  cancel id hcall := by
    refine (h.requestHandler msg).2 id ?_
    simp only [Strans.act] at hcall
    split at hcall
    · exact hcall
    · simpa using hcall
  ack hack hpassed := by
    apply (h.ackHandler msg).2
    by_contra hhandled
    have hhandled : (Strans.requestHandler s.sts msg).1 = true := by
      simpa only [Strans.requestHandler, hack, if_true, Bool.not_eq_false] using hhandled
    rw [act_recv_of_handled hhandled] at hpassed
    simp [Strans.requestHandler, hack] at hpassed

/-- Every event keeps the table sound, and goes by the rules. -/
theorem Sound.act (h : Sound s.sts s.log) (e : Event) :
    Sound (act s.sts e).1 (s.log ++ (act s.sts e).2) ∧ ServerRight s e := by
  have hquiet : Sound s.sts (s.log ++ []) ∧
      ∀ out ∈ ([] : List Out), (∀ msg, out ≠ .passed msg) ∧ ∀ id, out ≠ .cancelh id :=
    ⟨h.seen (by simp), by simp⟩
  cases e with
  | recv msg =>
    refine ⟨?_, h.requestRight msg⟩
    obtain ⟨hreq, -⟩ := h.requestHandler msg
    simp only [Strans.act]
    split
    · exact hreq
    · rw [← append_assoc]
      exact hreq.seen (by simp)
  | alloc msg cancelh =>
    exact ⟨(h.alloc msg cancelh).seen (by simp [Strans.act]), by simp [ServerRight, Strans.act]⟩
  | reply id r err =>
    simp only [ServerRight, Strans.act]
    split
    · rename_i st hget
      split
      · exact ⟨h.reply hget (h.held id st hget ‹_›) r err, by cases err <;> simp [sipStransReply]⟩
      · exact hquiet
    · exact hquiet
  | replyNew msg stp r err =>
    simp only [ServerRight, Strans.act]
    split
    · exact hquiet
    · exact ⟨(h.alloc msg false).reply (by simp [Table.get_add]) (.inl rfl) r err,
        by cases err <;> simp [sipStransReply]⟩
  | tmr id | drop id =>
    simp only [ServerRight, Strans.act]
    split
    · split
      · exact ⟨(h.free id).seen (by simp), by simp⟩
      · exact hquiet
    · exact hquiet
  | tmrg id =>
    simp only [ServerRight, Strans.act]
    split
    · rename_i st hget
      split
      · have hset : Sound (s.sts.set id (some (retransmitHandler id st).1)) s.log :=
          h.update hget rfl rfl rfl rfl
        exact ⟨hset.seen resend_not_response, by simp +contextual [retransmitHandler]⟩
      · exact hquiet
    · exact hquiet

theorem start_sound : Sound start.sts start.log :=
  ⟨(fun _ _ h => nomatch h), (fun _ _ h => nomatch h), (fun _ _ h => nomatch h)⟩

/-- In every run of a stack every incoming request is treated by the rules, and nothing
else passes requests on or calls cancel handlers. -/
theorem server_transaction_rules (events : List Event) : Each step ServerRight start events := by
  have hall : Always step (fun s => Sound s.sts s.log) start events :=
    Each.always (fun s e hs _ => (hs.act e).1) start_sound each_true
  exact Each.of_always (fun s e hs _ => (hs.act e).2) hall each_true

end LibRe.Sip.Strans
