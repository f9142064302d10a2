/-
LibRe.Sip.CtransTheorems — what the user of a client transaction is told.

`Told` relates a transaction to the calls of its handler so far: only provisional
responses before `COMPLETED`, and one outcome behind them in `COMPLETED`. Every event at
a transaction keeps it, so in every run of the table each handler gets provisional
responses, then at most one outcome, then nothing. An ACK is sent for each response from
300 on that reaches an INVITE transaction, and for nothing else.
-/
import LibRe.Lib.Machine
import LibRe.Sip.Ctrans

namespace LibRe.Sip.Ctrans

open Machine List Option

variable {ct' : SipCtrans} {e : CtEvent} {r : Option SipCtrans × List Out} {outs : List Out}

/-- A call for a response below 200. -/
def RespCall.provisional (call : RespCall) : Prop :=
  call.err = none ∧ ∃ msg, call.msg = some msg ∧ msg.scode < 200

/-- Provisional responses, and behind them at most one call that is not for one. -/
def OneOutcome (calls : List RespCall) : Prop :=
  ∃ prov fin, calls = prov ++ fin ∧ (∀ call ∈ prov, call.provisional) ∧
    (∀ call ∈ fin, ¬ call.provisional) ∧
    fin.length ≤ 1

/-- The ACKs among what a transaction did. -/
def acks (outs : List Out) : List String :=
  outs.filterMap fun
    | .ack mb => some mb
    | _ => none

/-- What transaction `id` did. -/
def outsOf (log : List (Nat × Out)) (id : Nat) : List Out :=
  log.filterMap fun entry => if entry.1 = id then some entry.2 else none

@[simp] theorem respCalls_append (a b : List Out) :
    respCalls (a ++ b) = respCalls a ++ respCalls b :=
  filterMap_append

@[simp] theorem acks_append (a b : List Out) : acks (a ++ b) = acks a ++ acks b := filterMap_append

@[simp] theorem outsOf_append (a b : List (Nat × Out)) (id : Nat) :
    outsOf (a ++ b) id = outsOf a id ++ outsOf b id :=
  filterMap_append

@[simp] theorem outsOf_map (outs : List Out) (id' id : Nat) :
    outsOf (outs.map fun out => (id', out)) id = if id' = id then outs else [] := by
  induction outs with
  | nil => simp [outsOf]
  | cons out outs ih =>
    grind [outsOf]

/-! ## One transaction -/

/-- What the handler has been told, by the state of the transaction. -/
def Told (ct : Option SipCtrans) (calls : List RespCall) : Prop :=
  match ct with
  | none => OneOutcome calls
  | some ct =>
    match ct.state with
    | .COMPLETED =>
      ∃ prov call, calls = prov ++ [call] ∧ (∀ call ∈ prov, call.provisional) ∧ ¬ call.provisional
    | _ => ∀ call ∈ calls, call.provisional

/-- What every transaction of the table has: `CALLING` is for INVITE only, `TRYING` for
all others, and a completed INVITE has its ACK. -/
structure Formed (ct : SipCtrans) : Prop where
  calling : ct.state = .CALLING → ct.invite
  trying : ct.state = .TRYING → ct.invite = false
  ack : ct.invite → ct.state = .COMPLETED → ct.mbAck.isSome

variable {software : Option String} {ct : SipCtrans} {calls : List RespCall} {msg : SipMsg}

theorem oneOutcome_of_provisional (h : ∀ call ∈ calls, call.provisional) : OneOutcome calls :=
  ⟨calls, [], (append_nil _).symm, h, (fun _ h => nomatch h), Nat.zero_le _⟩

theorem oneOutcome_concat (h : ∀ call ∈ calls, call.provisional) {call : RespCall}
    (hcall : ¬ call.provisional) :
    OneOutcome (calls ++ [call]) :=
  ⟨calls, [call], rfl, h, (fun c hc => by cases mem_singleton.mp hc; exact hcall), le_refl 1⟩

/-- A transaction that is freed has told its user at most one outcome. -/
theorem Told.freed (h : Told (some ct) calls) : OneOutcome calls := by
  unfold Told at h
  simp only at h
  split at h
  · obtain ⟨prov, call, rfl, hprov, hcall⟩ := h
    exact oneOutcome_concat hprov hcall
  · exact oneOutcome_of_provisional h

/-- Before `COMPLETED` there were only provisional responses. -/
theorem told_iff_of_ne (hstate : ct.state ≠ .COMPLETED) :
    Told (some ct) calls ↔ ∀ call ∈ calls, call.provisional := by
  simp [Told]

/-- The state alone decides. -/
theorem told_congr (h : ct'.state = ct.state) (hct : Told (some ct) calls) :
    Told (some ct') calls := by
  simpa only [Told, h] using hct

theorem error_not_provisional (err : Errno) : ¬ RespCall.provisional
    { err := some err, msg := none } := by
  simp [RespCall.provisional]

theorem final_not_provisional (h : ¬ msg.scode < 200) : ¬ RespCall.provisional
    { err := none, msg := some msg } := by
  simpa [RespCall.provisional] using h

theorem provisional_concat (h : ∀ call ∈ calls, call.provisional) (hmsg : msg.scode < 200) :
    ∀ call ∈ calls ++ [RespCall.mk none (some msg)], call.provisional := by
  have hnew : RespCall.provisional ⟨none, some msg⟩ := ⟨rfl, msg, rfl, hmsg⟩
  grind

/-- `terminate` and the end of the transaction. -/
theorem Told.terminate (h : Told (some ct) calls) (err : Errno) :
    Told none (calls ++ respCalls (terminate ct err)) := by
  have hend : ct.state ≠ .COMPLETED → OneOutcome (calls ++ [{ err := some err, msg := none }]) :=
    fun hstate =>
    oneOutcome_concat ((told_iff_of_ne hstate).mp h) (error_not_provisional err)
  unfold Ctrans.terminate
  cases hstate : ct.state with
  | COMPLETED => simpa [respCalls, Told] using h.freed
  | TRYING | CALLING | PROCEEDING => exact hend (by simp [hstate])

/-- A final response: the transaction is completed, or freed. -/
theorem told_final (h : ∀ call ∈ calls, call.provisional) (hmsg : ¬ msg.scode < 200) :
    OneOutcome (calls ++ respCalls [respond msg]) ∧
      ∀ ct : SipCtrans, ct.state = .COMPLETED → Told (some ct)
      (calls ++ respCalls [respond msg]) := by
  refine ⟨oneOutcome_concat h (final_not_provisional hmsg), ?_⟩
  intro ct hstate
  unfold Told
  simp only [hstate]
  exact ⟨calls, _, rfl, h, final_not_provisional hmsg⟩

/-- What a response does to a transaction that is not completed. -/
structure Responded (ct : SipCtrans) (msg : SipMsg) (r : Option SipCtrans × List Out) : Prop where
  calls : respCalls r.2 = respCalls [respond msg]
  provisional : msg.scode < 200 → ∃ ct', r.1 = some ct' ∧ ct'.state = .PROCEEDING ∧
    ct'.met = ct.met ∧ acks r.2 = []
  final : ¬ msg.scode < 200 → r.1 = none ∨ ∃ ct', r.1 = some ct' ∧ ct'.state = .COMPLETED ∧
    ct'.met = ct.met ∧
    (ct.invite → ct'.mbAck.isSome)
  acks : (acks r.2).length = if ct.invite ∧ 300 ≤ msg.scode then 1 else 0

theorem responded_proceeding (hmet : ct'.met = ct.met) (hinvite : ct.invite) :
    Responded ct msg (inviteProceeding software ct' msg) := by
  unfold inviteProceeding
  simp only
  split_ifs <;> constructor <;> simp [respCalls, Ctrans.acks, respond, hmet, hinvite] <;> omega

/-- A response before `COMPLETED`. It is ignored in a state that the method does not have. -/
theorem responded (hstate : ct.state ≠ .COMPLETED) :
    Responded ct msg (responseHandler software ct msg) ∨
      ¬ Formed ct ∧ responseHandler software ct msg = (some ct, []) := by
  unfold responseHandler
  by_cases hinvite : ct.invite
  · rw [if_pos hinvite, inviteResponse]
    cases hs : ct.state with
    | COMPLETED => exact absurd hs hstate
    | TRYING => exact .inr ⟨fun hf => (by simp [hf.trying hs] at hinvite), rfl⟩
    | CALLING | PROCEEDING => exact .inl (responded_proceeding rfl hinvite)
  · rw [if_neg hinvite]
    cases hs : ct.state with
    | COMPLETED => exact absurd hs hstate
    | CALLING => exact .inr ⟨fun hf => hinvite (hf.calling hs), rfl⟩
    | TRYING | PROCEEDING =>
      refine .inl ?_
      simp only
      split_ifs <;> constructor <;> simp [respCalls, Ctrans.acks, respond, hinvite] <;> omega

/-- How many ACKs are sent for an event: one for a response from 300 on to an INVITE. -/
def ackCount (ct : SipCtrans) : CtEvent → Nat
  | .response msg => if ct.invite ∧ 300 ≤ msg.scode then 1 else 0
  | _ => 0

/-- What a step keeps: what the handler was told, and the form of the transaction. -/
structure Kept (ct : SipCtrans) (e : CtEvent) (calls : List RespCall)
    (r : Option SipCtrans × List Out) : Prop where
  told : Told r.1 (calls ++ respCalls r.2)
  formed : ∀ ct', r.1 = some ct' → Formed ct' ∧ ct'.met = ct.met
  acks : (acks r.2).length = ackCount ct e

theorem Responded.kept (h : Responded ct msg r)
    (hcalls : ∀ call ∈ calls, call.provisional) : Kept ct (.response msg) calls r := by
  by_cases h200 : msg.scode < 200
  · obtain ⟨ct', hr, hstate, hmet, -⟩ := h.provisional h200
    refine ⟨?_, fun ct₁ hct₁ => ?_, h.acks⟩
    · rw [hr, h.calls]
      exact (told_iff_of_ne (by simp [hstate])).mpr (provisional_concat hcalls h200)
    · cases hr.symm.trans hct₁
      exact ⟨⟨by simp [hstate], by simp [hstate], by simp [hstate]⟩, hmet⟩
  · obtain ⟨hfreed, hcompleted⟩ := told_final hcalls h200
    rcases h.final h200 with hr | ⟨ct', hr, hstate, hmet, hack⟩
    · refine ⟨?_, by simp [hr], h.acks⟩
      rw [hr, h.calls]
      exact hfreed
    refine ⟨?_, fun ct₁ hct₁ => ?_, h.acks⟩
    · rw [hr, h.calls]
      exact hcompleted ct' hstate
    · cases hr.symm.trans hct₁
      exact ⟨⟨by simp [hstate], by simp [hstate], fun hinvite _ =>
        hack (by rwa [SipCtrans.invite, ← hmet])⟩, hmet⟩

/-- A step that leaves the transaction alone and tells nothing. -/
theorem kept_silent (h : Told (some ct) calls) (hf : Formed ct)
    (hcalls : respCalls outs = []) (hacks : (acks outs).length = ackCount ct e) :
    Kept ct e calls (some ct, outs) := by
  refine ⟨?_, ?_, hacks⟩
  · simp [hcalls, h]
  · simp [hf]

theorem kept_response (h : Told (some ct) calls) (hf : Formed ct) :
    Kept ct (.response msg) calls (responseHandler software ct msg) := by
  by_cases hstate : ct.state = .COMPLETED
  · unfold responseHandler
    by_cases hinvite : ct.invite
    · obtain ⟨mb, hmb⟩ := isSome_iff_exists.mp (hf.ack hinvite hstate)
      simp only [hinvite, if_true, inviteResponse, hstate, hmb]
      split
      · exact kept_silent h hf rfl (if_neg (by omega)).symm
      · exact kept_silent h hf rfl (if_pos ⟨hinvite, by omega⟩).symm
    · rw [if_neg hinvite, hstate]
      exact kept_silent h hf rfl (if_neg (by simp [hinvite])).symm
  · rcases responded hstate with hresp | ⟨hno, -⟩
    · exact hresp.kept ((told_iff_of_ne hstate).mp h)
    · exact absurd hf hno

theorem acks_terminate (ct : SipCtrans) (err : Errno) : acks (terminate ct err) = [] := by
  unfold terminate
  split <;> rfl

/-- Events other than responses: the transaction stays as it is, up to its timer and its
counter, or it ends. -/
theorem step_other (he : ∀ msg, e ≠ .response msg) :
    ∃ outs, respCalls outs = [] ∧ acks outs = [] ∧
      ((∃ txc tmre, ctransStep software ct e = (some { ct with txc, tmre }, outs)) ∨
        ∃ err, ctransStep software ct e = (none, outs ++ terminate ct err)) := by
  cases e with
  | response msg => exact absurd rfl (he msg)
  | transport err => exact ⟨[], rfl, rfl, .inr ⟨err, rfl⟩⟩
  | tmr =>
    rw [ctransStep]
    split
    · exact ⟨[], rfl, rfl, .inr ⟨.ETIMEDOUT, rfl⟩⟩
    · exact ⟨[], rfl, rfl, .inl ⟨_, _, rfl⟩⟩
  | retransmit err =>
    rw [ctransStep]
    split
    · unfold retransmitHandler
      dsimp only
      cases retransmitTimeout _ with
      | none => exact ⟨[], rfl, rfl, .inl ⟨_, _, rfl⟩⟩
      | some timeout =>
        cases err with
        | none => exact ⟨[.send], rfl, rfl, .inl ⟨_, _, rfl⟩⟩
        | some err => exact ⟨[.send], rfl, rfl, .inr ⟨err, rfl⟩⟩
    · exact ⟨[], rfl, rfl, .inl ⟨_, _, rfl⟩⟩

/-- Every event at a transaction. -/
theorem kept_step (h : Told (some ct) calls) (hf : Formed ct) (e : CtEvent) :
    Kept ct e calls (ctransStep software ct e) := by
  by_cases he : ∃ msg, e = .response msg
  · obtain ⟨msg, rfl⟩ := he
    exact kept_response h hf
  have hcount : ackCount ct e = 0 := by
    cases e with
    | response msg => exact absurd ⟨msg, rfl⟩ he
    | tmr | retransmit _ | transport _ => rfl
  obtain ⟨outs, hcalls, hacks, ⟨txc, tmre, hr⟩ | ⟨err, hr⟩⟩ := step_other (not_exists.mp he)
  · rw [hr]
    refine ⟨?_, ?_, by simp [hacks, hcount]⟩
    · rw [hcalls, append_nil]
      exact told_congr rfl h
    · rintro _ ⟨⟩
      exact ⟨⟨hf.calling, hf.trying, hf.ack⟩, rfl⟩
  · rw [hr]
    refine ⟨?_, (fun _ h => nomatch h), by simp [hacks, acks_terminate, hcount]⟩
    simpa [hcalls] using h.terminate err

/-! ## A transaction that is not completed -/

/-- What an event at a transaction tells its user: nothing, a provisional response, or an
outcome. Only behind an outcome is it completed or gone. -/
inductive Reported (ct' : Option SipCtrans) (calls : List RespCall) : Prop where
  | silent (ct₁ : SipCtrans) (hct : ct' = some ct₁) (state : ct₁.state ≠ .COMPLETED)
      (hcalls : calls = [])
  | provisional (ct₁ : SipCtrans) (msg : SipMsg) (hct : ct' = some ct₁)
      (state : ct₁.state ≠ .COMPLETED)
      (hmsg : msg.scode < 200) (hcalls : calls = [{ err := none, msg := some msg }])
  | outcome (call : RespCall) (hcall : ¬ call.msg.any fun msg => msg.scode < 200)
      (hcalls : calls = [call])

theorem Responded.reported (h : Responded ct msg r) : Reported r.1 (respCalls r.2) := by
  by_cases hmsg : msg.scode < 200
  · obtain ⟨ct', hr, hstate, -⟩ := h.provisional hmsg
    exact .provisional ct' msg hr (by simp [hstate]) hmsg h.calls
  · exact .outcome { err := none, msg := some msg } (by simpa using hmsg) h.calls

/-- One event at a transaction that is not completed. -/
theorem reported_step (hstate : ct.state ≠ .COMPLETED) (e : CtEvent) :
    Reported (ctransStep software ct e).1 (respCalls (ctransStep software ct e).2) := by
  by_cases he : ∃ msg, e = .response msg
  · obtain ⟨msg, rfl⟩ := he
    rw [ctransStep]
    rcases responded hstate with hresp | ⟨-, hr⟩
    · exact hresp.reported
    · rw [hr]
      exact .silent ct rfl hstate rfl
  · obtain ⟨outs, hcalls, -, ⟨txc, tmre, hr⟩ | ⟨err, hr⟩⟩ := step_other (not_exists.mp he)
    · rw [hr]
      exact .silent _ rfl hstate hcalls
    · rw [hr]
      refine .outcome { err := some err, msg := none } Bool.false_ne_true ?_
      rw [respCalls_append, hcalls, terminate]
      split <;> simp_all [respCalls]

/-- Cancelling starts the timer of the INVITE again. -/
theorem cancel_eq (h : sipCtransCancel ct = .ok ct') :
    ct' = { ct with tmr := some (64 * sipT1) } := by
  unfold sipCtransCancel at h
  split at h
  · cases h
  · grind

/-! ## All transactions -/

/-- What holds of every stack: each handler was told what its transaction stands for, and
nothing was done by transactions that are still to come. -/
structure Ordered (s : Stack) : Prop where
  log_lt : ∀ out ∈ s.log, out.1 < s.cts.fresh
  told : ∀ id, Told (s.cts.get id) (respCalls (outsOf s.log id))
  formed : ∀ id ct, s.cts.get id = some ct → Formed ct

variable {s : Stack} {id : Nat}

theorem outsOf_of_lt {log : List (Nat × Out)} {n : Nat} (h : ∀ out ∈ log, out.1 < n) :
    outsOf log n = [] := by
  rw [outsOf, filterMap_eq_nil_iff]
  intro out hout
  exact if_neg (Nat.ne_of_lt (h out hout))

theorem apply_of_none (h : s.cts.get id = none) (e : CtEvent) : s.apply id e = s := by
  rw [Stack.apply, h]

theorem apply_of_some {ct : SipCtrans} (h : s.cts.get id = some ct) (e : CtEvent) :
    s.apply id e =
      { s with
        cts := s.cts.set id (ctransStep s.software ct e).1
        log := s.log ++ (ctransStep s.software ct e).2.map fun out => (id, out) } := by
  rw [Stack.apply, h]

theorem Ordered.kept (h : Ordered s) (hget : s.cts.get id = some ct) (e : CtEvent) :
    Kept ct e (respCalls (outsOf s.log id)) (ctransStep s.software ct e) :=
  kept_step (hget ▸ h.told id) (h.formed id ct hget) e

/-- An event at one transaction. -/
theorem Ordered.apply (h : Ordered s) (id : Nat) (e : CtEvent) : Ordered (s.apply id e) := by
  cases hget : s.cts.get id with
  | none => rwa [apply_of_none hget]
  | some ct =>
    have hkept := h.kept hget e
    have hlt := Table.lt_of_get hget
    rw [apply_of_some hget]
    refine ⟨fun out hout => ?_, fun id' => ?_, fun id' ct₁ hct₁ => ?_⟩
    · have := h.log_lt out
      simp only [mem_append, List.mem_map, Table.fresh_set] at hout ⊢
      grind
    · simp only [outsOf_append, outsOf_map, respCalls_append, Table.get_set, hget, bind_some]
      by_cases hid : id' = id
      · simpa [hid] using hkept.told
      · simpa [hid, Ne.symm hid, respCalls] using h.told id'
    · simp only [Table.get_set, hget, bind_some] at hct₁
      split at hct₁
      · exact (hkept.formed ct₁ hct₁).1
      · exact h.formed id' ct₁ hct₁

/-- A transaction that is gone, or has changed without a word to its user. -/
theorem Ordered.set (h : Ordered s) {ct' : Option SipCtrans}
    (hct' : ∀ ct ct₁, s.cts.get id = some ct → ct' = some ct₁ → Formed ct₁ ∧ ct₁.state = ct.state) :
    Ordered { s with cts := s.cts.set id ct' } := by
  refine ⟨h.log_lt, fun id' => ?_, fun id' ct₁ hct₁ => ?_⟩
  · have htold := h.told id'
    simp only [Table.get_set]
    split
    · rename_i hid
      rw [hid] at htold ⊢
      cases hget : s.cts.get id with
      | none => rwa [hget] at htold
      | some ct =>
        rw [hget] at htold
        cases hnew : ct' with
        | none => exact htold.freed
        | some ct₁ => exact told_congr (hct' ct ct₁ hget hnew).2 htold
    · exact htold
  · simp only [Table.get_set] at hct₁
    split at hct₁
    · obtain ⟨ct, hget, hnew⟩ := bind_eq_some_iff.mp hct₁
      exact (hct' ct ct₁ hget hnew).1
    · exact h.formed id' ct₁ hct₁

theorem Ordered.request (h : Ordered s) (tp : SipTransp) (met branch : String) (req : SipMsg)
    (err : Option Errno) :
    Ordered (s.request tp met branch req err) := by
  unfold Stack.request
  cases err with
  | some err => exact h
  | none =>
    have hformed : Formed (sipCtransRequest tp met branch req) := by
      constructor <;> by_cases hmet : met = "INVITE" <;>
        simp [sipCtransRequest, SipCtrans.invite, hmet]
    have hstate : (sipCtransRequest tp met branch req).state ≠ .COMPLETED := by
      grind [sipCtransRequest]
    refine ⟨fun out hout => Nat.lt_succ_of_lt (h.log_lt out hout), fun id' => ?_,
      fun id' ct₁ hct₁ => ?_⟩
    · simp only [Table.get_add]
      split
      · simp [*, outsOf_of_lt h.log_lt, told_iff_of_ne hstate, respCalls]
      · exact h.told id'
    · simp only [Table.get_add] at hct₁
      split at hct₁
      · simp_all
      · exact h.formed id' ct₁ hct₁

/-- Cancelling leaves the state of the INVITE. -/
theorem Ordered.step (h : Ordered s) (e : Event) : Ordered (step s e) := by
  cases e with
  | request tp met branch req err => exact h.request tp met branch req err
  | response msg =>
    rw [Ctrans.step]
    split
    · exact h
    · exact h.apply _ _
  | tmr id => exact h.apply id .tmr
  | retransmit id err => exact h.apply id (.retransmit err)
  | transport id err => exact h.apply id (.transport err)
  | cancel id err =>
    rw [Ctrans.step]
    split
    · next ct' hct' =>
        obtain ⟨ct, hget, hcancel⟩ := map_eq_some_iff.mp hct'
        have hf := h.formed id ct hget
        have hset : Ordered { s with cts := s.cts.set id (some ct') } := by
          refine h.set ?_
          rintro ct₀ ct₁ hct₀ ⟨⟩
          cases hget.symm.trans hct₀
          rw [cancel_eq hcancel]
          exact ⟨⟨hf.calling, hf.trying, hf.ack⟩, rfl⟩
        exact hset.request _ _ _ _ _
    · exact h
  | drop id => exact h.set (by simp)

/-! ## Runs -/

/-- An ACK is sent for a response from 300 on that belongs to an INVITE transaction, by
this transaction and once; no other event makes a transaction send one. -/
def AckRight (s : Stack) (e : Event) : Prop :=
  ∃ outs, (step s e).log = s.log ++ outs ∧
    match e with
    | .response msg =>
      match s.lookup msg with
      | some (id, ct) =>
        (acks (outsOf outs id)).length = (if ct.invite ∧ 300 ≤ msg.scode then 1 else 0) ∧
          ∀ id', id' ≠ id → outsOf outs id' = []
      | none => outs = []
    | _ => acks (outs.map Prod.snd) = []

theorem request_log (s : Stack) (tp : SipTransp) (met branch : String) (req : SipMsg)
    (err : Option Errno) :
    (s.request tp met branch req err).log = s.log := by
  cases err <;> rfl

/-- What one transaction adds to the log. -/
theorem Ordered.apply_outs (h : Ordered s) (id : Nat) (e : CtEvent) :
    ∃ outs : List Out, (s.apply id e).log = s.log ++ (outs.map fun out => (id, out)) ∧
      (∀ ct, s.cts.get id = some ct → (acks outs).length = ackCount ct e) ∧
      (s.cts.get id = none → outs = []) := by
  cases hget : s.cts.get id with
  | none => exact ⟨[], by simp [apply_of_none hget], by simp, fun _ => rfl⟩
  | some ct =>
    refine ⟨(ctransStep s.software ct e).2, by rw [apply_of_some hget], ?_, by simp⟩
    rintro ct₁ ⟨⟩
    exact (h.kept hget e).acks

/-- Events other than responses send no ACK. -/
theorem Ordered.apply_no_ack (h : Ordered s) (id : Nat) (he : ∀ ct, ackCount ct e = 0) :
    ∃ outs, (s.apply id e).log = s.log ++ outs ∧ acks (outs.map Prod.snd) = [] := by
  obtain ⟨outs, hlog, hsome, hnone⟩ := h.apply_outs id e
  have hacks : acks outs = [] := by
    cases hget : s.cts.get id with
    | none => simp [hnone hget, acks]
    | some ct => exact eq_nil_of_length_eq_zero ((hsome ct hget).trans (he ct))
  exact ⟨_, hlog, by simpa [Function.comp_def] using hacks⟩

theorem Ordered.ackRight (h : Ordered s) (e : Event) : AckRight s e := by
  have hquiet : ∀ s' : Stack, s'.log = s.log → ∃ outs, s'.log = s.log ++ outs ∧
      acks (outs.map Prod.snd) = [] :=
    fun s' hlog => ⟨[], by simp [hlog], rfl⟩
  cases e with
  | request tp met branch req err => exact hquiet _ (request_log s tp met branch req err)
  | tmr id | retransmit id _ | transport id _ => exact h.apply_no_ack id fun _ => rfl
  | drop id => exact hquiet _ rfl
  | cancel id err =>
    refine hquiet _ ?_
    rw [Ctrans.step]
    split
    · exact request_log _ _ _ _ _ _
    · rfl
  | response msg =>
    cases hlookup : s.lookup msg with
    | none => exact ⟨[], by simp [Ctrans.step, hlookup], by simp [hlookup]⟩
    | some item =>
      obtain ⟨id, ct⟩ := item
      have hget : s.cts.get id = some ct := Table.get_eq_some_iff.mpr (mem_of_find?_eq_some hlookup)
      obtain ⟨outs, hlog, hsome, -⟩ := h.apply_outs id (.response msg)
      refine ⟨outs.map fun out => (id, out), by simp [Ctrans.step, hlookup, hlog], ?_⟩
      simp only [hlookup]
      exact ⟨by simpa [ackCount] using hsome ct hget, fun id' hid => by simp [Ne.symm hid]⟩

theorem start_ordered (software : Option String) : Ordered (start software) :=
  ⟨(fun _ h => nomatch h), fun _ => oneOutcome_of_provisional (fun _ h => nomatch h),
    (fun _ _ h => nomatch h)⟩

/-- In every run of a stack, every transaction tells its user provisional responses, then
at most one outcome, then nothing; and for every response from 300 on that reaches an
INVITE transaction, and for nothing else, one ACK is sent. -/
theorem client_transaction_outcomes (software : Option String) (events : List Event) :
    (∀ id, OneOutcome (respCalls (outsOf (events.foldl step (start software)).log id))) ∧
      Each step AckRight (start software) events := by
  have hall : Always step Ordered (start software) events :=
    Each.always (fun s e hs _ => hs.step e) (start_ordered software) each_true
  refine ⟨?_, Each.of_always (fun s e hs _ => hs.ackRight e) hall each_true⟩
  intro id
  have htold := hall.last.told id
  cases hget : (events.foldl step (start software)).cts.get id with
  | none =>
    rw [hget] at htold
    exact htold
  | some ct =>
    grind [Told.freed]

end LibRe.Sip.Ctrans
