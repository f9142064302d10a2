/-
LibRe.Trice.Requests — every request and its answers.

A request that arrives before the role is known goes to the buffer and is answered
all the same; the buffer is served when the role is set. What is in the log and in
the buffer for one request never changes together, so a buffered request is
answered a second time.
-/
import LibRe.Lib.Machine
import LibRe.Trice.Steps

namespace LibRe.Trice

open Machine Relation List

/-- The outputs that belong to requests. -/
def answers (s : Trice) : List Output := s.log.filter Output.isAnswer

/-- The agent answered with `outs` and did nothing else that concerns requests. -/
structure Answered (outs : List Output) (s t : Trice) : Prop where
  reqbufl : t.reqbufl = s.reqbufl
  received : t.received = s.received
  unknown : t.lrole = .unknown ↔ s.lrole = .unknown
  answers : answers t = answers s ++ outs

variable {G : Guards} {s t u : Trice} {env : Env} {outs outs' : List Output}

theorem Answered.refl : Answered [] s s := ⟨rfl, rfl, Iff.rfl, (append_nil _).symm⟩

theorem Answered.trans (h : Answered outs s t) (h' : Answered outs' t u) :
    Answered (outs ++ outs') s u := by
  refine ⟨h'.reqbufl.trans h.reqbufl, h'.received.trans h.received, h'.unknown.trans h.unknown, ?_⟩
  rw [h'.answers, h.answers, append_assoc]

theorem answered_emit (s : Trice) {o : Output} (ho : o.isAnswer = true) :
    Answered [o] s (s.emit o) := by
  refine ⟨rfl, rfl, Iff.rfl, ?_⟩
  simp [answers, emit, ho]

/-- No single change concerns requests. -/
theorem Change.answered (change : Change G s t) : Answered [] s t := by
  have hsame : ∀ {t : Trice}, t.reqbufl = s.reqbufl → t.received = s.received → t.lrole = s.lrole →
      t.log = s.log → Answered [] s t := by
    intro t hreqbufl hreceived hlrole hlog
    refine ⟨hreqbufl, hreceived, by rw [hlrole], ?_⟩
    rw [answers, hlog, append_nil]
    rfl
  cases change with
  | quiet change =>
    refine ⟨change.reqbufl, change.received, by rw [change.lrole], ?_⟩
    rw [append_nil]
    exact change.answers
  | makeValid of found =>
    simp [candpairMakeValid_of_pair, found, hsame]
  | alloc paired known change =>
    obtain ⟨-, -, rfl⟩ := candpairAlloc_ok change
    exact hsame rfl rfl rfl rfl
  | role of before after => exact ⟨rfl, rfl, iff_of_false after before, (append_nil _).symm⟩
  | _ => exact hsame rfl rfl rfl rfl

theorem Changes.answered (changes : Changes G s t) : Answered [] s t := by
  induction changes with
  | refl => exact .refl
  | tail _ change ih => exact ih.trans change.answered

/-! ## The role logic answers once -/

theorem stundServe_answered (h : Sound s) (number : Nat) (lcand : Lcand)
    (sock : Option Nat) (src : Sa) (req : Request) :
    ∃ scode, Answered [.reply number scode] s (stundServe env s number lcand sock src req) := by
  unfold stundServe
  split
  · exact ⟨400, answered_emit s rfl⟩
  · rename_i prio _
    have hchanges : Changes (lenient False) s (handleStunFull env s lcand sock src prio
        req.useCand).1 :=
      handleStunFull_changes h prio permitsTrigger_lenient
    exact ⟨_, hchanges.answered.trans (answered_emit _ rfl)⟩

theorem stundRecvRoleSet_answered (h : Sound s) (number : Nat) (lcand : Lcand)
    (sock : Option Nat) (src : Sa) (req : Request) :
    ∃ scode, Answered [.roleLogic number, .reply number scode] s
      (stundRecvRoleSet env s number lcand sock src req) := by
  have hlogic : Answered [.roleLogic number] s (s.emit (.roleLogic number)) := answered_emit s rfl
  rcases stundRecvRoleSet_cases (G := lenient False) (fun _ => trivial) rfl with
    ⟨scode, -, ht⟩ | ⟨u, hu, -, ht⟩
  · rw [ht]
    exact ⟨scode, hlogic.trans (answered_emit _ rfl)⟩
  · rw [ht]
    obtain ⟨scode, hserve⟩ := stundServe_answered (hu.sound (h.calm (calm_emit s _))) number lcand
      sock src req
    exact ⟨scode, (hlogic.trans hu.answered).trans hserve⟩

/-! ## Counting -/

/-- A tally of what request `n` gets: each pass through the role logic counts once,
and nothing that belongs to another request counts. -/
structure Tally (n : Nat) (p : Output → Bool) : Prop where
  isAnswer : ∀ o, p o = true → o.isAnswer = true
  logic : ∀ m scode, [Output.roleLogic m, .reply m scode].countP p = if m = n then 1 else 0
  other : ∀ m scode, m ≠ n → p (.reply m scode) = false

/-- A reply to request `n`. -/
def Output.repliesTo (n : Nat) : Output → Bool
  | .reply m _ => m == n
  | _ => false

/-- The role logic for request `n`. -/
def Output.logicOf (n : Nat) : Output → Bool
  | .roleLogic m => m == n
  | _ => false

theorem tally_repliesTo (n : Nat) : Tally n (Output.repliesTo n) := by
  refine ⟨fun o h => ?_, fun m scode => ?_, fun m scode h => ?_⟩
  · cases o <;> first | rfl | exact nomatch h
  · by_cases h : m = n <;> simp [Output.repliesTo, h]
  · simpa [Output.repliesTo] using h

theorem tally_logicOf (n : Nat) : Tally n (Output.logicOf n) := by
  refine ⟨fun o h => ?_, fun m scode => ?_, fun m scode _ => rfl⟩
  · cases o <;> first | rfl | exact nomatch h
  · by_cases h : m = n <;> simp [Output.logicOf, h]

variable {n : Nat} {p : Output → Bool}

theorem Tally.countP_log (T : Tally n p) (s : Trice) : s.log.countP p = (answers s).countP p := by
  rw [answers, countP_filter]
  refine countP_congr fun o _ => ?_
  simpa using T.isAnswer o

/-- The entries of the buffer for request `n`. -/
def pending (n : Nat) (s : Trice) : Nat := s.reqbufl.countP (·.number == n)

theorem countP_number_append {es : List Reqbuf} {e : Reqbuf} (h : e.number ≠ n) :
    (es ++ [e]).countP (·.number == n) = es.countP (·.number == n) := by
  simp [h]

/-- What request `n` got and still gets from the buffer. -/
def total (n : Nat) (p : Output → Bool) (s : Trice) : Nat := s.log.countP p + pending n s

/-- What an event does to the requests, for every tally. -/
inductive ReqStep (s t : Trice) : Prop where
  | silent (same : Answered [] s t)
  | refused (outs : List Output) (reply : ∀ o ∈ outs, ∃ scode, o = .reply s.received scode)
      (answered : Answered outs { s with received := s.received + 1 } t)
  | served (scode : UInt16) (known : s.lrole ≠ .unknown)
      (answered : Answered [.roleLogic s.received, .reply s.received scode]
        { s with received := s.received + 1 } t)
  | buffered (e : Reqbuf) (scode : UInt16) (unknown : s.lrole = .unknown)
      (number : e.number = s.received)
      (answered : Answered [.roleLogic s.received, .reply s.received scode]
        { s with received := s.received + 1, reqbufl := s.reqbufl ++ [e] } t)
  | firstRole (before : s.lrole = .unknown) (after : t.lrole ≠ .unknown) (reqbufl : t.reqbufl = [])
      (received : t.received = s.received)
      (processed : ∀ n p, Tally n p → t.log.countP p = s.log.countP p + pending n s)

theorem Answered.countP (h : Answered outs s t) (T : Tally n p) :
    t.log.countP p = s.log.countP p + outs.countP p := by
  rw [T.countP_log, h.answers, countP_append, ← T.countP_log]

/-! ## What an event does to the requests -/

variable {req : Request} {lcand : Nat} {c : Lcand}

/-- An authentic request goes through the role logic, and to the buffer if the role is unknown. -/
theorem stundRecv_authentic (env : Env) (h : Sound s) (lcand : Lcand) (sock : Option Nat) (src : Sa)
    (hauth : stundCheck s req = some 0) :
    ∃ scode, Answered [.roleLogic s.received, .reply s.received scode]
      { s with
        received := s.received + 1
        reqbufl := s.reqbufl ++ if s.lrole =
  .unknown then [{ number := s.received, lcand, sock, src, req }] else [] }
      (stundRecv env s lcand sock src req) := by
  have hcheck : stundCheck { s with received := s.received + 1 } req = some 0 := hauth
  simp only [stundRecv, hcheck]
  split
  · have hbuffer : Sound (reqbufAppend { s with received := s.received + 1 } s.received lcand
        sock src req) :=
      ⟨h.distinct, h.fresh, h.known, h.unknown⟩
    obtain ⟨scode, hanswered⟩ := stundRecvRoleSet_answered hbuffer s.received lcand sock src req
    exact ⟨scode, hanswered.reqbufl, hanswered.received, hanswered.unknown, hanswered.answers⟩
  · have hsound : Sound { s with received := s.received + 1 } :=
      ⟨h.distinct, h.fresh, h.known, h.unknown⟩
    obtain ⟨scode, hanswered⟩ := stundRecvRoleSet_answered hsound s.received lcand sock src req
    rw [append_nil]
    exact ⟨scode, hanswered⟩

theorem stundRecv_reqStep (env : Env) (h : Sound s) (lcand : Lcand) (sock : Option Nat) (src : Sa)
    (req : Request) :
    ReqStep s (stundRecv env s lcand sock src req) ∧
      ((stundRecv env s lcand sock src req).lrole = .unknown ↔ s.lrole = .unknown) := by
  by_cases hauth : stundCheck s req = some 0
  · obtain ⟨scode, hanswered⟩ := stundRecv_authentic env h lcand sock src hauth
    refine ⟨?_, hanswered.unknown⟩
    by_cases hunknown : s.lrole = .unknown
    · rw [if_pos hunknown] at hanswered
      exact .buffered _ scode hunknown rfl hanswered
    · rw [if_neg hunknown, append_nil] at hanswered
      exact .served scode hunknown hanswered
  · unfold stundRecv
    simp only []
    split
    · exact ⟨.refused [] (fun _ ho => nomatch ho) .refl, Iff.rfl⟩
    · contradiction
    · rename_i scode _ _
      refine ⟨.refused [.reply s.received scode] (fun o ho => ⟨scode, mem_singleton.mp ho⟩) ?_,
        Iff.rfl⟩
      exact answered_emit { s with received := s.received + 1 } rfl

/-- Serving one entry of the buffer. -/
theorem reqbufServe_answered (env : Env) (h : Sound s) (e : Reqbuf) :
    Sound (reqbufServe env s e) ∧ (reqbufServe env s e).reqbufl = s.reqbufl.drop 1 ∧
      ∃ scode, Answered [.roleLogic e.number, .reply e.number scode] s
        { reqbufServe env s e with reqbufl := s.reqbufl } := by
  obtain ⟨scode, hanswered⟩ := stundRecvRoleSet_answered (s := s) h e.number e.lcand
    e.sock e.src e.req
  have hdeeds : Deeds (lenient False) s (reqbufServe env s e) := (reqbufServe_deeds False env h e).2
  refine ⟨hdeeds.sound h, ?_, scode, ?_⟩
  · show (stundRecvRoleSet env s e.number e.lcand e.sock e.src e.req).reqbufl.drop 1 = _
    rw [hanswered.reqbufl]
  · exact ⟨rfl, hanswered.received, hanswered.unknown, hanswered.answers⟩

/-- The whole buffer is served, entry by entry. -/
theorem reqbufLoop_served (env : Env) (es : List Reqbuf) : ∀ {s : Trice}, Sound s → s.reqbufl = es →
    (es.foldl (reqbufServe env) s).reqbufl = [] ∧ (es.foldl (reqbufServe env) s).received =
      s.received ∧
      ((es.foldl (reqbufServe env) s).lrole = .unknown ↔ s.lrole = .unknown) ∧
      ∀ n p, Tally n p →
        (es.foldl (reqbufServe env) s).log.countP p = s.log.countP p + es.countP
          (·.number == n) := by
  induction es with
  | nil => exact fun _ hes => ⟨hes, rfl, Iff.rfl, fun _ _ _ => rfl⟩
  | cons e es ih =>
    intro s hsound hes
    obtain ⟨hserved, hreqbufl, scode, hanswered⟩ := reqbufServe_answered env hsound e
    rw [hes, drop_one, tail_cons] at hreqbufl
    obtain ⟨hempty, hreceived, hunknown, hcount⟩ := ih hserved hreqbufl
    refine ⟨hempty, hreceived.trans hanswered.received, hunknown.trans hanswered.unknown,
      fun n p T => ?_⟩
    have hone := hanswered.countP T
    rw [T.logic] at hone
    rw [foldl_cons, hcount n p T, countP_cons]
    simp only [beq_iff_eq] at hone ⊢
    omega

theorem setRole_reqStep (env : Env) (h : Sound s) (hempty : s.lrole ≠ .unknown → s.reqbufl = [])
    (role : Role) :
    ReqStep s (setRole env s role) ∧
      ((setRole env s role).lrole = .unknown ↔ s.lrole = .unknown ∧ role = .unknown) := by
  unfold setRole
  split
  · rename_i hrole
    exact ⟨.silent .refl, (and_iff_left hrole).symm⟩
  rename_i hknown
  split
  · rename_i hsame
    exact ⟨.silent .refl, iff_of_false (hsame ▸ hknown) fun hboth => hknown hboth.2⟩
  split
  · rename_i hunknown
    have hfirst : Sound { s with lrole := role } :=
      Deed.sound (G := lenient False) (.firstRole hunknown hknown) h
    have hpairs : Changes (lenient False) { s with lrole := role }
        (createCandpairs { s with lrole := role }) :=
      createCandpairs_work.changes'
    have hpaired := hpairs.answered
    obtain ⟨hdone, hreceived, hlrole, hcount⟩ := reqbufLoop_served env _ (hpairs.sound hfirst) rfl
    have hlast : (reqbufProcess env (createCandpairs { s with lrole := role })).lrole ≠ .unknown :=
      fun hlast => hknown (hpaired.unknown.mp (hlrole.mp hlast))
    refine ⟨.firstRole hunknown hlast hdone (hreceived.trans hpaired.received) fun n p T => ?_,
      iff_of_false hlast fun hboth => hknown hboth.2⟩
    rw [reqbufProcess, hcount n p T, hpaired.countP T, hpaired.reqbufl]
    rfl
  · rename_i hlrole
    rw [reqbufProcess_nil]
    · exact ⟨.silent (Change.answered (G := lenient False) (.role trivial hlrole hknown)),
        iff_of_false hknown fun hboth => hknown hboth.2⟩
    · exact hempty hlrole

theorem step_reqStep (h : Sound s) (hempty : s.lrole ≠ .unknown → s.reqbufl = []) (ev : Event) :
    ReqStep s (step s ev) ∧ ((step s ev).lrole = .unknown ↔
      s.lrole = .unknown ∧ ∀ role env, ev = .setRole role env → role = .unknown) := by
  by_cases hev : ev.silent = true
  · have hsilent := (step_changes h hev (permits_lenient ev)).answered
    refine ⟨.silent hsilent, hsilent.unknown.trans (and_iff_left fun role env hset => ?_).symm⟩
    rw [hset] at hev
    exact nomatch hev
  cases ev with
  | setRole role env =>
    obtain ⟨hstep, hlrole⟩ := setRole_reqStep env h hempty role
    refine ⟨hstep, hlrole.trans (and_congr_right fun _ =>
      ⟨fun hrole role' env' hset => ?_, fun hall => ?_⟩)⟩
    · simp_all
    · exact hall role env rfl
  | request lcand sock src req env =>
    have hnot : ∀ role env', Event.request lcand sock src req env = .setRole role env' →
        role = .unknown :=
      fun _ _ hset => nomatch hset
    simp only [step]
    split
    · exact ⟨.silent .refl, (and_iff_left hnot).symm⟩
    · simp [stundRecv_reqStep, h]
  | _ => exact absurd rfl hev

/-! ## The invariant -/

/-- There is a buffer only before the role is known, and nothing is there for a
request that did not arrive yet. -/
structure Buffered (s : Trice) : Prop where
  empty : s.lrole ≠ .unknown → s.reqbufl = []
  untouched : ∀ {n p}, Tally n p → s.received ≤ n → total n p s = 0

/-- Nothing but its arrival adds to what a request gets. -/
theorem ReqStep.total (step : ReqStep s t) (T : Tally n p) (hn : n < s.received ∨ t.received ≤ n) :
    total n p t = total n p s := by
  have hpair : ∀ scode, n ≠ s.received → [Output.roleLogic s.received,
      .reply s.received scode].countP p = 0 := by
    grind [Tally.logic]
  have harrived : t.received = s.received + 1 → n ≠ s.received := by
    omega
  cases step with
  | silent same =>
    rw [LibRe.Trice.total, same.countP T, pending, same.reqbufl]
    rfl
  | refused outs reply answered =>
    have hne := harrived answered.received
    have hnone : outs.countP p = 0 := by
      refine countP_eq_zero.mpr fun o ho => ?_
      obtain ⟨scode, rfl⟩ := reply o ho
      rw [T.other _ _ (Ne.symm hne)]
      exact Bool.false_ne_true
    rw [LibRe.Trice.total, answered.countP T, hnone, pending, answered.reqbufl]
    rfl
  | served scode known answered =>
    have hne := harrived answered.received
    rw [LibRe.Trice.total, answered.countP T, hpair scode hne, pending, answered.reqbufl]
    rfl
  | buffered e scode unknown number answered =>
    have hne := harrived answered.received
    rw [LibRe.Trice.total, answered.countP T, hpair scode hne, pending, answered.reqbufl,
      countP_number_append (by omega)]
    rfl
  | firstRole before after reqbufl received processed =>
    have hdone : pending n t = 0 := by
      rw [pending, reqbufl]
      rfl
    rw [LibRe.Trice.total, processed n p T, hdone]
    rfl

theorem ReqStep.received_le (step : ReqStep s t) : s.received ≤ t.received := by
  cases step with
  | silent same => exact same.received.ge
  | refused _ _ answered
  | served _ _ answered
  | buffered _ _ _ _ answered => exact (Nat.le_succ _).trans answered.received.ge
  | firstRole before after reqbufl received processed => exact received.ge

theorem ReqStep.pending_unknown (step : ReqStep s t) (hunknown : t.lrole = .unknown)
    (hn : n < s.received) :
    pending n t = pending n s := by
  cases step with
  | silent same => rw [pending, same.reqbufl, pending]
  | refused _ _ answered | served _ _ answered => rw [pending, answered.reqbufl, pending]
  | buffered e scode unknown number answered =>
    rw [pending, answered.reqbufl]
    exact countP_number_append (by omega)
  | firstRole before after reqbufl received processed => exact absurd hunknown after

theorem ReqStep.buffered_inv (step : ReqStep s t) (h : Buffered s) : Buffered t := by
  refine ⟨?_, fun {n p} T hn => ?_⟩
  · cases step with
    | silent same =>
      rw [same.reqbufl, ne_eq, same.unknown]
      exact h.empty
    | refused outs reply answered =>
      rw [answered.reqbufl, ne_eq, answered.unknown]
      exact h.empty
    | served scode known answered =>
      rw [answered.reqbufl]
      exact fun _ => h.empty known
    | buffered e scode unknown number answered =>
      exact fun hlrole => absurd (answered.unknown.mpr unknown) hlrole
    | firstRole before after reqbufl received processed => exact fun _ => reqbufl
  · rw [step.total T (.inr hn)]
    exact h.untouched T (step.received_le.trans hn)

/-! ## Runs -/

/-- The invariants that hold along every run. -/
structure Coherent (s : Trice) : Prop extends Sound s, Buffered s

theorem step_coherent (h : Coherent s) (ev : Event) : Coherent (step s ev) where
  toSound := (step_deeds h.toSound h.empty (permits_lenient ev)).sound h.toSound
  toBuffered := (step_reqStep h.toSound h.empty ev).1.buffered_inv h.toBuffered

theorem alloc_coherent {o : Bool} {role : Role} {tiebrk : UInt64} {lufrag lpwd : Bytes}
    (h : triceAlloc o role tiebrk lufrag lpwd = .ok s) : Coherent s := by
  unfold triceAlloc at h
  split at h
  · exact nomatch h
  · obtain rfl := Except.ok.inj h
    have hsound : Sound (freshTrice o role tiebrk lufrag) :=
      ⟨nodup_nil, (fun _ hcp => nomatch hcp), (fun _ hcp => nomatch hcp), fun _ => ⟨rfl, rfl⟩⟩
    exact { hsound with empty := fun _ => rfl, untouched := fun _ _ => rfl }

theorem run_coherent (h : Coherent s) (events : List Event) : Coherent (run s events) := by
  have hrun : Always step Coherent s events :=
    each_true.always (fun _ ev h _ => step_coherent h ev) h
  exact hrun.last

/-- Whatever happens to an agent, its pairs stay apart and keep their remote candidates,
and requests wait only for the role. -/
theorem pairs_sound_along {o : Bool} {role : Role} {tiebrk : UInt64} {lufrag lpwd : Bytes}
    (halloc : triceAlloc o role tiebrk lufrag lpwd = .ok s) (events : List Event) :
    Sound (run s events) ∧ ((run s events).lrole ≠ .unknown → (run s events).reqbufl = []) :=
  have hrun := run_coherent (alloc_coherent halloc) events
  ⟨hrun.toSound, hrun.empty⟩

theorem pairs_sound_succeeded :
    (run (sampleAgent .controlling) (pairSucceeds false)).validl.length = 1 ∧
      Sound (run (sampleAgent .controlling) (pairSucceeds false)) :=
  ⟨by decide +kernel, (pairs_sound_along (sampleAgent_alloc .controlling) _).1⟩

theorem run_total (T : Tally n p) (events : List Event) :
    ∀ {s : Trice}, Coherent s → n < s.received → total n p (run s events) = total n p s := by
  induction events with
  | nil => exact fun _ _ => rfl
  | cons ev evs ih =>
    intro s h hn
    have hstep := (step_reqStep h.toSound h.empty ev).1
    exact (ih (step_coherent h ev) (lt_of_lt_of_le hn hstep.received_le)).trans
      (hstep.total T (.inl hn))

/-- The role stays unknown until the application sets it. -/
theorem run_unknown (events : List Event) : ∀ {s : Trice}, Coherent s →
    ((run s events).lrole = .unknown ↔
      s.lrole = .unknown ∧ ∀ role env, .setRole role env ∈ events → role = .unknown) := by
  induction events with
  | nil => exact fun _ => (and_iff_left fun _ _ h => nomatch h).symm
  | cons ev evs ih =>
    intro s h
    rw [show run s (ev :: evs) = run (step s ev) evs from rfl, ih (step_coherent h ev),
      (step_reqStep h.toSound h.empty ev).2, and_assoc]
    refine and_congr_right fun _ => ⟨fun hall role env hmem => ?_, fun hall => ⟨?_, ?_⟩⟩
    · grind
    · exact fun role env hev => hall role env (hev ▸ mem_cons_self)
    · exact fun role env hmem => hall role env (mem_cons_of_mem _ hmem)

/-- While the role is unknown the buffer only grows. -/
theorem run_pending (events : List Event) : ∀ {s : Trice}, Coherent s → n < s.received →
    (run s events).lrole = .unknown → pending n (run s events) = pending n s := by
  induction events with
  | nil => exact fun _ _ _ => rfl
  | cons ev evs ih =>
    intro s h hn hlast
    have hstep := (step_reqStep h.toSound h.empty ev).1
    have hmid := ((run_unknown evs (step_coherent h ev)).mp hlast).1
    exact (ih (step_coherent h ev) (lt_of_lt_of_le hn hstep.received_le) hlast).trans
      (hstep.pending_unknown hmid hn)

/-! ## Every authentic request -/

/-- An authentic request arrives: one pass through the role logic at once, and a
place in the buffer while the role is unknown. -/
theorem request_total (env : Env) (h : Coherent s) (sock : Option Nat) (src : Sa)
    (hc : s.lcandl.find? (·.id == lcand) = some c) (hauth : stundCheck s req = some 0) :
    (step s (.request lcand sock src req env)).received = s.received + 1 ∧
      pending s.received (step s (.request lcand sock src req env)) =
        (if s.lrole = .unknown then 1 else 0) ∧
      ∀ p, Tally s.received p → (step s (.request lcand sock src req env)).log.countP p = 1 := by
  obtain ⟨scode, hanswered⟩ := stundRecv_authentic env h.toSound c sock src hauth
  have hnew : ∀ p, Tally s.received p → s.log.countP p = 0 ∧ pending s.received s = 0 := fun p T =>
    Nat.add_eq_zero_iff.mp (h.untouched T (le_refl _))
  have hnone : s.reqbufl.countP (·.number == s.received) = 0 := (hnew _ (tally_repliesTo _)).2
  simp only [step, hc]
  refine ⟨hanswered.received, ?_, fun p T => ?_⟩
  · rw [pending, hanswered.reqbufl, countP_append, hnone]
    split <;> simp
  · have hlog : countP p _ = _ := hanswered.countP T
    rw [hlog, T.logic, if_pos rfl]
    exact congrArg (· + 1) (hnew p T).1

/-- What an authentic request got by the end of a run. -/
theorem request_count (h : Coherent s) {sock : Option Nat} {src : Sa}
    (hc : s.lcandl.find? (·.id == lcand) = some c) (hauth : stundCheck s req = some 0)
    (T : Tally s.received p) (after : List Event) :
    (run (step s (.request lcand sock src req env)) after).log.countP p = 1 ↔
      s.lrole ≠ .unknown ∨ ∀ role env, .setRole role env ∈ after → role = .unknown := by
  obtain ⟨hreceived, hpending, hlog⟩ := request_total env h sock src hc hauth
  have hrole := (step_reqStep h.toSound h.empty (.request lcand sock src req env)).2
  have hcoherent := step_coherent h (.request lcand sock src req env)
  have hlast := run_coherent hcoherent after
  generalize step s (.request lcand sock src req env) = t at *
  have hn : s.received < t.received := by omega
  have htotal := run_total T after hcoherent hn
  rw [total, total, hlog p T, hpending] at htotal
  by_cases hunknown : s.lrole = .unknown
  · -- two passes in all, one of them still in the buffer as long as the role is unknown
    have ht : t.lrole = .unknown := hrole.mpr ⟨hunknown, fun _ _ hset => nomatch hset⟩
    rw [if_pos hunknown] at htotal hpending
    rw [or_iff_right (not_not_intro hunknown)]
    constructor
    · intro hcount
      by_contra hset
      have hknown : (run t after).lrole ≠ .unknown :=
        fun hu => hset ((run_unknown after hcoherent).mp hu).2
      rw [pending, hlast.empty hknown, countP_nil] at htotal
      omega
    · intro hset
      have hu := (run_unknown after hcoherent).mpr ⟨ht, hset⟩
      rw [run_pending after hcoherent hn hu, hpending] at htotal
      omega
  · rw [if_neg hunknown] at htotal
    refine iff_of_true ?_ (.inl hunknown)
    have hknown : (run t after).lrole ≠ .unknown := fun hu =>
      hunknown (hrole.mp ((run_unknown after hcoherent).mp hu).1).1
    rw [pending, hlast.empty hknown, countP_nil] at htotal
    omega

/-- A request is answered once, and goes through the role logic once, exactly when
the role is known as it arrives or is never set. -/
theorem answered_once_iff {o : Bool} {role : Role} {tiebrk : UInt64} {lufrag lpwd : Bytes}
    (halloc : triceAlloc o role tiebrk lufrag lpwd = .ok s) (before after : List Event)
    {lcand : Nat} {sock : Option Nat} {src : Sa} {req : Request} {c : Lcand}
    (hc : (run s before).lcandl.find? (·.id == lcand) = some c)
    (hauth : stundCheck (run s before) req = some 0) :
    ((run s (before ++ .request lcand sock src req env :: after)).log.countP
        (Output.repliesTo (run s before).received) = 1 ∧
      (run s (before ++ .request lcand sock src req env :: after)).log.countP
        (Output.logicOf (run s before).received) = 1) ↔
      (run s before).lrole ≠ .unknown ∨ ∀ role env, .setRole role env ∈ after →
      role = .unknown := by
  have hcoherent := run_coherent (alloc_coherent halloc) before
  have hrun : run s (before ++ .request lcand sock src req env :: after) =
      run (step (run s before) (.request lcand sock src req env)) after := foldl_append ..
  rw [hrun, request_count hcoherent hc hauth (tally_repliesTo _), request_count hcoherent hc hauth
    (tally_logicOf _), and_self_iff]

theorem answered_once_controlled :
    (run (sampleAgent .controlled) [addSample, sampleRequest false]).log.countP
      (Output.repliesTo 0) = 1 ∧
      (run (sampleAgent .controlled) [addSample, sampleRequest false]).log.countP
        (Output.logicOf 0) = 1 :=
  (answered_once_iff (sampleAgent_alloc .controlled) [addSample] [] rfl rfl).mpr (.inl (by decide))

/-- A request before the role is set is answered twice. -/
theorem buffered_answered_twice :
    ¬ ∀ (o : Bool) (role : Role) (tiebrk : UInt64) (lufrag lpwd : Bytes) (s : Trice)
      (before after : List Event) (lcand : Nat) (sock : Option Nat) (src : Sa) (req : Request)
      (env : Env) (c : Lcand), triceAlloc o role tiebrk lufrag lpwd = .ok s →
        (run s before).lcandl.find? (·.id == lcand) = some c →
        stundCheck (run s before) req = some 0 →
        (run s (before ++ .request lcand sock src req env :: after)).log.countP
            (Output.repliesTo (run s before).received) = 1 ∧
          (run s (before ++ .request lcand sock src req env :: after)).log.countP
            (Output.logicOf (run s before).received) = 1 := by
  intro hall
  have honce := hall _ _ _ _ _ _ [addSample] [.setRole .controlled plainEnv] 0 (some 5)
    (.inet 0x0a000002 2000)
    { fingerprint := true, integrity := .ok, username := some [1, 2, 3, 4, 58, 9],
      controlled := none
      controlling := some 5, priority := some 30, useCand :=
        false } plainEnv _ (sampleAgent_alloc .unknown) rfl rfl
  exact absurd honce.1 (by decide +kernel)

end LibRe.Trice
