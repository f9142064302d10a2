/-
LibRe.Trice.Work — what the handlers do to the lists of pairs.

Most of what an agent does comes down to a few kinds of change: bookkeeping, the
changes a check makes to its own pair, marks on a pair, new candidates and new
pairs. `Work` says so once for every handler; what it keeps is then said once for
every change. A change of role, a pair made valid, a nomination, the upgrade of a
remote candidate and the answers to requests are not `Work`.
-/
import LibRe.Trice.Checks

namespace LibRe.Trice

open List

variable {cp : CandPair} {args : LcandArgs} {sockEnv : SockEnv}

/-! ## Kinds of change -/

/-- The outputs that belong to a received request. -/
def Output.isAnswer : Output → Bool
  | .roleLogic _ => true
  | .reply _ _ => true
  | _ => false

/-- Bookkeeping: the pairs, the candidates they can have and the role stay. -/
structure Calm (s t : Trice) : Prop where
  lrole : t.lrole = s.lrole
  tiebrk : t.tiebrk = s.tiebrk
  lcandl : ∀ c ∈ t.lcandl, c ∈ s.lcandl
  rcandl : t.rcandl = s.rcandl
  checkl : t.checkl = s.checkl
  validl : t.validl = s.validl
  nextId : s.nextId ≤ t.nextId

/-- Bookkeeping that belongs to no request. -/
structure Quiet (s t : Trice) : Prop extends Calm s t where
  reqbufl : t.reqbufl = s.reqbufl
  received : t.received = s.received
  answers : t.log.filter Output.isAnswer = s.log.filter Output.isAnswer

/-- What a change to a pair leaves alone. -/
structure KeepsKey (f : CandPair → CandPair) : Prop where
  id : ∀ cp, (f cp).id = cp.id
  lcand : ∀ cp, (f cp).lcand = cp.lcand
  rcand : ∀ cp, (f cp).rcand = cp.rcand
  pprio : ∀ cp, (f cp).pprio = cp.pprio

/-- What a check does to its pair; it never makes a pair succeed. -/
structure CheckEdit (f : CandPair → CandPair) : Prop extends KeepsKey f where
  nominated : ∀ cp, (f cp).nominated = cp.nominated
  succeeds : ∀ cp, (f cp).state = .succeeded → (f cp).valid = true → cp.state = .succeeded ∧
    cp.valid = true

/-- A mark on a pair. -/
structure Mark (f : CandPair → CandPair) : Prop extends KeepsKey f where
  nominated : ∀ cp, (f cp).nominated = cp.nominated
  state : ∀ cp, (f cp).state = cp.state
  valid : ∀ cp, (f cp).valid = cp.valid

/-- Changes by checks of the pairs in `A`. -/
inductive Checking (A : Nat → Prop) (s : Trice) : Trice → Prop where
  | refl : Checking A s s
  | quiet {t u} (checking : Checking A s t) (change : Quiet t u) : Checking A s u
  | check {t} (id : Nat) {f} (checking : Checking A s t) (of : A id) (change : CheckEdit f) :
      Checking A s (t.setPair id f)
  | mark {t} (id : Nat) {f} (checking : Checking A s t) (change : Mark f) :
      Checking A s (t.setPair id f)

/-- The same, with new pairs and candidates; local ones in `L`. -/
inductive Work (A : Nat → Prop) (L : Lcand → Prop) (s : Trice) : Trice → Prop where
  | refl : Work A L s s
  | quiet {t u} (work : Work A L s t) (change : Quiet t u) : Work A L s u
  | check {t} (id : Nat) {f} (work : Work A L s t) (of : A id) (change : CheckEdit f) :
      Work A L s (t.setPair id f)
  | mark {t} (id : Nat) {f} (work : Work A L s t) (change : Mark f) : Work A L s (t.setPair id f)
  | lcand {t} (c : Lcand) (work : Work A L s t) (of : L c) :
      Work A L s { t with lcandl := t.lcandl ++ [c] }
  | rcand {t} (r : Rcand) (work : Work A L s t) : Work A L s { t with rcandl := t.rcandl ++ [r] }
  | alloc {t u l r id} (work : Work A L s t) (paired : l ∈ t.lcandl) (known : r < t.rcandl.length)
      (change : candpairAlloc t l r = .ok (u, id)) : Work A L s u

variable {A A' : Nat → Prop} {L : Lcand → Prop} {s t u : Trice}

theorem Checking.trans (h : Checking A s t) (h' : Checking A t u) : Checking A s u := by
  induction h' with
  | refl => exact h
  | quiet _ change ih => exact ih.quiet change
  | check id _ of change ih => exact ih.check id of change
  | mark id _ change ih => exact ih.mark id change

theorem Checking.work (h : Checking A s t) : Work A L s t := by
  induction h with
  | refl => exact .refl
  | quiet _ change ih => exact ih.quiet change
  | check id _ of change ih => exact ih.check id of change
  | mark id _ change ih => exact ih.mark id change

/-- Work goes on with checks of no other pairs. -/
theorem Work.append (h : Work A L s t) (hA : ∀ id, A' id → A id) (h' : Work A' L t u) :
    Work A L s u := by
  induction h' with
  | refl => exact h
  | quiet _ change ih => exact ih.quiet change
  | check id _ of change ih => exact ih.check id (hA id of) change
  | mark id _ change ih => exact ih.mark id change
  | lcand c _ of ih => exact ih.lcand c of
  | rcand r _ ih => exact ih.rcand r
  | alloc _ paired known change ih => exact ih.alloc paired known change

theorem Work.trans (h : Work A L s t) (h' : Work A L t u) : Work A L s u :=
  h.append (fun _ h => h) h'

theorem Work.mono (h : Work A L s t) (hA : ∀ id, A id → A' id) : Work A' L s t :=
  Work.refl.append hA h

theorem quiet_emit (s : Trice) {o : Output} (ho : o.isAnswer = false) : Quiet s (s.emit o) where
  lrole := rfl
  tiebrk := rfl
  lcandl _ h := h
  rcandl := rfl
  checkl := rfl
  validl := rfl
  reqbufl := rfl
  received := rfl
  nextId := le_refl _
  answers := by simp [emit, ho]

theorem quiet_derefLcand (s : Trice) (id : Nat) : Quiet s (s.derefLcand id) where
  lrole := rfl
  tiebrk := rfl
  lcandl c h := by
    grind [derefLcand]
  rcandl := rfl
  checkl := rfl
  validl := rfl
  reqbufl := rfl
  received := rfl
  nextId := le_refl _
  answers := rfl

/-- Changes to nothing but the references, the checklist, the credentials and the
next identity. -/
theorem quiet_of_eq (lrefs : Nat → Nat) (checklist : Option (List Conncheck))
    (rufrag rpwd : Bytes) {nextId : Nat} (h : s.nextId ≤ nextId) :
    Quiet s { s with
      lrefs, checklist, rufrag, rpwd, nextId } :=
  ⟨⟨rfl, rfl, fun _ h => h, rfl, rfl, rfl, h⟩, rfl, rfl, rfl⟩

theorem pairs_setPair (s : Trice) (id : Nat) (f : CandPair → CandPair) :
    (s.setPair id f).checkl ++ (s.setPair id f).validl = (s.checkl ++ s.validl).map
      (assignAt id f) :=
  map_append.symm

theorem KeepsKey.assignAt {f : CandPair → CandPair} (h : KeepsKey f) (id : Nat) :
    KeepsKey (assignAt id f) := by
  refine ⟨fun cp => ?_, fun cp => ?_, fun cp => ?_, fun cp => ?_⟩ <;>
    unfold LibRe.Trice.assignAt <;> split
  · exact h.id cp
  · rfl
  · exact h.lcand cp
  · rfl
  · exact h.rcand cp
  · rfl
  · exact h.pprio cp
  · rfl

theorem setTrigged_mark : Mark setTrigged :=
  ⟨⟨fun _ => rfl, fun _ => rfl, fun _ => rfl, fun _ => rfl⟩, fun _ => rfl, fun _ => rfl,
    fun _ => rfl⟩

theorem setEstab_mark : Mark setEstab :=
  ⟨⟨fun _ => rfl, fun _ => rfl, fun _ => rfl, fun _ => rfl⟩, fun _ => rfl, fun _ => rfl,
    fun _ => rfl⟩

theorem setFrozen_keeps : KeepsKey setFrozen :=
  ⟨fun _ => rfl, fun _ => rfl, fun _ => rfl, fun _ => rfl⟩

theorem setNominated_keeps : KeepsKey setNominated :=
  ⟨fun _ => rfl, fun _ => rfl, fun _ => rfl, fun _ => rfl⟩

theorem candpairFailed_edit (err : Option Errno) (scode : UInt16) :
    CheckEdit (candpairFailed err scode) :=
  ⟨⟨fun _ => rfl, fun _ => rfl, fun _ => rfl, fun _ => rfl⟩, fun _ => rfl, fun _ h => nomatch h⟩

theorem candpairSetState_edit {state : PairState} (h : state ≠ .succeeded) :
    CheckEdit (candpairSetState state) :=
  ⟨⟨fun _ => rfl, fun _ => rfl, fun _ => rfl, fun _ => rfl⟩, fun _ => rfl, fun _ h' => absurd h' h⟩

/-! ## Checks -/

variable {env : Env}

theorem conncheckStunRequest_checking (cc : Conncheck) (cp : CandPair) (sock : Option Nat)
    (useCand : Bool) :
    Checking (· = cp.id) s (conncheckStunRequest env s cc cp sock useCand).1 := by
  have hfail (err : Option Errno) :
      Checking (· = cp.id) s (s.setPair cp.id (candpairFailed err 0)) :=
    Checking.refl.check cp.id rfl (candpairFailed_edit err 0)
  unfold conncheckStunRequest
  split
  · exact .refl
  split
  · exact .refl
  split
  · exact hfail _
  split
  · exact hfail _
  split
  · exact .refl
  cases env.stunRequest cc.id with
  | none => exact Checking.refl.quiet (quiet_emit s rfl)
  | some err => exact hfail _

theorem conncheckStart_checking (cp : CandPair) : Checking (· = cp.id) s (conncheckStart s cp) := by
  have hnext : Checking (· = cp.id) s { s with nextId := s.nextId + 1 } :=
    Checking.refl.quiet (quiet_of_eq s.lrefs s.checklist s.rufrag s.rpwd (Nat.le_succ _))
  unfold conncheckStart
  split
  · exact hnext.check cp.id rfl (candpairSetState_edit (by decide))
  · exact hnext

theorem conncheckDone_checking (id : Nat) (cc : Conncheck) (r : Trice × Option Errno) :
    Checking (· = id) r.1 (conncheckDone id cc r).1 := by
  obtain ⟨s, err⟩ := r
  cases err with
  | none => exact Checking.refl.quiet (quiet_of_eq s.lrefs _ s.rufrag s.rpwd (le_refl _))
  | some err => exact Checking.refl.check id rfl (candpairFailed_edit _ 0)

variable {l : Lcand} {id : Nat}

theorem pair_id (h : s.pair id = some cp) : cp.id = id := by
  simpa using find?_some h

theorem mem_of_pair (h : s.pair id = some cp) : cp ∈ s.checkl ++ s.validl :=
  mem_of_find?_eq_some h

theorem candpairMakeValid_of_pair (h : s.pair id = some cp) :
    candpairMakeValid s id = { s with
      checkl := s.checkl.filter (·.id ≠ id)
      validl := listAddSorted (s.validl.filter (·.id ≠ id)) (validPair cp) } := by
  rw [candpairMakeValid, h]
  rfl

theorem conncheckSend_checking (id : Nat) (useCand : Bool) :
    Checking (· = id) s (conncheckSend env s id useCand).1 := by
  unfold conncheckSend
  cases hpair : s.pair id with
  | none => exact .refl
  | some cp =>
    obtain rfl := pair_id hpair
    simp only []
    split
    · exact .refl
    refine .trans (conncheckStart_checking cp) (.trans ?_ (conncheckDone_checking cp.id _ _))
    split
    · exact conncheckStunRequest_checking ..
    · split
      · exact conncheckStunRequest_checking ..
      · split
        · exact .refl
        · exact .refl
        · exact Checking.refl.check cp.id rfl (candpairSetState_edit (by decide))
    · exact .refl

theorem conncheckTrigged_checking (id : Nat) (sock : Option Nat) (useCand : Bool) :
    Checking (· = id) s (conncheckTrigged env s id sock useCand).1 := by
  unfold conncheckTrigged
  cases hpair : s.pair id with
  | none => exact .refl
  | some cp =>
    obtain rfl := pair_id hpair
    simp only []
    split
    · exact .refl
    · exact .trans (conncheckStart_checking cp)
        (.trans (conncheckStunRequest_checking ..) (conncheckDone_checking cp.id _ _))

theorem triggerCheck_checking (cp : CandPair) (sock : Option Nat) (useCand : Bool) :
    Checking (· = cp.id) s (triggerCheck env s cp sock useCand) := by
  unfold triggerCheck
  split
  · exact (conncheckTrigged_checking cp.id sock useCand).mark cp.id setTrigged_mark
  · exact .refl

/-! ## Pairing -/

theorem candpairAlloc_ok {r : Nat} (h : candpairAlloc s l r = .ok (u, id)) :
    s.lrole ≠ .unknown ∧ id = s.nextId ∧
      u = { s.refLcand l.id with
        checkl := listAddSorted s.checkl (newPair s l r), nextId := s.nextId + 1 } := by
  unfold candpairAlloc at h
  split at h
  · exact nomatch h
  · rename_i hrole
    simp only [Except.ok.injEq, Prod.mk.injEq] at h
    exact ⟨hrole, h.2.symm, h.1.symm⟩

/-- The candidates and the valid list stay. -/
structure SameCands (s t : Trice) : Prop where
  lcandl : t.lcandl = s.lcandl
  rcandl : t.rcandl = s.rcandl
  validl : t.validl = s.validl

theorem SameCands.refl : SameCands s s := ⟨rfl, rfl, rfl⟩

theorem SameCands.trans (h : SameCands s t) (h' : SameCands t u) : SameCands s u :=
  ⟨h'.lcandl.trans h.lcandl, h'.rcandl.trans h.rcandl, h'.validl.trans h.validl⟩

theorem createPair_work (r : Nat) (hl : l ∈ s.lcandl) :
    Work A L s (createPair s l r).1 ∧ SameCands s (createPair s l r).1 := by
  have hstay : Work A L s s ∧ SameCands s s := ⟨.refl, .refl⟩
  unfold createPair
  cases hr : s.rcandl[r]? with
  | none => exact hstay
  | some rcand =>
    simp only []
    split
    · exact hstay
    split
    · exact hstay
    split
    · exact hstay
    split
    · exact hstay
    split
    · exact hstay
    cases halloc : candpairAlloc s l r with
    | error err => exact hstay
    | ok res =>
      obtain ⟨-, -, hu⟩ := candpairAlloc_ok halloc
      refine ⟨Work.refl.alloc hl (List.getElem?_eq_some_iff.mp hr).1 halloc, ?_⟩
      rw [hu]
      exact ⟨rfl, rfl, rfl⟩

/-- The loop over the candidates of the other kind. -/
theorem pairLoop_work {α : Type} {pair : Trice → α → Trice × Option Errno} (cands : List α) :
    ∀ {t : Trice}, SameCands s t →
      (∀ u, SameCands s u → ∀ cand ∈ cands, Work A L u (pair u cand).1 ∧
        SameCands u (pair u cand).1) →
      Work A L t (pairLoop pair t cands).1 ∧ SameCands t (pairLoop pair t cands).1 := by
  induction cands with
  | nil => exact fun _ _ => ⟨.refl, .refl⟩
  | cons cand cands ih =>
    intro t ht hpair
    obtain ⟨hwork, hsame⟩ := hpair t ht cand mem_cons_self
    simp only [pairLoop]
    split
    · exact ⟨hwork, hsame⟩
    · obtain ⟨hwork', hsame'⟩ := ih (ht.trans hsame)
        fun u hu c hc => hpair u hu c (mem_cons_of_mem _ hc)
      exact ⟨hwork.trans hwork', hsame.trans hsame'⟩

theorem candpairWithLocal_work (hl : l ∈ s.lcandl) :
    Work A L s (candpairWithLocal s l).1 ∧ SameCands s (candpairWithLocal s l).1 := by
  unfold candpairWithLocal
  split
  · exact ⟨.refl, .refl⟩
  · refine pairLoop_work _ .refl fun u hu r _ => createPair_work r ?_
    rwa [hu.lcandl]

theorem candpairWithRemote_work (r : Nat) :
    Work A L s (candpairWithRemote s r).1 ∧ SameCands s (candpairWithRemote s r).1 := by
  unfold candpairWithRemote
  split
  · exact ⟨.refl, .refl⟩
  · refine pairLoop_work _ .refl fun u hu l hl => createPair_work r ?_
    rwa [hu.lcandl]

/-- All candidates are paired once the role is known. -/
theorem createCandpairs_work : Work A L s (createCandpairs s) := by
  have hlocal : ∀ (cands : List Lcand) (t : Trice), SameCands s t → (∀ c ∈ cands, c ∈ s.lcandl) →
      Work A L t (cands.foldl (fun s l => (candpairWithLocal s l).1) t) := by
    intro cands
    induction cands with
    | nil => exact fun _ _ _ => .refl
    | cons c cands ih =>
      intro t ht hmem
      obtain ⟨hwork, hsame⟩ := candpairWithLocal_work (A := A) (L := L) (s := t) (l := c) (by
        rw [ht.lcandl]
        exact hmem c mem_cons_self)
      exact hwork.trans (ih _ (ht.trans hsame) fun d hd => hmem d (mem_cons_of_mem _ hd))
  have hremote : ∀ (cands : List Nat) (t : Trice),
      Work A L t (cands.foldl (fun s r => (candpairWithRemote s r).1) t) := by
    intro cands
    induction cands with
    | nil => exact fun _ => .refl
    | cons r cands ih => exact fun t => (candpairWithRemote_work r).1.trans (ih _)
  exact (hlocal s.lcandl s .refl fun _ h => h).trans (hremote _ _)

/-! ## Candidates -/

/-- A remote candidate that is not known is added and paired. -/
theorem rcandAdd_new_work {compid : UInt32} {foundation : Bytes} {proto : Proto} {prio : UInt32}
    {addr : Sa} {type : CandType} {tcptype : TcpType}
    (hnew : rcandFind s compid proto addr = none) :
    Work A L s (rcandAdd s compid foundation proto prio addr type tcptype).1 := by
  unfold rcandAdd
  simp only [hnew]
  split
  · exact .refl
  split
  · exact .refl
  split
  · exact Work.refl.rcand _
  · have hadd : Work A L s _ :=
      Work.refl.rcand (newRcand compid foundation proto prio addr type tcptype)
    exact hadd.trans (candpairWithRemote_work s.rcandl.length).1

theorem requestRcand_work (lcand : Lcand) (src : Sa) (prio : UInt32) :
    Work A L s (requestRcand s lcand src prio).1 := by
  unfold requestRcand
  cases hfind : rcandFind s lcand.attr.compid lcand.attr.proto src with
  | some i => exact .refl
  | none => exact rcandAdd_new_work hfind

variable {c : Lcand}

theorem lcandOpen_attr {c' : Lcand} (h : lcandOpen args sockEnv c = .ok c') :
    c'.attr.prio = c.attr.prio ∧ c'.attr.compid = c.attr.compid := by
  unfold lcandOpen at h
  repeat' split at h
  all_goals
    first
    | cases h
      exact ⟨rfl, rfl⟩
    | cases h

theorem addLcand_work (hc : L c) : Work A L s (s.addLcand c) :=
  (Work.refl.lcand c hc).quiet (quiet_of_eq _ s.checklist s.rufrag s.rpwd (Nat.le_succ _))

theorem mem_addLcand (s : Trice) (c : Lcand) : c ∈ (s.addLcand c).lcandl :=
  mem_append_right _ (mem_singleton.mpr rfl)

section

variable (hL : ∀ c : Lcand, c.attr.prio = args.prio → c.attr.compid = args.compid → L c)
include hL

theorem lcandInsert_work : Work A L s (lcandInsert s args sockEnv).1 := by
  unfold lcandInsert
  cases hopen : lcandOpen args sockEnv (newLcand s args) with
  | error err =>
    exact Work.refl.quiet (quiet_of_eq s.lrefs s.checklist s.rufrag s.rpwd (Nat.le_succ _))
  | ok c =>
    obtain ⟨hprio, hcompid⟩ := lcandOpen_attr hopen
    have hadd : Work A L s (s.addLcand c) := addLcand_work (hL c hprio hcompid)
    simp only []
    split
    · exact hadd
    · have hpair := hadd.trans (candpairWithLocal_work (mem_addLcand s c)).1
      split
      · exact hpair
      · exact hpair.quiet (quiet_derefLcand _ c.id)

theorem lcandAdd_work : Work A L s (lcandAdd s args sockEnv).1 := by
  unfold lcandAdd
  split
  · exact .refl
  split
  · exact .refl
  split
  · exact .refl
  split
  · split
    · split
      · exact .trans (Work.refl.quiet (quiet_derefLcand s _)) (lcandInsert_work hL)
      · exact .refl
    · exact lcandInsert_work hL
  · exact lcandInsert_work hL

end

/-! ## Timers and connections -/

/-- The pair is on the check list. -/
def OnCheckl (s : Trice) (id : Nat) : Prop := ∃ cp ∈ s.checkl, cp.id = id

theorem scheduleCheck_work : Work (OnCheckl s) L s (scheduleCheck env s) := by
  have hsend : ∀ {cp t err}, cp ∈ s.checkl → conncheckSend env s cp.id false = (t, err) →
      Work (OnCheckl s) L s t ∧ Work (OnCheckl s) L s (t.setPair cp.id (candpairFailed err 0)) := by
    intro cp t err hcp hrun
    have hon : OnCheckl s cp.id := ⟨cp, hcp, rfl⟩
    have hwork : Work (OnCheckl s) L s (conncheckSend env s cp.id false).1 :=
      (conncheckSend_checking cp.id false).work.mono fun id h => h ▸ hon
    rw [hrun] at hwork
    exact ⟨hwork, hwork.check cp.id hon (candpairFailed_edit _ 0)⟩
  unfold scheduleCheck
  dsimp only
  split
  · next cp hw =>
    have hcp := mem_of_find?_eq_some hw
    split
    · next heq => exact (hsend hcp heq).1
    · next heq => exact (hsend hcp heq).2
  · split
    · next cp hf =>
      have hcp := mem_of_find?_eq_some hf
      split
      · next heq => exact (hsend hcp heq).1
      · next heq => exact (hsend hcp heq).2
    · exact .refl

theorem waitingPair_mem {rcandl : List Rcand} {pairs : List CandPair} (h : cp ∈ pairs) :
    pairs.foldl (waitingPair rcandl) cp ∈ pairs := by
  refine foldlRecOn pairs _ (motive := (· ∈ pairs)) h fun best hbest p hp => ?_
  unfold waitingPair
  split
  · exact hp
  · exact hbest

theorem checklistSetWaiting_work : Work (OnCheckl s) L s (checklistSetWaiting s) := by
  unfold checklistSetWaiting
  split
  · exact .refl
  refine foldlRecOn _ _ (motive := Work (OnCheckl s) L s) .refl fun u hu cp hcp => hu.check _ ?_ ?_
  · exact ⟨_, waitingPair_mem hcp, rfl⟩
  refine ⟨⟨?_, ?_, ?_, ?_⟩, ?_, fun cp h hvalid => ?_⟩
  all_goals try (intro cp; split <;> rfl)
  split at h
  · exact nomatch h
  · rename_i hne
    rw [if_neg hne] at hvalid
    exact ⟨h, hvalid⟩

/-- A connection that comes up starts checks of pairs in progress. -/
theorem estabCheck_cases (compid : UInt32) (laddr paddr : Sa) (tc : Option Nat) (cc : Conncheck) :
    estabCheck env compid laddr paddr tc s cc = s ∨
      ∃ cp ∈ s.checkl ++ s.validl, cp.state = .inProgress ∧
        Work (· = cp.id) L s (estabCheck env compid laddr paddr tc s cc) := by
  unfold estabCheck
  cases hpair : s.pair cc.pair with
  | none => exact .inl rfl
  | some cp =>
    simp only []
    split
    · rename_i hmatch
      refine .inr ⟨cp, mem_of_pair hpair, ?_, (conncheckStunRequest_checking ..).work⟩
      simp only [estabMatch, Bool.and_eq_true, beq_iff_eq] at hmatch
      exact hmatch.1.1.1.1
    · exact .inl rfl

theorem tcpClose_work (compid : UInt32) (paddr : Sa) (err : Option Errno) :
    Work (OnCheckl s) L s (tcpClose s compid paddr err) := by
  unfold tcpClose
  generalize some (err.getD .ECONNRESET) = e
  refine foldlRecOn _ _ (motive := Work (OnCheckl s) L s) .refl fun u hu cp hcp => ?_
  split
  · have hfail := hu.check cp.id ⟨cp, hcp, rfl⟩ (candpairFailed_edit e 0)
    simp only []
    split
    · exact hfail.quiet (quiet_emit _ rfl)
    · exact hfail
  · exact hu

theorem pairEstablished_checking (id : Nat) : Checking A s (pairEstablished s id) := by
  unfold pairEstablished
  split
  · exact .refl
  · split
    · exact .refl
    · exact (Checking.refl.mark id setEstab_mark).quiet (quiet_emit _ rfl)

end LibRe.Trice
