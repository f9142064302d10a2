/-
LibRe.Trice.Steps — an event is a chain of single changes.

Which guards an event passes is `Permits`. With `step_deeds` an invariant is one
case per change, for every event at once.
-/
import LibRe.Trice.Changes
import LibRe.Trice.RoleTheorems

namespace LibRe.Trice

open LibRe.Lists Relation List

variable {id : Nat} {useCand : Bool} {cp : CandPair} {lcand : Lcand} {sock : Option Nat} {src : Sa}
  {foundation : Bytes} {req : Request}

variable {G : Guards} {s t u : Trice} {env : Env}

/-! ## Responses -/

/-- A check of the pair may go out. -/
def PermitsSend (G : Guards) (env : Env) (s : Trice) (id : Nat) (useCand : Bool) : Prop :=
  id ∈ validIds s → Changes G s (conncheckSend env s id useCand).1

theorem conncheckSend_changes (h : PermitsSend G env s id useCand) :
    Changes G s (conncheckSend env s id useCand).1 := by
  by_cases hid : id ∈ validIds s
  · exact h hid
  · refine (conncheckSend_checking id useCand).changes fun id' h' => ?_
    rw [h']
    exact G.check_off hid

theorem switchLocalRole_changes (h : s.lrole ≠ .unknown → G.role (validIds s)) :
    Changes G s (switchLocalRole s) := by
  unfold switchLocalRole
  split
  · exact .refl
  · rename_i hrole
    exact .single (.role (h hrole) hrole (switchRole_known .trice hrole).1)

theorem exists_pair (hcp : cp ∈ s.checkl ++ s.validl) : ∃ cp', s.pair cp.id = some cp' :=
  Option.isSome_iff_exists.mp (find?_isSome.mpr ⟨cp, hcp, beq_self_eq_true cp.id⟩)

/-- Being frozen for a moment makes no difference to a pair that becomes valid. -/
theorem makeValid_setFrozen (hpair : s.pair id = some cp) :
    candpairMakeValid (s.setPair id setFrozen) id = candpairMakeValid s id := by
  have hid := pair_id hpair
  have hfrozen : (s.setPair id setFrozen).pair id = some (setFrozen cp) := by
    have hkey := setFrozen_keeps.assignAt id
    have hfun : ((fun cp : CandPair => cp.id == id) ∘ assignAt id setFrozen) = fun cp =>
        cp.id == id :=
      funext fun cp => congrArg (· == id) (hkey.id cp)
    rw [pair, pairs_setPair, find?_map, hfun]
    rw [pair] at hpair
    rw [hpair]
    exact congrArg some (if_pos hid)
  -- the assignment reaches no pair that stays
  have hfilter : ∀ l : List CandPair, (l.map (assignAt id setFrozen)).filter (·.id ≠ id) =
      l.filter (·.id ≠ id) := by
    intro l
    have hstays : ((fun cp : CandPair => decide (cp.id ≠ id)) ∘ assignAt id setFrozen) = fun cp =>
        decide (cp.id ≠ id) :=
      funext fun cp => congrArg (fun i => decide (i ≠ id)) ((setFrozen_keeps.assignAt id).id cp)
    rw [filter_map, hstays]
    exact (map_congr_left fun x hx => if_neg (by simpa using (mem_filter.mp hx).2)).trans (map_id _)
  rw [candpairMakeValid_of_pair hpair, candpairMakeValid_of_pair hfrozen]
  simp only [setPair, hfilter]
  rfl

/-- The pair of a new peer-reflexive candidate becomes valid in place of the
checked one, which fails. -/
theorem handlePrflx_changes (h : Sound s) (hcp : cp ∈ s.checkl ++ s.validl) {mapped : Sa}
    (hvalid : G.valid) (hcheck : G.check (validIds s) cp.id)
    (hl : G.lcand (prflxLcand s cp mapped)) :
    Changes G s (handlePrflx s cp mapped) := by
  have hA : ∀ id, id = cp.id → G.check (validIds s) id := fun id hid => hid ▸ hcheck
  have hL : ∀ c, c = prflxLcand s cp mapped → G.lcand c := fun c hc => hc ▸ hl
  have hadd : Work (· = cp.id) (· = prflxLcand s cp mapped) s
      (s.addLcand (prflxLcand s cp mapped)) :=
    addLcand_work rfl
  unfold handlePrflx
  simp only []
  split
  · exact (hadd.changes hA hL).1
  rename_i u prflx halloc
  have hpaired := hadd.alloc (mem_addLcand ..) (h.known cp hcp) halloc
  have hfailed := hpaired.check cp.id rfl (candpairFailed_edit none 0)
  obtain ⟨-, hid, hu⟩ := candpairAlloc_ok halloc
  have hnew : newPair (s.addLcand (prflxLcand s cp mapped)) (prflxLcand s cp mapped) cp.rcand ∈
      u.checkl ++ u.validl := by
    simp [mem_listAddSorted, hu]
  obtain ⟨cp', hfound⟩ : ∃ cp', (u.setPair cp.id (candpairFailed none 0)).pair prflx =
      some cp' := by
    have hmem := List.mem_map_of_mem (f := assignAt cp.id (candpairFailed none 0)) hnew
    rw [← pairs_setPair] at hmem
    have hkeep := ((candpairFailed_edit none 0).toKeepsKey.assignAt cp.id).id
      (newPair (s.addLcand (prflxLcand s cp mapped)) (prflxLcand s cp mapped) cp.rcand)
    have hfound := exists_pair hmem
    rw [hkeep] at hfound
    rw [hid]
    exact hfound
  exact ((hfailed.changes hA hL).1.tail (.makeValid hvalid hfound)).trans
    (pairEstablished_checking prflx).work.changes'

theorem handleMapped_changes (hpair : s.pair id = some cp) (hvalid : G.valid)
    (useCand : Bool) : Changes G s (handleMapped s id useCand) := by
  have hmade : Changes G s (candpairMakeValid s id) := .single (.makeValid hvalid hpair)
  unfold handleMapped
  rw [makeValid_setFrozen hpair]
  refine .trans ?_ (pairEstablished_checking id).work.changes'
  split
  · exact hmade.tail (.nominate id)
  · exact hmade

/-- What a response asks of the guards. -/
def PermitsResponse (G : Guards) (env : Env) (s : Trice) (resp : Response) (cc : Conncheck) :
    Prop :=
  if resp.err ≠ none then cc.pair ∈ validIds s → G.check (validIds s) cc.pair
  else if resp.scode = 0 then
    match resp.mapped with
    | none => cc.pair ∈ validIds s → G.check (validIds s) cc.pair
    | some mapped => G.valid ∧ ∀ cp, s.pair cc.pair = some cp →
        lcandFind s none cp.lcand.attr.compid cp.lcand.attr.proto mapped = none →
          (cc.pair ∈ validIds s → G.check (validIds s) cc.pair) ∧ G.lcand (prflxLcand s cp mapped)
  else if resp.scode = 487 then
    (s.lrole ≠ .unknown → G.role (validIds s)) ∧ PermitsSend G env (switchLocalRole s)
      cc.pair cc.useCand
  else cc.pair ∈ validIds s → G.check (validIds s) cc.pair

theorem stuncRespHandler_changes (h : Sound s) {resp : Response}
    (hp : ∀ cc, (s.checklist.getD []).find? (·.id == id) = some cc →
      PermitsResponse G env s resp cc) :
    Changes G s (stuncRespHandler env s id resp) := by
  unfold stuncRespHandler
  cases hfind : (s.checklist.getD []).find? (·.id == id) with
  | none => exact .refl
  | some cc =>
    have hcc := hp cc hfind
    have hfailed : (cc.pair ∈ validIds s → G.check (validIds s) cc.pair) →
        ∀ (err : Option Errno) (scode : UInt16),
        Changes G s (s.setPair cc.pair (candpairFailed err scode)) := fun hcheck err scode =>
      .single (.check cc.pair (G.check_of hcheck) (candpairFailed_edit err scode))
    refine ReflTransGen.tail ?_ (.quiet (quiet_of_eq _ _ _ _ (le_refl _)))
    generalize hs : (if resp.err ≠ none then s.setPair cc.pair (candpairFailed resp.err resp.scode)
      else _) = t
    have ht : Changes G s t := by
      rw [← hs]
      unfold PermitsResponse at hcc
      split
      · rename_i herr
        rw [if_pos herr] at hcc
        exact hfailed hcc ..
      rename_i herr
      rw [if_neg herr] at hcc
      split
      · rename_i hscode
        rw [if_pos hscode] at hcc
        cases hmapped : resp.mapped with
        | none =>
          rw [hmapped] at hcc
          exact hfailed hcc ..
        | some mapped =>
          rw [hmapped] at hcc
          simp only [handleSuccess]
          cases hpair : s.pair cc.pair with
          | none => exact .refl
          | some cp =>
            simp only []
            split
            · rename_i hnone
              obtain ⟨hcheck, hl⟩ := hcc.2 cp hpair hnone
              refine handlePrflx_changes h (mem_of_pair hpair) hcc.1 ?_ hl
              rw [pair_id hpair]
              exact G.check_of hcheck
            · exact handleMapped_changes hpair hcc.1 cc.useCand
      rename_i hscode
      rw [if_neg hscode] at hcc
      split
      · rename_i hrole
        rw [if_pos hrole] at hcc
        exact (switchLocalRole_changes hcc.1).trans (conncheckSend_changes hcc.2)
      · rename_i hrole
        rw [if_neg hrole] at hcc
        exact hfailed hcc ..
    split
    · exact ht.tail (.quiet (quiet_emit _ rfl))
    · exact ht

/-! ## Requests -/

/-- The role logic changes the role: the request names the agent's own role, and
the agent does not have the smaller tie-breaker. -/
def SwitchesRole (s : Trice) (req : Request) : Prop :=
  s.lrole ≠ .unknown ∧ (remoteRole req).1 = s.lrole ∧ s.tiebrk ≥ (remoteRole req).2

/-- What the handling of a request leaves alone before a check is triggered. -/
structure Kept (s t : Trice) : Prop where
  lrole : s.lrole ≠ .unknown → t.lrole ≠ .unknown
  lufrag : t.lufrag = s.lufrag
  rufrag : t.rufrag = s.rufrag
  rpwd : t.rpwd = s.rpwd
  rcandl : t.rcandl = s.rcandl
  validl : t.validl = s.validl
  checklist : t.checklist = s.checklist
  nextId : t.nextId = s.nextId

theorem Kept.trans (h : Kept s t) (h' : Kept t u) : Kept s u :=
  ⟨fun hs => h'.lrole (h.lrole hs), h'.lufrag.trans h.lufrag, h'.rufrag.trans h.rufrag,
    h'.rpwd.trans h.rpwd,
    h'.rcandl.trans h.rcandl, h'.validl.trans h.validl, h'.checklist.trans h.checklist,
    h'.nextId.trans h.nextId⟩

theorem kept_emit (s : Trice) (o : Output) : Kept s (s.emit o) :=
  ⟨id, rfl, rfl, rfl, rfl, rfl, rfl, rfl⟩

theorem kept_switchLocalRole (s : Trice) : Kept s (switchLocalRole s) := by
  unfold switchLocalRole
  split
  · exact ⟨id, rfl, rfl, rfl, rfl, rfl, rfl, rfl⟩
  · exact ⟨fun hrole => (switchRole_known .trice hrole).1, rfl, rfl, rfl, rfl, rfl, rfl, rfl⟩

/-- A request may trigger a check of its pair on the valid list. -/
def PermitsTrigger (G : Guards) (env : Env) (s : Trice) (lcand : Lcand)
    (sock : Option Nat) (src : Sa) (useCand : Bool) : Prop :=
  ∀ rcand cp, rcandFind s lcand.attr.compid lcand.attr.proto src = some rcand →
    candpairFind s.validl lcand.id rcand = some cp →
      ∀ t, Sound t → Kept s t → Changes G t (triggerCheck env t cp sock useCand)

theorem PermitsTrigger.kept (h : PermitsTrigger G env s lcand sock src useCand) (hkept : Kept s t) :
    PermitsTrigger G env t lcand sock src useCand := by
  intro rcand cp hfind hpair u hsound hu
  rw [rcandFind, hkept.rcandl] at hfind
  rw [hkept.validl] at hpair
  exact h rcand cp hfind hpair u hsound (hkept.trans hu)

theorem permitsTrigger_nil (hv : s.validl = []) :
    PermitsTrigger G env s lcand sock src useCand := by
  intro rcand cp _ hpair
  rw [hv] at hpair
  exact nomatch hpair

theorem handlePair_changes (h : Sound s) (lcand : Lcand) (rcand : Nat) (sock : Option Nat)
    (useCand : Bool) (hvalid : ∀ cp, candpairFind s.validl lcand.id rcand = some cp →
      Changes G s (triggerCheck env s cp sock useCand)) :
    Changes G s (handlePair env s lcand rcand sock useCand) := by
  unfold handlePair
  split
  · simp_all
  split
  · exact .refl
  rename_i cp hfind
  have hoff := h.off (mem_of_find?_eq_some hfind)
  have htrigger : ∀ t, validIds t = validIds s →
      Changes G t (triggerCheck env t cp sock useCand) := by
    intro t ht
    refine (triggerCheck_checking cp sock useCand).changes fun id hid => ?_
    rw [hid, ht]
    exact G.check_off hoff
  split
  · exact .trans (.single (.nominate cp.id))
      (htrigger _ (validIds_setPair setNominated_keeps cp.id))
  · exact htrigger s rfl

variable {compid prio : UInt32} {proto : Proto} {addr : Sa} {type : CandType} {tcptype : TcpType}
  {role : Role} {ev : Event} {valid : Prop}

/-- A new remote candidate stands behind those that pairs have. -/
theorem rcandAdd_new {i : Nat} (hnew : rcandFind s compid proto addr = none)
    (hok : rcandAdd s compid foundation proto prio addr type tcptype = (t, .ok i)) :
    addr ≠ .unspec ∧ i = s.rcandl.length ∧ t.validl = s.validl ∧
      t.rcandl = s.rcandl ++ [newRcand compid foundation proto prio addr type tcptype] := by
  unfold rcandAdd at hok
  simp only [hnew] at hok
  split at hok
  · exact nomatch congrArg Prod.snd hok
  rename_i haddr
  refine ⟨fun hunspec => haddr (by rw [hunspec]; rfl), ?_⟩
  split at hok
  · exact nomatch congrArg Prod.snd hok
  split at hok
  · grind
  have hsame := (candpairWithRemote_work (A := fun _ => False) (L := fun _ => False)
    (s := { s with
      rcandl := s.rcandl ++ [newRcand compid foundation proto prio addr type tcptype] })
    s.rcandl.length).2
  split at hok
  · cases hok
    exact ⟨rfl, hsame.validl, hsame.rcandl⟩
  · exact nomatch congrArg Prod.snd hok

theorem handleStunFull_changes (h : Sound s)
    (prio : UInt32) (htrigger : PermitsTrigger G env s lcand sock src useCand) :
    Changes G s (handleStunFull env s lcand sock src prio useCand).1 := by
  have hr : Changes G s (requestRcand s lcand src prio).1 :=
    (requestRcand_work lcand src prio).changes'
  unfold handleStunFull
  split
  · simp_all
  rename_i t rcand heq
  rw [heq] at hr
  refine hr.trans (handlePair_changes (hr.sound h) lcand rcand sock useCand fun cp hpair => ?_)
  unfold requestRcand at heq
  split at heq
  · rename_i i hfind
    simp only [Prod.mk.injEq, Except.ok.injEq] at heq
    obtain ⟨rfl, rfl⟩ := heq
    exact htrigger i cp hfind hpair s h ⟨id, rfl, rfl, rfl, rfl, rfl, rfl, rfl⟩
  · -- a pair on the valid list has an older candidate
    rename_i hnone
    obtain ⟨-, hi, hvalidl, -⟩ := rcandAdd_new hnone heq
    rw [hvalidl] at hpair
    have hkey := find?_some hpair
    simp only [Bool.and_eq_true, beq_iff_eq] at hkey
    have := h.known cp (mem_append_right _ (mem_of_find?_eq_some hpair))
    omega

theorem calm_emit (s : Trice) (o : Output) : Calm s (s.emit o) :=
  ⟨rfl, rfl, fun _ h => h, rfl, rfl, rfl, le_refl _⟩

theorem stundServe_deeds (h : Sound s)
    (number : Nat) (htrigger : PermitsTrigger G env s lcand sock src req.useCand) :
    Deeds G s (stundServe env s number lcand sock src req) := by
  unfold stundServe
  split
  · exact .single (.calm (calm_emit s _))
  · exact (handleStunFull_changes h _ htrigger).deeds.tail (.calm (calm_emit _ _))

/-- Behind the role logic, which may switch the role, a request is refused or served. -/
theorem stundRecvRoleSet_cases {number : Nat} (hrole : SwitchesRole s req → G.role (validIds s))
    (ht : stundRecvRoleSet env s number lcand sock src req = t) :
    (∃ scode, scode ≠ 0 ∧ t = (s.emit (.roleLogic number)).emit (.reply number scode)) ∨
      ∃ u, Changes G (s.emit (.roleLogic number)) u ∧ Kept (s.emit (.roleLogic number)) u ∧
        t = stundServe env u number lcand sock src req := by
  subst ht
  unfold stundRecvRoleSet
  simp only []
  split
  · exact .inl ⟨400, by decide, rfl⟩
  split
  · rename_i hsame
    split
    · rename_i htie
      exact .inr ⟨_, switchLocalRole_changes fun hlrole => hrole ⟨hlrole, hsame, htie⟩,
        kept_switchLocalRole _, rfl⟩
    · exact .inl ⟨487, by decide, rfl⟩
  · exact .inr ⟨_, .refl, ⟨id, rfl, rfl, rfl, rfl, rfl, rfl, rfl⟩, rfl⟩

theorem stundRecvRoleSet_deeds (h : Sound s)
    (number : Nat) (hrole : SwitchesRole s req → G.role (validIds s))
    (htrigger : PermitsTrigger G env s lcand sock src req.useCand) :
    Deeds G s (stundRecvRoleSet env s number lcand sock src req) := by
  have hlogic : Deeds G s (s.emit (.roleLogic number)) := .single (.calm (calm_emit s _))
  rcases stundRecvRoleSet_cases hrole rfl with ⟨scode, -, ht⟩ | ⟨u, hu, hkept, ht⟩
  · rw [ht]
    exact hlogic.tail (.calm (calm_emit _ _))
  · rw [ht]
    exact (hlogic.trans hu.deeds).trans (stundServe_deeds (hu.sound (hlogic.sound h)) number
        ((htrigger.kept (kept_emit s _)).kept hkept))

/-- Requests are kept for later and served now. -/
theorem stundRecv_deeds (h : Sound s)
    (hp : stundCheck s req = some 0 → (SwitchesRole s req → G.role (validIds s)) ∧
      PermitsTrigger G env s lcand sock src req.useCand) :
    Deeds G s (stundRecv env s lcand sock src req) := by
  have hnumber : Deeds G s { s with received := s.received + 1 } :=
    .single (.calm ⟨rfl, rfl, fun _ h => h, rfl, rfl, rfl, le_refl _⟩)
  have hcheck : stundCheck { s with received := s.received + 1 } req = stundCheck s req := rfl
  unfold stundRecv
  simp only [hcheck]
  split
  · exact hnumber
  · rename_i hauth
    obtain ⟨hrole, htrigger⟩ := hp hauth
    split
    · have hbuffer : Deeds G s (reqbufAppend { s with received := s.received + 1 } s.received lcand
          sock src req) :=
        hnumber.tail (.calm ⟨rfl, rfl, fun _ h => h, rfl, rfl, rfl, le_refl _⟩)
      exact hbuffer.trans (stundRecvRoleSet_deeds (hbuffer.sound h) _ hrole
        (htrigger.kept ⟨id, rfl, rfl, rfl, rfl, rfl, rfl, rfl⟩))
    · exact hnumber.trans (stundRecvRoleSet_deeds (hnumber.sound h) _ hrole
        (htrigger.kept ⟨id, rfl, rfl, rfl, rfl, rfl, rfl, rfl⟩))
  · exact hnumber.tail (.calm (calm_emit _ _))

/-! ## The first role -/

/-- Serving a request makes no pair valid. -/
theorem stundRecvRoleSet_validl (h : Sound s) (hv : s.validl = []) (number : Nat) (lcand : Lcand)
    (sock : Option Nat) (src : Sa) (req : Request) :
    (stundRecvRoleSet env s number lcand sock src req).validl = [] := by
  have hdeeds : Deeds (lenient False) s (stundRecvRoleSet env s number lcand sock src req) :=
    stundRecvRoleSet_deeds h number (fun _ => trivial) (permitsTrigger_nil hv)
  have hids : validIds (stundRecvRoleSet env s number lcand sock src req) = validIds s :=
    hdeeds.keeps (P := fun t => validIds t = validIds s) rfl fun ht deed =>
      (deed.validIds id).trans ht
  simpa [validIds, hv] using hids

/-- The buffered requests are served before any pair is valid. -/
theorem reqbufProcess_deeds (h : Sound s) (hv : s.validl = []) :
    Deeds G s (reqbufProcess env s) := by
  refine (foldlRecOn s.reqbufl _ (motive := fun t => Deeds G s t ∧ t.validl = []) ⟨.refl, hv⟩ ?_).1
  rintro t ⟨hdeeds, hvt⟩ e -
  have hsound := hdeeds.sound h
  have hserve : Deeds G t (stundRecvRoleSet env t e.number e.lcand e.sock e.src e.req) :=
    stundRecvRoleSet_deeds hsound e.number (fun _ => by simpa [validIds, hvt] using G.role_nil)
      (permitsTrigger_nil hvt)
  refine ⟨.tail (.tail (hdeeds.trans hserve) (.calm ?_)) (.calm (quiet_derefLcand _ _).toCalm), ?_⟩
  · exact ⟨rfl, rfl, fun _ h => h, rfl, rfl, rfl, le_refl _⟩
  · exact stundRecvRoleSet_validl hsound hvt e.number e.lcand e.sock e.src e.req

theorem reqbufProcess_nil (h : s.reqbufl = []) : reqbufProcess env s = s := by
  rw [reqbufProcess, h]
  rfl

theorem setRole_deeds (h : Sound s) (hbuf : s.lrole ≠ .unknown → s.reqbufl = [])
    (hrole : role ≠ .unknown → s.lrole ≠ role → s.lrole ≠ .unknown → G.role (validIds s)) :
    Deeds G s (setRole env s role) := by
  unfold setRole
  split
  · exact .refl
  rename_i hknown
  split
  · exact .refl
  rename_i hne
  split
  · rename_i hunknown
    have hfirst : Deeds G s { s with lrole := role } := .single (.firstRole hunknown hknown)
    have hpairs : Work (fun _ => False) (fun _ => False) { s with lrole := role } _ :=
      createCandpairs_work (s := { s with lrole := role })
    have hcreate : Deeds G s (createCandpairs { s with lrole := role }) :=
      hfirst.trans hpairs.changes'.deeds
    have hv : validIds (createCandpairs { s with lrole := role }) = [] := by
      rw [(hpairs.changes (G := G) (fun _ h => h.elim) (fun _ h => h.elim)).2]
      simp [validIds, (h.unknown hunknown).2]
    exact hcreate.trans (reqbufProcess_deeds (hcreate.sound h) (map_eq_nil_iff.mp hv))
  · rename_i hlrole
    rw [reqbufProcess_nil]
    · exact .single (.change (.role (hrole hknown hne hlrole) hlrole hknown))
    · exact hbuf hlrole

/-! ## Events -/

theorem rcandAdd_changes (hup : ∀ i, rcandFind s compid proto addr = some i → G.upgrade s i prio) :
    Changes G s (rcandAdd s compid foundation proto prio addr type tcptype).1 := by
  cases hfind : rcandFind s compid proto addr with
  | none => exact (rcandAdd_new_work hfind).changes'
  | some i =>
    unfold rcandAdd
    simp only [hfind]
    split
    · exact .refl
    · exact .single (.upgrade i type prio (hup i hfind))

theorem tcpEstab_changes (compid : UInt32) (laddr paddr : Sa) (tc : Option Nat)
    (hp : ∀ t, Changes G s t → ∀ cp ∈ t.checkl ++ t.validl, cp.state = .inProgress →
      G.check (validIds t) cp.id) :
    Changes G s (tcpEstab env s compid laddr paddr tc) := by
  refine foldlRecOn _ _ (motive := Changes G s) .refl fun t ht cc _ => ?_
  rcases estabCheck_cases (L := fun _ => False) compid laddr paddr tc cc with heq | ⟨cp, hcp,
    hstate, hwork⟩
  · rwa [heq]
  · refine ht.trans (hwork.changes (fun id hid => ?_) fun _ hc => hc.elim).1
    rw [hid]
    exact hp t ht cp hcp hstate

/-- What an event asks of the guards. -/
def Permits (G : Guards) (s : Trice) : Event → Prop
  | .lcandAdd args _ =>
    ∀ c : Lcand, c.attr.prio = args.prio → c.attr.compid = args.compid → G.lcand c
  | .rcandAdd compid _ proto prio addr _ _ =>
    ∀ i, rcandFind s compid proto addr = some i → G.upgrade s i prio
  | .setRole role _ => role ≠ .unknown → s.lrole ≠ role → s.lrole ≠ .unknown → G.role (validIds s)
  | .conncheckSend id useCand env => PermitsSend G env s id useCand
  | .request lcand sock src req env =>
    ∀ c, s.lcandl.find? (·.id == lcand) = some c → stundCheck s req = some 0 →
      (SwitchesRole s req → G.role (validIds s)) ∧ PermitsTrigger G env s c sock src req.useCand
  | .response id resp env =>
    ∀ cc, (s.checklist.getD []).find? (·.id == id) = some cc → PermitsResponse G env s resp cc
  | .tcpEstab _ _ _ _ _ =>
    ∀ t, Changes G s t → ∀ cp ∈ t.checkl ++ t.validl, cp.state = .inProgress →
      G.check (validIds t) cp.id
  | _ => True

/-- Events other than requests and roles set by the application. -/
def Event.silent : Event → Bool
  | .setRole _ _ => false
  | .request _ _ _ _ _ => false
  | _ => true

theorem step_changes (h : Sound s) (hev : ev.silent = true) (hp : Permits G s ev) :
    Changes G s (step s ev) := by
  have hchecks : ∀ {t}, Work (OnCheckl s) (fun _ => False) s t → Changes G s t := by
    intro t hwork
    refine (hwork.changes ?_ fun _ hc => hc.elim).1
    rintro id ⟨cp, hcp, rfl⟩
    exact G.check_off (h.off hcp)
  cases ev with
  | setRemoteUfrag rufrag =>
    exact .single (.quiet (quiet_of_eq s.lrefs s.checklist rufrag s.rpwd (le_refl _)))
  | setRemotePwd rpwd =>
    exact .single (.quiet (quiet_of_eq s.lrefs s.checklist s.rufrag rpwd (le_refl _)))
  | lcandAdd args sockEnv =>
    exact ((lcandAdd_work (A := fun _ => False) hp).changes (fun _ h => h.elim) (fun _ h => h)).1
  | rcandAdd => exact rcandAdd_changes hp
  | setRole _ _ | request _ _ _ _ _ => exact nomatch hev
  | checklistStart =>
    simp only [step, checklistStart]
    split
    · exact .refl
    split
    · exact .refl
    split
    · exact .refl
    · exact .single (.quiet (quiet_of_eq s.lrefs _ s.rufrag s.rpwd (le_refl _)))
  | setWaiting => exact hchecks checklistSetWaiting_work
  | pace env =>
    grind [scheduleCheck_work, step]
  | conncheckSend id useCand env => exact conncheckSend_changes hp
  | response id resp env => exact stuncRespHandler_changes h hp
  | tcpEstab compid laddr paddr tc env => exact tcpEstab_changes compid laddr paddr tc hp
  | tcpClose compid paddr err => exact hchecks (tcpClose_work compid paddr err)

/-- An event is a chain of deeds. -/
theorem step_deeds (h : Sound s) (hbuf : s.lrole ≠ .unknown → s.reqbufl = [])
    (hp : Permits G s ev) :
    Deeds G s (step s ev) := by
  by_cases hev : ev.silent = true
  · exact (step_changes h hev hp).deeds
  cases ev with
  | setRole role env => exact setRole_deeds h hbuf hp
  | request lcand sock src req env =>
    simp only [step]
    split
    · exact .refl
    · rename_i c hfind
      exact stundRecv_deeds h (hp c hfind)
  | _ => exact absurd rfl hev

/-! ## Lenient guards -/

theorem permitsTrigger_lenient : PermitsTrigger (lenient valid) env s lcand sock src useCand := by
  intro rcand cp _ _ t _ _
  exact (triggerCheck_checking cp sock useCand).changes fun _ _ => trivial

theorem permitsSend_lenient : PermitsSend (lenient valid) env s id useCand := by
  intro _
  exact (conncheckSend_checking id useCand).changes fun _ _ => trivial

theorem reqbufServe_deeds (valid : Prop) (env : Env) (h : Sound s) (e : Reqbuf) :
    Deeds (lenient valid) (stundRecvRoleSet env s e.number e.lcand e.sock e.src e.req)
      (reqbufServe env s e) ∧
      Deeds (lenient valid) s (reqbufServe env s e) := by
  have hrest : Deeds (lenient valid) (stundRecvRoleSet env s e.number e.lcand e.sock e.src e.req)
      (reqbufServe env s e) := by
    refine ReflTransGen.tail (.single (.calm ?_)) (.calm (quiet_derefLcand _ e.lcand.id).toCalm)
    exact ⟨rfl, rfl, fun _ h => h, rfl, rfl, rfl, le_refl _⟩
  exact ⟨hrest, (stundRecvRoleSet_deeds h e.number (fun _ => trivial) permitsTrigger_lenient).trans
    hrest⟩

theorem permits_lenient (ev : Event) : Permits (lenient True) s ev := by
  cases ev with
  | lcandAdd | setRole => exact fun _ _ _ => trivial
  | rcandAdd => exact fun _ _ => trivial
  | conncheckSend => exact permitsSend_lenient
  | request => exact fun _ _ _ => ⟨fun _ => trivial, permitsTrigger_lenient⟩
  | response id resp env =>
    intro cc _
    unfold PermitsResponse
    split
    · exact fun _ => trivial
    split
    · split
      · exact fun _ => trivial
      · exact ⟨trivial, fun _ _ _ => ⟨fun _ => trivial, trivial⟩⟩
    split
    · exact ⟨fun _ => trivial, permitsSend_lenient⟩
    · exact fun _ => trivial
  | tcpEstab => exact fun _ _ _ _ _ => trivial
  | _ => exact trivial

end LibRe.Trice
