/-
LibRe.Trice.Valid — the valid list and the pairs on it.

A pair that succeeds moves to the valid list, and nothing moves it back: when a
pair on the valid list is checked once more and that check fails, the pair fails
where it is. As long as the checks of valid pairs do not fail, the list and the
pairs' own state agree.
-/
import LibRe.Trice.Requests

namespace LibRe.Trice

open Machine Relation List

variable {id : Nat} {f : CandPair → CandPair} {cp : CandPair}

/-- The pairs that are valid and succeeded are those on the valid list, and no pair
is on both lists. -/
def ListsAgree (s : Trice) : Prop :=
  (∀ cp ∈ s.checkl ++ s.validl, cp ∈ s.validl ↔ cp.valid = true ∧ cp.state = .succeeded) ∧
    ∀ cp ∈ s.checkl, ∀ cp' ∈ s.validl, cp.id ≠ cp'.id

/-- The invariant, list by list. -/
structure Placed (s : Trice) : Prop where
  validl : ∀ cp ∈ s.validl, cp.valid = true ∧ cp.state = .succeeded
  checkl : ∀ cp ∈ s.checkl, ¬ (cp.valid = true ∧ cp.state = .succeeded)

variable {s t : Trice} {env : Env}

theorem Placed.listsAgree (h : Placed s) (hs : Sound s) : ListsAgree s := by
  have hids : ∀ cp ∈ s.checkl, ∀ cp' ∈ s.validl, cp.id ≠ cp'.id := fun cp hcp cp' hcp' hid =>
    hs.off hcp (mem_map.mpr ⟨cp', hcp', hid.symm⟩)
  refine ⟨fun cp hcp => ⟨h.validl cp, fun hvalid => ?_⟩, hids⟩
  rcases mem_append.mp hcp with hcp | hcp
  · exact absurd hvalid (h.checkl cp hcp)
  · exact hcp

/-! ## Changes -/

/-- Checks may change the pairs that are not on the valid list. -/
def placeGuards : Guards where
  check ids id := id ∉ ids
  role _ := True
  lcand _ := True
  upgrade _ _ _ := True
  valid := True
  check_off h := h
  role_nil := trivial

theorem mem_map_assignAt {l : List CandPair} {x : CandPair}
    (h : x ∈ l.map (assignAt id f)) : ∃ cp ∈ l, x = cp ∧ cp.id ≠ id ∨ x = f cp ∧ cp.id = id := by
  obtain ⟨cp, hcp, rfl⟩ := mem_map.mp h
  by_cases hid : cp.id = id
  · exact ⟨cp, hcp, .inr ⟨if_pos hid, hid⟩⟩
  · exact ⟨cp, hcp, .inl ⟨if_neg hid, hid⟩⟩

/-- A change of a pair that keeps state and validity. -/
theorem Placed.setPair (h : Placed s) (id : Nat) (hstate : ∀ cp, (f cp).state = cp.state)
    (hvalid : ∀ cp, (f cp).valid = cp.valid) : Placed (s.setPair id f) := by
  refine ⟨fun x hx => ?_, fun x hx => ?_⟩
  · obtain ⟨cp, hcp, ⟨rfl, -⟩ | ⟨rfl, -⟩⟩ := mem_map_assignAt hx
    · exact h.validl x hcp
    · grind [validl]
  · obtain ⟨cp, hcp, ⟨rfl, -⟩ | ⟨rfl, -⟩⟩ := mem_map_assignAt hx
    · exact h.checkl x hcp
    · grind [checkl]

/-- What a check does to a pair that is not on the valid list. -/
theorem Placed.check (h : Placed s) (hoff : id ∉ validIds s)
    (hf : CheckEdit f) : Placed (s.setPair id f) := by
  refine ⟨fun x hx => ?_, fun x hx hboth => ?_⟩
  · obtain ⟨cp, hcp, ⟨rfl, -⟩ | ⟨rfl, hid⟩⟩ := mem_map_assignAt hx
    · exact h.validl x hcp
    · exact absurd (mem_map.mpr ⟨cp, hcp, hid⟩) hoff
  · obtain ⟨cp, hcp, ⟨rfl, -⟩ | ⟨rfl, -⟩⟩ := mem_map_assignAt hx
    · exact h.checkl x hcp hboth
    · exact h.checkl cp hcp (hf.succeeds cp hboth.2 hboth.1).symm

theorem Placed.makeValid (h : Placed s) (hpair : s.pair id = some cp) :
    Placed (candpairMakeValid s id) := by
  refine ⟨fun x hx => ?_, fun x hx => ?_⟩
  · rcases (mem_makeValid hpair).2.mp hx with rfl | hx
    · exact ⟨rfl, rfl⟩
    · exact h.validl x hx.1
  · exact h.checkl x ((mem_makeValid hpair).1.mp hx).1

theorem Placed.alloc (h : Placed s) {l : Lcand} {r : Nat}
    (halloc : candpairAlloc s l r = .ok (t, id)) :
    Placed t := by
  obtain ⟨-, -, rfl⟩ := candpairAlloc_ok halloc
  refine ⟨h.validl, fun cp hcp => ?_⟩
  rcases mem_listAddSorted.mp hcp with rfl | hold
  · exact fun hboth => nomatch hboth.1
  · exact h.checkl cp hold

theorem Placed.calm (h : Placed s) (hq : Calm s t) : Placed t := by
  refine ⟨?_, ?_⟩
  · rw [hq.validl]
    exact h.validl
  · rw [hq.checkl]
    exact h.checkl

theorem Deed.placed (deed : Deed placeGuards s t) (h : Placed s) : Placed t := by
  cases deed with
  | change change =>
    cases change with
    | quiet change => exact h.calm change.toCalm
    | check id of change => exact h.check of change
    | mark id change => exact h.setPair id change.state change.valid
    | nominate id => exact h.setPair id (fun _ => rfl) fun _ => rfl
    | makeValid of found => exact h.makeValid found
    | lcand _ _ | rcand _ | upgrade _ _ _ _ => exact ⟨h.validl, h.checkl⟩
    | alloc paired known change => exact h.alloc change
    | role of before after =>
      refine ⟨h.validl, fun cp' hcp' => ?_⟩
      obtain ⟨cp, hcp, rfl⟩ := mem_candpairPrioOrder hcp'
      exact h.checkl cp hcp
  | calm calm => exact h.calm calm
  | firstRole before after => exact ⟨h.validl, h.checkl⟩

/-! ## Checks that go out -/

/-- `trice_conncheck_stun_request` sends the check. -/
def CanRequest (env : Env) (s : Trice) (cc : Nat) (sock : Option Nat) : Prop :=
  sock.isSome = true ∧ s.rpwd ≠ [] ∧ usernameFits s = true ∧ env.stunRequest cc = none

/-- `trice_conncheck_send` sends the check of a pair, or connects for it. -/
def CanSend (env : Env) (s : Trice) (cp : CandPair) : Prop :=
  match cp.lcand.attr.proto with
  | .udp => CanRequest env s s.nextId (lcandSock s cp.lcand)
  | .tcp =>
    match env.connFind cp.id with
    | some tc => CanRequest env s s.nextId tc
    | none => cp.lcand.attr.tcptype ≠ .passive ∧ env.connAlloc cp.id = none
  | .other _ => False

/-- A pair that succeeded is not set in progress. -/
theorem conncheckStart_succeeded (h : cp.state = .succeeded) :
    conncheckStart s cp = { s with nextId := s.nextId + 1 } := by
  rw [conncheckStart, h]
  rfl

/-- The next identity is taken. -/
theorem next_sent (s : Trice) : Work (fun _ => False) (fun _ => False) s
    { s with nextId := s.nextId + 1 } :=
  Work.refl.quiet (quiet_of_eq s.lrefs s.checklist s.rufrag s.rpwd (Nat.le_succ _))

variable {sock : Option Nat} {ev : Event}

/-- A check goes out and is listed. -/
theorem request_sent (id : Nat) (cp : CandPair) (useCand : Bool)
    (h : CanRequest env s s.nextId sock) (hlist : s.checklist.isSome = true)
    (hrole : s.lrole ≠ .unknown) :
    Work (fun _ => False) (fun _ => False) s
      (conncheckDone id { id := s.nextId, pair := id, useCand }
        (conncheckStunRequest env { s with nextId := s.nextId + 1 }
          { id := s.nextId, pair := id, useCand } cp sock useCand)).1 := by
  obtain ⟨hsock, hrpwd, hfits, hsent⟩ := h
  have hlist' : s.checklist.isNone = false := by simpa using hlist
  have hsock' : sock.isNone = false := by simpa using hsock
  have hrpwd' : s.rpwd.isEmpty = false := by simpa using hrpwd
  have hfits' : usernameFits { s with nextId := s.nextId + 1 } = true := hfits
  simp only [conncheckStunRequest, hlist', hsock', hrpwd', hfits', hrole, hsent, Bool.not_true,
    Bool.false_eq_true, if_false]
  exact (((next_sent s).quiet (quiet_emit _ rfl)).quiet (quiet_of_eq _ _ _ _ (le_refl _)))

/-- A pair that has the identity of one on the valid list is on that list. -/
theorem pair_mem_validl (hs : Sound s) (hid : id ∈ validIds s)
    (hpair : s.pair id = some cp) : cp ∈ s.validl := by
  rcases mem_append.mp (mem_of_pair hpair) with hcp | hcp
  · exact absurd (pair_id hpair ▸ hid) (hs.off hcp)
  · exact hcp

/-- A check of a valid pair that goes out. -/
theorem conncheckSend_sent (h : ∀ cp ∈ s.validl, cp.state = .succeeded) (hs : Sound s)
    (useCand : Bool) (hid : id ∈ validIds s)
    (hsend : s.checklist.isSome = true → ∀ cp ∈ s.validl, cp.id = id → CanSend env s cp) :
    Work (fun _ => False) (fun _ => False) s (conncheckSend env s id useCand).1 := by
  unfold conncheckSend
  cases hpair : s.pair id with
  | none => exact .refl
  | some cp =>
    have hcp := pair_mem_validl hs hid hpair
    obtain rfl := pair_id hpair
    have hrole := hs.role_known (mem_append_right _ hcp)
    simp only []
    split
    · exact .refl
    rename_i hlist
    have hlist : s.checklist.isSome = true := by simpa [Option.isSome_iff_ne_none] using hlist
    have hcan := hsend hlist cp hcp rfl
    rw [conncheckStart_succeeded (h cp hcp)]
    unfold CanSend at hcan
    split
    · rename_i hproto
      rw [hproto] at hcan
      exact request_sent cp.id cp useCand hcan hlist hrole
    · rename_i hproto
      rw [hproto] at hcan
      cases hfind : env.connFind cp.id with
      | some tc =>
        rw [hfind] at hcan
        exact request_sent cp.id cp useCand hcan hlist hrole
      | none =>
        rw [hfind] at hcan
        obtain ⟨htcptype, halloc⟩ := hcan
        simp only [halloc]
        split
        · exact (next_sent s).quiet (quiet_of_eq _ _ _ _ (le_refl _))
        · exact (next_sent s).quiet (quiet_of_eq _ _ _ _ (le_refl _))
        · simp_all
    · simp_all

/-- A triggered check of a valid pair that goes out. -/
theorem triggerCheck_sent (h : ∀ cp ∈ s.validl, cp.state = .succeeded) (hs : Sound s)
    (hcp : cp ∈ s.validl)
    {useCand : Bool} (hsend : useCand = true → s.checklist.isSome = true → cp.trigged = false →
      CanRequest env s s.nextId sock) :
    Work (fun _ => False) (fun _ => False) s (triggerCheck env s cp sock useCand) := by
  unfold triggerCheck
  split
  · rename_i htrigger
    simp only [Bool.and_eq_true, Bool.not_eq_true'] at htrigger
    obtain ⟨⟨huse, hlist⟩, htrigged⟩ := htrigger
    refine Work.mark cp.id ?_ setTrigged_mark
    unfold conncheckTrigged
    cases hpair : s.pair cp.id with
    | none => exact .refl
    | some cp' =>
      have hcp' := pair_mem_validl hs (mem_map_of_mem hcp) hpair
      have hlist' : s.checklist.isNone = false := by simpa using hlist
      simp only [hlist', Bool.false_eq_true, if_false]
      rw [conncheckStart_succeeded (h cp' hcp')]
      exact request_sent cp.id cp' useCand (hsend huse hlist htrigged) hlist
        (hs.role_known (mem_append_right _ hcp))
  · exact .refl

/-! ## Runs -/

/-- No check of a pair on the valid list fails: further checks of it can be sent, and
a response for it is a success with the address of a local candidate or a role
conflict after which the check can be sent again. -/
def RechecksPass (s : Trice) : Event → Prop
  | .conncheckSend id _ env =>
    s.checklist.isSome = true → ∀ cp ∈ s.validl, cp.id = id → CanSend env s cp
  | .request lcand sock src req env =>
    ∀ c, s.lcandl.find? (·.id == lcand) = some c → stundCheck s req = some 0 → req.useCand = true →
      s.checklist.isSome = true → ∀ cp ∈ s.validl, cp.lcand.id = c.id →
        rcandFind s c.attr.compid c.attr.proto src = some cp.rcand → cp.trigged = false →
          CanRequest env s s.nextId sock
  | .response id resp env =>
    ∀ cc, (s.checklist.getD []).find? (·.id == id) = some cc → ∀ cp ∈ s.validl, cp.id = cc.pair →
      resp.err = none ∧
        ((resp.scode = 0 ∧ ∃ mapped c, resp.mapped = some mapped ∧
            lcandFind s none cp.lcand.attr.compid cp.lcand.attr.proto mapped = some c) ∨
          (resp.scode = 487 ∧ CanSend env s cp))
  | _ => True

theorem rechecksPass_nil (h : s.validl = []) (ev : Event) : RechecksPass s ev := by
  have hnone : ∀ cp, cp ∉ s.validl := by simp [h]
  cases ev with
  | conncheckSend => exact fun _ cp hcp => absurd hcp (hnone cp)
  | request => exact fun _ _ _ _ _ cp hcp => absurd hcp (hnone cp)
  | response => exact fun _ _ cp hcp => absurd hcp (hnone cp)
  | _ => exact trivial

theorem canSend_switchLocalRole : CanSend env (switchLocalRole s) cp = CanSend env s cp := by
  unfold switchLocalRole
  split <;> rfl

theorem Placed.permitsResponse (h : Placed s) (hs : Sound s) {resp : Response} {cc : Conncheck}
    (hev : ∀ cp ∈ s.validl, cp.id = cc.pair → resp.err = none ∧
      ((resp.scode = 0 ∧ ∃ mapped c, resp.mapped = some mapped ∧
          lcandFind s none cp.lcand.attr.compid cp.lcand.attr.proto mapped = some c) ∨
        (resp.scode = 487 ∧ CanSend env s cp))) : PermitsResponse placeGuards env s resp cc := by
  -- a response that fails the pair is not for one on the valid list
  have hmem : cc.pair ∈ validIds s → ∃ cp ∈ s.validl, cp.id = cc.pair := mem_map.mp
  unfold PermitsResponse
  split
  · rename_i herr
    intro hid
    obtain ⟨cp, hcp, hpair⟩ := hmem hid
    exact absurd (hev cp hcp hpair).1 herr
  split
  · split
    · rename_i hnone
      intro hid
      obtain ⟨cp, hcp, hpair⟩ := hmem hid
      rcases (hev cp hcp hpair).2 with ⟨-, mapped, c, hmapped, -⟩ | ⟨hconflict, -⟩
      · rw [hnone] at hmapped
        exact nomatch hmapped
      · simp_all
    · rename_i mapped hsome
      refine ⟨trivial, fun cp hpair hnone => ⟨fun hid => ?_, trivial⟩⟩
      rcases (hev cp (pair_mem_validl hs hid hpair) (pair_id hpair)).2 with ⟨-, mapped', c, hmapped,
        hfound⟩ | ⟨hconflict, -⟩
      · rw [hsome] at hmapped
        cases hmapped
        rw [hnone] at hfound
        exact nomatch hfound
      · simp_all
  split
  · rename_i hscode hconflict
    have hswitch : Changes placeGuards s (switchLocalRole s) :=
      switchLocalRole_changes fun _ => trivial
    refine ⟨fun _ => trivial, fun hid => ?_⟩
    have hvalidl := (kept_switchLocalRole s).validl
    refine (conncheckSend_sent (hvalidl ▸ fun cp hcp => (h.validl cp hcp).2)
      (hswitch.sound hs) cc.useCand hid
      fun _ cp hcp hpair => ?_).changes'
    rw [hvalidl] at hcp
    rw [canSend_switchLocalRole]
    rcases (hev cp hcp hpair).2 with ⟨hok, -⟩ | ⟨-, hcan⟩
    · exact absurd hok hscode
    · exact hcan
  · rename_i hscode hconflict
    intro hid
    obtain ⟨cp, hcp, hpair⟩ := hmem hid
    rcases (hev cp hcp hpair).2 with ⟨hok, -⟩ | ⟨h487, -⟩
    · exact absurd hok hscode
    · exact absurd h487 hconflict

theorem Placed.permits (h : Placed s) (hs : Sound s) (hev : RechecksPass s ev) :
    Permits placeGuards s ev := by
  cases ev with
  | lcandAdd | setRole => exact fun _ _ _ => trivial
  | rcandAdd => exact fun _ _ => trivial
  | conncheckSend id useCand env =>
    exact fun hid => (conncheckSend_sent (fun cp hcp => (h.validl cp hcp).2) hs useCand hid
      hev).changes'
  | request lcand sock src req env =>
    refine fun c hc hauth => ⟨fun _ => trivial, fun rcand cp hrcand hpair t ht hkept => ?_⟩
    have hcp : cp ∈ s.validl := mem_of_find?_eq_some hpair
    have hkey := find?_some hpair
    simp only [Bool.and_eq_true, beq_iff_eq] at hkey
    have hsucceeded : ∀ cp ∈ t.validl, cp.state = .succeeded := by
      rw [hkept.validl]
      exact fun cp hcp => (h.validl cp hcp).2
    refine (triggerCheck_sent hsucceeded ht (hkept.validl ▸ hcp) fun huse hlist htrigged =>
      ?_).changes'
    rw [hkept.checklist] at hlist
    rw [CanRequest, usernameFits, hkept.rpwd, hkept.rufrag, hkept.lufrag, hkept.nextId]
    exact hev c hc hauth huse hlist cp hcp hkey.1 (hkey.2 ▸ hrcand) htrigged
  | response id resp env => exact fun cc hfind => h.permitsResponse hs (hev cc hfind)
  | tcpEstab compid laddr paddr tc env =>
    intro t ht cp hcp hstate
    have hplaced : Placed t := ht.deeds.keeps h fun h deed => deed.placed h
    rcases mem_append.mp hcp with hcp | hcp
    · exact (ht.sound hs).off hcp
    · rw [(hplaced.validl cp hcp).2] at hstate
      exact nomatch hstate
  | _ => exact trivial

theorem step_placed (hc : Coherent s) (h : Placed s) (hev : RechecksPass s ev) :
    Placed (step s ev) :=
  (step_deeds hc.toSound hc.empty (h.permits hc.toSound hev)).keeps h fun h deed => deed.placed h

/-- The lists and the pairs agree along every run in which no check of a valid pair
fails. -/
theorem lists_agree_along {o : Bool} {role : Role} {tiebrk : UInt64} {lufrag lpwd : Bytes}
    (halloc : triceAlloc o role tiebrk lufrag lpwd = .ok s) {events : List Event}
    (halong : Each step RechecksPass s events) : ListsAgree (run s events) := by
  have hplaced : Placed s := by
    unfold triceAlloc at halloc
    split at halloc
    · exact nomatch halloc
    · obtain rfl := Except.ok.inj halloc
      exact ⟨(fun _ hcp => nomatch hcp), (fun _ hcp => nomatch hcp)⟩
  have hrun : Always step (fun s => Coherent s ∧ Placed s) s events :=
    halong.always (fun _ ev h hev => ⟨step_coherent h.1 ev, step_placed h.1 h.2 hev⟩)
      ⟨alloc_coherent halloc, hplaced⟩
  exact hrun.last.2.listsAgree hrun.last.1.toSound

/-- A pair succeeds and is checked once more by a request for its nomination. -/
theorem lists_agree_rechecked :
    ((run (sampleAgent .controlled) (pairSucceeds false ++ [sampleRequest true])).validl.map
      (·.trigged)) = [true] ∧
      ListsAgree (run (sampleAgent .controlled) (pairSucceeds false ++ [sampleRequest true])) := by
  refine ⟨by decide +kernel, lists_agree_along (sampleAgent_alloc .controlled) ?_⟩
  -- no pair is valid before the response
  refine ⟨rechecksPass_nil rfl _, ⟨rechecksPass_nil rfl _,
    ⟨rechecksPass_nil rfl _, ⟨rechecksPass_nil rfl _,
    ⟨rechecksPass_nil rfl _, ⟨rechecksPass_nil rfl _, ⟨?_, trivial⟩⟩⟩⟩⟩⟩⟩
  exact fun _ _ _ _ _ _ _ _ _ _ => ⟨rfl, by decide, by decide, rfl⟩

/-- A pair on the valid list is checked once more, and the check times out. -/
theorem failed_pair_stays_valid :
    ¬ ∀ (o : Bool) (role : Role) (tiebrk : UInt64) (lufrag lpwd : Bytes) (s : Trice)
      (events : List Event),
      triceAlloc o role tiebrk lufrag lpwd = .ok s → ListsAgree (run s events) := by
  intro hall
  have hagree := hall _ _ _ _ _ _
    (pairSucceeds false ++ [.conncheckSend 1 false plainEnv, .response 3
      { err := some .ETIMEDOUT, scode := 0, mapped := none } plainEnv])
    (sampleAgent_alloc .controlling)
  have hstate : ((run (sampleAgent .controlling) (pairSucceeds false ++
      [.conncheckSend 1 false plainEnv, .response 3
        { err := some .ETIMEDOUT, scode := 0, mapped := none } plainEnv])).validl.all
        fun cp => cp.valid) = false := by
    decide +kernel
  refine Bool.false_ne_true (hstate.symm.trans (all_eq_true.mpr fun cp hcp => ?_))
  exact ((hagree.1 cp (mem_append_right _ hcp)).mp hcp).1

end LibRe.Trice
