/-
LibRe.Trice.Nomination — which pairs are nominated.

A controlled agent nominates the pair of a request with USE-CANDIDATE, a controlling
agent the pair of its own check with USE-CANDIDATE. Both have a way out that does not
nominate: a pair that is valid already, and a new peer-reflexive pair. What is
nominated stays nominated.
-/
import LibRe.Trice.Requests

namespace LibRe.Trice

open Relation List Option

variable {cp : CandPair} {f : CandPair → CandPair} {lcand : Lcand} {sock : Option Nat} {src : Sa}

/-- The pair with an identity is nominated. -/
def Nominated (s : Trice) (id : Nat) : Prop :=
  ∃ cp ∈ s.checkl ++ s.validl, cp.id = id ∧ cp.nominated = true

/-- The pair of a local candidate and the source of a request, on either list. -/
def matchingPair (s : Trice) (lcand : Lcand) (src : Sa) : Option CandPair :=
  (rcandFind s lcand.attr.compid lcand.attr.proto src).bind fun rcand =>
    (candpairFind s.validl lcand.id rcand).or (candpairFind s.checkl lcand.id rcand)

/-- The pair that a successful check makes valid: its own, or the one of the
peer-reflexive candidate that is added. -/
def producedPair (s : Trice) (cp : CandPair) (mapped : Sa) : Nat :=
  if (lcandFind s none cp.lcand.attr.compid cp.lcand.attr.proto mapped).isSome then cp.id
    else s.nextId + 1

variable {G : Guards} {A : Nat → Prop} {s t : Trice} {env : Env} {id : Nat}

theorem Sound.eq_of_id (h : Sound s) {cp' : CandPair} (hcp : cp ∈ s.checkl ++ s.validl)
    (hcp' : cp' ∈ s.checkl ++ s.validl) (hid : cp.id = cp'.id) : cp = cp' :=
  inj_on_of_nodup_map h.distinct hcp hcp' hid

theorem Sound.nominated_iff (h : Sound s) (hcp : cp ∈ s.checkl ++ s.validl) :
    Nominated s cp.id ↔ cp.nominated = true := by
  constructor
  · rintro ⟨cp', hcp', hid, hnominated⟩
    rwa [← h.eq_of_id hcp' hcp hid]
  · exact fun hnominated => ⟨cp, hcp, rfl, hnominated⟩

/-! ## A nomination stays -/

theorem Nominated.of_pairs (h : Nominated s id) (hpairs : ∀ cp ∈ s.checkl ++ s.validl,
    cp.nominated = true →
    ∃ cp' ∈ t.checkl ++ t.validl, cp'.id = cp.id ∧ cp'.nominated = true) : Nominated t id := by
  obtain ⟨cp, hcp, rfl, hnominated⟩ := h
  exact hpairs cp hcp hnominated

theorem Nominated.setPair (h : Nominated s id) (at_ : Nat) (hkey : KeepsKey f)
    (hf : ∀ cp, cp.nominated = true → (f cp).nominated = true) :
    Nominated (s.setPair at_ f) id := by
  refine h.of_pairs fun cp hcp hnominated => ⟨assignAt at_ f cp, ?_, (hkey.assignAt at_).id cp, ?_⟩
  · grind [pairs_setPair]
  · grind [assignAt]

theorem Nominated.makeValid (h : Nominated s id) (hs : Sound s) {moved : Nat}
    (hpair : s.pair moved = some cp) : Nominated (candpairMakeValid s moved) id := by
  refine h.of_pairs fun x hx hnominated => ?_
  by_cases hid : x.id = moved
  · obtain rfl := hs.eq_of_id hx (mem_of_pair hpair) (hid.trans (pair_id hpair).symm)
    exact ⟨validPair x, mem_append_right _ ((mem_makeValid hpair).2.mpr (.inl rfl)),
      rfl, hnominated⟩
  · refine ⟨x, ?_, rfl, hnominated⟩
    rcases mem_append.mp hx with hx | hx
    · exact mem_append_left _ ((mem_makeValid hpair).1.mpr ⟨hx, hid⟩)
    · exact mem_append_right _ ((mem_makeValid hpair).2.mpr (.inr ⟨hx, hid⟩))

theorem Nominated.calm (h : Nominated s id) (hq : Calm s t) : Nominated t id := by
  rw [Nominated, hq.checkl, hq.validl]
  exact h

theorem Deed.nominated (deed : Deed G s t) (hs : Sound s) (h : Nominated s id) :
    Nominated t id := by
  cases deed with
  | change change =>
    cases change with
    | quiet change => exact h.calm change.toCalm
    | check at_ _ change
    | mark at_ change =>
      exact h.setPair at_ change.toKeepsKey fun cp hcp => (change.nominated cp).trans hcp
    | nominate at_ => exact h.setPair at_ setNominated_keeps fun _ _ => rfl
    | makeValid of found => exact h.makeValid hs found
    | lcand _ _ | rcand _ | upgrade _ _ _ _ => exact h
    | alloc paired known change =>
      obtain ⟨-, -, rfl⟩ := candpairAlloc_ok change
      refine h.of_pairs fun cp hcp hnominated => ⟨cp, ?_, rfl, hnominated⟩
      rcases mem_append.mp hcp with hcp | hcp
      · exact mem_append_left _ (mem_listAddSorted.mpr (.inr hcp))
      · exact mem_append_right _ hcp
    | role of before after =>
      refine h.of_pairs fun cp hcp hnominated => ?_
      rcases mem_append.mp hcp with hcp | hcp
      · exact ⟨_, mem_append_left _ ((candpairPrioOrder_spec ..).1.mem_iff.mpr
          (mem_map_of_mem hcp)), rfl, hnominated⟩
      · exact ⟨cp, mem_append_right _ hcp, rfl, hnominated⟩
  | calm calm => exact h.calm calm
  | firstRole before after => exact h

theorem Deeds.nominated (deeds : Deeds G s t) (hs : Sound s) (h : Nominated s id) :
    Nominated t id :=
  (deeds.keeps (P := fun t => Sound t ∧ Nominated t id) ⟨hs, h⟩
    fun h deed => ⟨deed.sound h.1, deed.nominated h.1 h.2⟩).2

theorem run_nominated (events : List Event) (hc : Coherent s) (h : Nominated s id) :
    Nominated (run s events) id := by
  refine (foldlRecOn (motive := fun t => Coherent t ∧ Nominated t id) events step ⟨hc, h⟩
    fun t ht ev _ => ?_).2
  have hdeeds := step_deeds ht.1.toSound ht.1.empty (permits_lenient ev)
  exact ⟨step_coherent ht.1 ev, hdeeds.nominated ht.1.toSound ht.2⟩

/-! ## Checks nominate nothing -/

/-- The pairs are changed one by one, with their keys and nominations kept. -/
structure Edited (f : CandPair → CandPair) (s t : Trice) : Prop extends KeepsKey f where
  nominated : ∀ cp, (f cp).nominated = cp.nominated
  checkl : t.checkl = s.checkl.map f
  validl : t.validl = s.validl.map f
  rcandl : t.rcandl = s.rcandl
  lrole : t.lrole = s.lrole

theorem Edited.setPair {g : CandPair → CandPair} (h : Edited f s t) (hkey : KeepsKey g)
    (hg : ∀ cp, (g cp).nominated = cp.nominated) (at_ : Nat) :
    Edited (assignAt at_ g ∘ f) s (t.setPair at_ g) := by
  have hkey' := hkey.assignAt at_
  have hg' : ∀ cp, (assignAt at_ g cp).nominated = cp.nominated := by
    intro cp
    unfold assignAt
    split
    · exact hg cp
    · rfl
  refine ⟨⟨fun cp => ?_, fun cp => ?_, fun cp => ?_, fun cp => ?_⟩, fun cp => ?_, ?_, ?_,
    h.rcandl, h.lrole⟩
  · exact (hkey'.id _).trans (h.id cp)
  · exact (hkey'.lcand _).trans (h.lcand cp)
  · exact (hkey'.rcand _).trans (h.rcand cp)
  · exact (hkey'.pprio _).trans (h.pprio cp)
  · exact (hg' _).trans (h.nominated cp)
  · rw [← List.map_map, ← h.checkl]
    rfl
  · rw [← List.map_map, ← h.validl]
    rfl

/-- What checks do to the lists. -/
theorem Checking.edited (h : Checking A s t) : ∃ f, Edited f s t := by
  induction h with
  | refl =>
    exact ⟨fun cp => cp, ⟨fun _ => rfl, fun _ => rfl, fun _ => rfl, fun _ => rfl⟩, fun _ => rfl,
      (map_id' _).symm, (map_id' _).symm, rfl, rfl⟩
  | quiet _ change ih =>
    obtain ⟨f, hf⟩ := ih
    exact ⟨f, hf.toKeepsKey, hf.nominated, change.checkl.trans hf.checkl,
      change.validl.trans hf.validl,
      change.rcandl.trans hf.rcandl, change.lrole.trans hf.lrole⟩
  | check at_ _ _ change ih | mark at_ _ change ih =>
    obtain ⟨f, hf⟩ := ih
    exact ⟨_, hf.setPair change.toKeepsKey change.nominated at_⟩

theorem Edited.nominated_iff (h : Edited f s t) : Nominated t id ↔ Nominated s id := by
  have hpairs : t.checkl ++ t.validl = (s.checkl ++ s.validl).map f := by
    rw [h.checkl, h.validl, map_append]
  constructor
  · rintro ⟨cp', hcp', rfl, hnominated⟩
    rw [hpairs] at hcp'
    obtain ⟨cp, hcp, rfl⟩ := mem_map.mp hcp'
    exact ⟨cp, hcp, (h.id cp).symm, (h.nominated cp).symm.trans hnominated⟩
  · rintro ⟨cp, hcp, rfl, hnominated⟩
    refine ⟨f cp, ?_, h.id cp, (h.nominated cp).trans hnominated⟩
    rw [hpairs]
    exact mem_map_of_mem hcp

theorem candpairFind_map (h : KeepsKey f) (l : List CandPair) (lcand rcand : Nat) :
    candpairFind (l.map f) lcand rcand = (candpairFind l lcand rcand).map f := by
  rw [candpairFind, candpairFind, find?_map]
  simp only [Function.comp, h.lcand, h.rcand]

/-! ## Requests -/

theorem triggerCheck_edited (env : Env) (s : Trice) (cp : CandPair) (sock : Option Nat)
    (useCand : Bool) :
    ∃ f, Edited f s (triggerCheck env s cp sock useCand) :=
  (triggerCheck_checking cp sock useCand).edited

theorem handlePair_rcandl (env : Env) (s : Trice) (lcand : Lcand) (rcand : Nat) (sock : Option Nat)
    (useCand : Bool) : (handlePair env s lcand rcand sock useCand).rcandl = s.rcandl := by
  unfold handlePair
  split
  · obtain ⟨f, hf⟩ := triggerCheck_edited env s _ sock useCand
    exact hf.rcandl
  split
  · rfl
  rename_i cp _
  obtain ⟨f, hf⟩ := triggerCheck_edited env
    (if useCand && s.lrole = .controlled then s.setPair cp.id setNominated else s) cp sock useCand
  refine hf.rcandl.trans ?_
  split <;> rfl

variable {rcand number : Nat} {prio : UInt32} {req : Request} {ev : Event} {w : Trice} {e : Reqbuf}

/-- The pair that a request with USE-CANDIDATE matches is nominated, unless it is on
the valid list. -/
theorem handlePair_nominates (h : Sound s) (ht : handlePair env s lcand rcand sock true = t)
    (hrole : t.lrole = .controlled)
    (hcp : (candpairFind t.validl lcand.id rcand).or (candpairFind t.checkl lcand.id rcand) =
      some cp) :
    cp.nominated = true ↔ ∀ cp' ∈ s.validl, cp'.id = cp.id → cp'.nominated = true := by
  subst ht
  unfold handlePair at hrole hcp
  cases hvalid : candpairFind s.validl lcand.id rcand with
  | some cpv =>
    have hmem : cpv ∈ s.validl := mem_of_find?_eq_some hvalid
    simp only [hvalid] at hcp
    obtain ⟨f, hf⟩ := triggerCheck_edited env s cpv sock true
    rw [hf.validl, candpairFind_map hf.toKeepsKey, hvalid] at hcp
    obtain rfl := some.inj hcp
    rw [hf.nominated, hf.id]
    constructor
    · intro hnominated cp' hcp' hid
      rwa [h.eq_of_id (mem_append_right _ hcp') (mem_append_right _ hmem) hid]
    · exact fun hall => hall cpv hmem rfl
  | none =>
    simp only [hvalid] at hrole hcp
    cases hcheck : candpairFind s.checkl lcand.id rcand with
    | none =>
      simp only [hcheck, hvalid, or_none] at hcp
      exact nomatch hcp
    | some cpc =>
      have hmem : cpc ∈ s.checkl := mem_of_find?_eq_some hcheck
      simp only [hcheck, Bool.true_and, decide_eq_true_eq] at hrole hcp
      by_cases hcontrolled : s.lrole = .controlled
      · rw [if_pos hcontrolled] at hcp
        obtain ⟨f, hf⟩ := triggerCheck_edited env (s.setPair cpc.id setNominated) cpc sock true
        have hkey := setNominated_keeps.assignAt cpc.id
        rw [hf.validl, hf.checkl, candpairFind_map hf.toKeepsKey, candpairFind_map hf.toKeepsKey,
          setPair, candpairFind_map hkey, candpairFind_map hkey, hvalid, hcheck] at hcp
        have hassign : assignAt cpc.id setNominated cpc = setNominated cpc := if_pos rfl
        simp only [map_none, map_some, none_or, hassign] at hcp
        obtain rfl := some.inj hcp
        refine iff_of_true (hf.nominated _) fun cp' hcp' hid => ?_
        have hid' : cp'.id = cpc.id := hid.trans (hf.id _)
        exact absurd (mem_map.mpr ⟨cp', hcp', hid'⟩) (h.off hmem)
      · rw [if_neg hcontrolled] at hrole
        obtain ⟨f, hf⟩ := triggerCheck_edited env s cpc sock true
        exact absurd (hf.lrole.symm.trans hrole) hcontrolled

/-- The remote candidate of a request is the one at its source. -/
theorem requestRcand_find (h : requestRcand s lcand src prio = (t, .ok rcand)) :
    rcandFind t lcand.attr.compid lcand.attr.proto src = some rcand ∧ t.validl = s.validl := by
  unfold requestRcand at h
  split at h
  · rename_i i hfind
    cases h
    exact ⟨hfind, rfl⟩
  rename_i hnone
  obtain ⟨hset, rfl, hvalidl, hrcandl⟩ := rcandAdd_new hnone h
  refine ⟨?_, hvalidl⟩
  have hself : saCmp src src saAll = true := by
    cases src with
    | unspec => exact absurd rfl hset
    | inet _ _ | inet6 _ _ => simp [saCmp]
  rw [rcandFind] at hnone
  rw [rcandFind, hrcandl, findIdx?_append, hnone]
  simp [newRcand, hself]

/-- A request that is answered with success has reached its pair. -/
theorem stundServe_nominates (h : Sound s) (huse : req.useCand = true)
    (ht : stundServe env s number lcand sock src req = t)
    (hreply : t.log.getLast? = some (.reply number 0))
    (hrole : t.lrole = .controlled) (hcp : matchingPair t lcand src = some cp) :
    cp.nominated = true ↔ ∀ cp' ∈ s.validl, cp'.id = cp.id → cp'.nominated = true := by
  subst ht
  unfold stundServe at hreply hrole hcp
  cases hprio : req.priority with
  | none =>
    simp_all [emit]
  | some prio =>
    rw [hprio] at hreply hrole hcp
    simp only [huse, handleStunFull] at hreply hrole hcp
    cases hr : requestRcand s lcand src prio with
    | mk u res =>
      rw [hr] at hreply hrole hcp
      cases res with
      | error err => simp [emit] at hreply
      | ok rcand =>
        have hchanges : Changes (lenient False) s (requestRcand s lcand src prio).1 :=
          (requestRcand_work lcand src prio).changes'
        rw [hr] at hchanges
        obtain ⟨hfind, hvalidl⟩ := requestRcand_find hr
        -- the candidate is still found at its place
        have hpair : matchingPair (handlePair env u lcand rcand sock true) lcand src = some cp :=
          hcp
        rw [matchingPair, rcandFind, handlePair_rcandl, ← rcandFind, hfind] at hpair
        rw [← hvalidl]
        exact handlePair_nominates (hchanges.sound h) rfl hrole hpair

/-- The role logic before that changes no list but the check list's order. -/
theorem stundRecvRoleSet_nominates (h : Sound s) (huse : req.useCand = true)
    (ht : stundRecvRoleSet env s number lcand sock src req = t)
    (hreply : t.log.getLast? = some (.reply number 0))
    (hrole : t.lrole = .controlled) (hcp : matchingPair t lcand src = some cp) :
    cp.nominated = true ↔ ∀ cp' ∈ s.validl, cp'.id = cp.id → cp'.nominated = true := by
  rcases stundRecvRoleSet_cases (G := lenient False) (fun _ => trivial) ht with
    ⟨scode, hne, rfl⟩ | ⟨u, hu, hkept, ht⟩
  · simp [emit, hne] at hreply
  · have hnominates := stundServe_nominates (hu.sound (h.calm (calm_emit s _))) huse ht.symm
      hreply hrole hcp
    rwa [hkept.validl] at hnominates

/-- `trice_stund_recv_role_set` runs in a state for a request while an event is
handled: as the request arrives, or from the buffer when the role is set. -/
inductive Serves (s : Trice) : Event → Env → Trice → Reqbuf → Prop where
  | arrival {lcand : Nat} {c : Lcand} {sock : Option Nat} {src : Sa} {req : Request} {env : Env}
      (hc : s.lcandl.find? (·.id == lcand) = some c) (hauth : stundCheck s req = some 0) :
      Serves s (.request lcand sock src req env) env
        (if s.lrole = .unknown then
          reqbufAppend { s with received := s.received + 1 } s.received c sock src req
        else { s with received := s.received + 1 })
        { number := s.received, lcand := c, sock, src, req }
  | buffer {role : Role} {env : Env} {i : Nat} {e : Reqbuf} (before : s.lrole = .unknown)
      (after : role ≠ .unknown) (he : s.reqbufl[i]? = some e) :
      Serves s (.setRole role env) env
        ((s.reqbufl.take i).foldl (reqbufServe env) (createCandpairs { s with lrole := role })) e

theorem foldl_split {α β : Type} (g : β → α → β) {l : List α} {i : Nat} {e : α}
    (h : l[i]? = some e) (x : β) :
    l.foldl g x = (l.drop (i + 1)).foldl g (g ((l.take i).foldl g x) e) := by
  obtain ⟨hi, rfl⟩ := List.getElem?_eq_some_iff.mp h
  conv_lhs => rw [← take_append_drop i l, drop_eq_getElem_cons hi]
  rw [foldl_append, foldl_cons]

theorem reqbufFold_deeds (env : Env) (es : List Reqbuf) (h : Sound s) :
    Deeds (lenient False) s (es.foldl (reqbufServe env) s) :=
  foldlRecOn es _ .refl fun _ ht e _ => ht.trans (reqbufServe_deeds False env (ht.sound h) e).2

/-- From a request's service to the end of the event. -/
theorem Serves.deeds (serves : Serves s ev env w e) (h : Coherent s) :
    Sound w ∧ Deeds (lenient False) (stundRecvRoleSet env w e.number e.lcand e.sock e.src e.req)
    (step s ev) := by
  cases serves with
  | arrival hc hauth =>
    refine ⟨?_, ?_⟩
    · split <;> exact ⟨h.distinct, h.fresh, h.known, h.unknown⟩
    · simp_all [refl, stundCheck, step, stundRecv]
  | buffer before after he =>
    rename_i role i
    have hfirst : Sound { s with lrole := role } :=
      Deed.sound (G := lenient False) (.firstRole before after) h.toSound
    have hpairs : Changes (lenient False) { s with lrole := role }
        (createCandpairs { s with lrole := role }) :=
      createCandpairs_work.changes'
    have hw := (reqbufFold_deeds env (s.reqbufl.take i) (hpairs.sound hfirst)).sound
      (hpairs.sound hfirst)
    refine ⟨hw, ?_⟩
    have hset : step s (.setRole role env) = reqbufProcess env (createCandpairs
        { s with lrole := role }) := by
      have hne : s.lrole ≠ role := before ▸ after.symm
      simp only [step, setRole, if_neg after, if_neg hne, if_pos before]
    have hreqbufl : (createCandpairs { s with lrole := role }).reqbufl = s.reqbufl :=
      hpairs.answered.reqbufl
    rw [hset, reqbufProcess, hreqbufl, foldl_split _ he]
    obtain ⟨hrest, hserve⟩ := reqbufServe_deeds False env hw e
    exact hrest.trans (reqbufFold_deeds env _ (hserve.sound hw))

/-! ## Responses -/

theorem nominated_makeValid (hpair : s.pair id = some cp) :
    Nominated (candpairMakeValid s id) id ↔ cp.nominated = true := by
  constructor
  · rintro ⟨x, hx, hid, hnominated⟩
    rcases mem_append.mp hx with hx | hx
    · exact absurd hid ((mem_makeValid hpair).1.mp hx).2
    · rcases (mem_makeValid hpair).2.mp hx with rfl | hx
      · exact hnominated
      · exact absurd hid hx.2
  · intro hnominated
    have hid : cp.id = id := pair_id hpair
    exact ⟨validPair cp, mem_append_right _ ((mem_makeValid hpair).2.mpr (.inl rfl)),
      hid, hnominated⟩

theorem validIds_makeValid (hpair : s.pair id = some cp) :
    id ∈ validIds (candpairMakeValid s id) := by
  have hid : cp.id = id := pair_id hpair
  exact mem_map.mpr ⟨validPair cp, (mem_makeValid hpair).2.mpr (.inl rfl), hid⟩

theorem Edited.validIds (h : Edited f s t) : validIds t = validIds s := by
  rw [LibRe.Trice.validIds, h.validl, List.map_map]
  exact map_congr_left fun cp _ => h.id cp

/-- A check that succeeds with the address of a local candidate. -/
theorem handleMapped_nominates (hpair : s.pair id = some cp) (useCand : Bool) :
    id ∈ validIds (handleMapped s id useCand) ∧
      (Nominated (handleMapped s id useCand) id ↔
        s.lrole = .controlling ∧ useCand = true ∨ cp.nominated = true) := by
  have hmade := nominated_makeValid hpair
  have hvalid := validIds_makeValid hpair
  have hrole : (candpairMakeValid s id).lrole = s.lrole := by rw [candpairMakeValid_of_pair hpair]
  unfold handleMapped
  simp only [makeValid_setFrozen hpair, hrole]
  split
  · rename_i hnominate
    simp only [Bool.and_eq_true, decide_eq_true_eq] at hnominate
    obtain ⟨f, hf⟩ := (pairEstablished_checking (A := fun _ => False)
      (s := (candpairMakeValid s id).setPair id setNominated) id).edited
    rw [hf.validIds, validIds_setPair setNominated_keeps, hf.nominated_iff]
    refine ⟨hvalid, iff_of_true ?_ (.inl hnominate)⟩
    obtain ⟨x, hx, hid⟩ := mem_map.mp hvalid
    refine ⟨assignAt id setNominated x, ?_, ((setNominated_keeps.assignAt id).id x).trans hid, ?_⟩
    · simp [pairs_setPair, List.mem_map_of_mem, hx]
    · rw [assignAt, if_pos hid]
      rfl
  · rename_i hnominate
    simp only [Bool.and_eq_true, decide_eq_true_eq] at hnominate
    obtain ⟨f, hf⟩ := (pairEstablished_checking (A := fun _ => False)
      (s := candpairMakeValid s id) id).edited
    rw [hf.validIds, hf.nominated_iff, hmade, or_iff_right hnominate]
    exact ⟨hvalid, Iff.rfl⟩

/-- A check that succeeds with an unknown address: the new pair is valid and not
nominated. -/
theorem handlePrflx_nominates (h : Sound s) (hcp : cp ∈ s.checkl ++ s.validl) (mapped : Sa) :
    s.nextId + 1 ∈ validIds (handlePrflx s cp mapped) ∧ ¬ Nominated (handlePrflx s cp mapped)
    (s.nextId + 1) := by
  have hrole : (s.addLcand (prflxLcand s cp mapped)).lrole ≠ .unknown := h.role_known hcp
  unfold handlePrflx
  simp only [candpairAlloc, if_neg hrole]
  generalize hnew : newPair (s.addLcand (prflxLcand s cp mapped))
    (prflxLcand s cp mapped) cp.rcand = new
  have hid : new.id = s.nextId + 1 := by
    rw [← hnew]
    rfl
  have hnot : new.nominated = false := by
    rw [← hnew]
    rfl
  -- the state between the new pair and its move to the valid list
  generalize hv : setPair _ cp.id (candpairFailed none 0) = v
  have hpairs : v.checkl ++ v.validl =
      (listAddSorted s.checkl new ++ s.validl).map (assignAt cp.id (candpairFailed none 0)) := by
    rw [← hv, pairs_setPair]
    rfl
  have hkey := (candpairFailed_edit none 0).toKeepsKey.assignAt cp.id
  have hmem : assignAt cp.id (candpairFailed none 0) new ∈ v.checkl ++ v.validl := by
    simp [mem_listAddSorted, hpairs]
  obtain ⟨x, hx⟩ : ∃ x, v.pair (s.nextId + 1) = some x := by
    have hfound := exists_pair hmem
    rwa [hkey.id, hid] at hfound
  have hxnot : x.nominated = false := by
    have hxmem := mem_of_pair hx
    rw [hpairs] at hxmem
    obtain ⟨y, hy, rfl⟩ := mem_map.mp hxmem
    have hyid : y.id = s.nextId + 1 := (hkey.id y).symm.trans (pair_id hx)
    have hyold : y ∉ s.checkl ++ s.validl := by
      intro hold
      have := h.fresh y hold
      omega
    have hynew : y = new := by
      rcases mem_append.mp hy with hy | hy
      · simp_all [mem_listAddSorted]
      · exact absurd (mem_append_right _ hy) hyold
    rw [hynew, assignAt]
    split <;> exact hnot
  obtain ⟨f, hf⟩ := (pairEstablished_checking (A := fun _ => False)
    (s := candpairMakeValid v (s.nextId + 1))
    (s.nextId + 1)).edited
  rw [hid, hf.validIds, hf.nominated_iff, nominated_makeValid hx, hxnot]
  exact ⟨validIds_makeValid hx, Bool.false_ne_true⟩

/-- A check that succeeds. -/
theorem response_nominates (h : Sound s) {cc : Conncheck} (mapped : Sa)
    (hcc : (s.checklist.getD []).find? (·.id == id) = some cc) (hpair : s.pair cc.pair = some cp) :
    producedPair s cp mapped ∈
        validIds (stuncRespHandler env s id { err := none, scode := 0, mapped := some mapped }) ∧
      (Nominated (stuncRespHandler env s id { err := none, scode := 0, mapped := some mapped })
        (producedPair s cp mapped) ↔
        (lcandFind s none cp.lcand.attr.compid cp.lcand.attr.proto mapped).isSome = true ∧
          (s.lrole = .controlling ∧ cc.useCand = true ∨ cp.nominated = true)) := by
  have hstep : stuncRespHandler env s id { err := none, scode := 0, mapped := some mapped } =
      { handleSuccess s cc.pair mapped cc.useCand with
        checklist := (handleSuccess s cc.pair mapped cc.useCand).checklist.map
          (·.filter (·.id ≠ id)) } := by
    simp [stuncRespHandler, hcc]
  rw [hstep]
  simp only [handleSuccess, hpair, producedPair]
  cases hfind : lcandFind s none cp.lcand.attr.compid cp.lcand.attr.proto mapped with
  | none =>
    obtain ⟨hvalid, hnot⟩ := handlePrflx_nominates h (mem_of_pair hpair) mapped
    exact ⟨hvalid, iff_of_false hnot fun hboth => absurd hboth.1 Bool.false_ne_true⟩
  | some c =>
    obtain ⟨hvalid, hiff⟩ := handleMapped_nominates hpair cc.useCand
    have hid : cp.id = cc.pair := pair_id hpair
    simp only [isSome_some, if_true, hid, true_and]
    exact ⟨hvalid, hiff⟩

/-! ## Every run -/

theorem mem_of_matchingPair (h : matchingPair s lcand src = some cp) :
    cp ∈ s.checkl ++ s.validl := by
  obtain ⟨rcand, -, hfind⟩ := bind_eq_some_iff.mp h
  rcases or_eq_some_iff.mp hfind with hvalid | ⟨-, hcheck⟩
  · exact mem_append_right _ (mem_of_find?_eq_some hvalid)
  · exact mem_append_left _ (mem_of_find?_eq_some hcheck)

/-- No pair is valid while the buffer is served. -/
theorem reqbufFold_validl (env : Env) (h : Coherent s) {role : Role} (before : s.lrole = .unknown)
    (after : role ≠ .unknown) (es : List Reqbuf) :
    (es.foldl (reqbufServe env) (createCandpairs { s with lrole := role })).validl = [] := by
  have hpairs : Changes (lenient False) { s with lrole := role }
      (createCandpairs { s with lrole := role }) :=
    createCandpairs_work.changes'
  have hcreate : Deeds (lenient False) s (createCandpairs { s with lrole := role }) :=
    .head (.firstRole before after) hpairs.deeds
  have hdeeds : Deeds (lenient False) s (es.foldl (reqbufServe env)
      (createCandpairs { s with lrole := role })) :=
    hcreate.trans (reqbufFold_deeds env es (hcreate.sound h.toSound))
  have hids := hdeeds.keeps (P := fun t => validIds t = validIds s) rfl
    fun ht deed => (deed.validIds fun hvalid => hvalid).trans ht
  have hnil : validIds s = [] := by rw [validIds, (h.unknown before).2, map_nil]
  exact map_eq_nil_iff.mp (hids.trans hnil)

/-- The pair of an accepted request with USE-CANDIDATE is nominated from then on. -/
theorem Serves.nominates_iff (serves : Serves s ev env w e)
    (h : Coherent s) (huse : e.req.useCand = true)
    (ht : stundRecvRoleSet env w e.number e.lcand e.sock e.src e.req = t)
    (hreply : t.log.getLast? = some (.reply e.number 0)) (hrole : t.lrole = .controlled)
    (hcp : matchingPair t e.lcand e.src = some cp) :
    (∀ after, Nominated (run (step s ev) after) cp.id) ↔
      ∀ cp' ∈ w.validl, cp'.id = cp.id → cp'.nominated = true := by
  obtain ⟨hw, hrest⟩ := serves.deeds h
  rw [ht] at hrest
  have hserved : Sound t :=
    ht ▸ (stundRecvRoleSet_deeds (G := lenient False) hw e.number (fun _ => trivial)
      permitsTrigger_lenient).sound hw
  have hiff := stundRecvRoleSet_nominates hw huse ht hreply hrole hcp
  have hmem := mem_of_matchingPair hcp
  constructor
  · intro hall
    cases serves with
    | arrival hc hauth =>
      -- the event ends with the request's own service
      rw [← hiff, ← hserved.nominated_iff hmem]
      have hcheck : stundCheck { s with received := s.received + 1 } _ = some 0 := hauth
      have hnow := hall []
      simp only [run, foldl_nil, step, hc, stundRecv, hcheck] at hnow
      exact ht ▸ hnow
    | buffer before after he =>
      simp [reqbufFold_validl, h, before, after]
  · intro hcond after
    have hnow : Nominated (step s ev) cp.id :=
      hrest.nominated hserved ((hserved.nominated_iff hmem).mpr (hiff.mpr hcond))
    exact run_nominated after (step_coherent h ev) hnow

/-- A request with USE-CANDIDATE that a controlled agent accepts nominates its pair
exactly when the pair is not on the valid list or nominated already; a check with
USE-CANDIDATE that succeeds nominates the pair it makes valid exactly when that is the
checked one and the agent is controlling, or the pair is nominated already. -/
theorem nomination_iff {o : Bool} {role : Role} {tiebrk : UInt64} {lufrag lpwd : Bytes}
    (halloc : triceAlloc o role tiebrk lufrag lpwd = .ok s) (before : List Event) :
    (∀ (ev : Event) (env : Env) (w : Trice) (e : Reqbuf) (cp : CandPair),
      Serves (run s before) ev env w e →
      e.req.useCand = true →
      (stundRecvRoleSet env w e.number e.lcand e.sock e.src e.req).log.getLast? =
        some (.reply e.number 0) →
      (stundRecvRoleSet env w e.number e.lcand e.sock e.src e.req).lrole = .controlled →
      matchingPair (stundRecvRoleSet env w e.number e.lcand e.sock e.src e.req) e.lcand e.src =
        some cp →
        ((∀ after, Nominated (run s (before ++ ev :: after)) cp.id) ↔
          ∀ cp' ∈ w.validl, cp'.id = cp.id → cp'.nominated = true)) ∧
    ∀ (id : Nat) (env : Env) (mapped : Sa) (cc : Conncheck) (cp : CandPair),
      ((run s before).checklist.getD []).find? (·.id == id) = some cc → cc.useCand = true →
      (run s before).pair cc.pair = some cp →
        producedPair (run s before) cp mapped ∈ validIds (run s (before ++ [.response id
              { err := none, scode := 0, mapped := some mapped } env])) ∧
          ((∀ after, Nominated
              (run s (before ++ .response id { err := none, scode := 0, mapped := some mapped }
                env :: after))
              (producedPair (run s before) cp mapped)) ↔
            (lcandFind (run s before) none cp.lcand.attr.compid cp.lcand.attr.proto mapped).isSome =
              true ∧
              ((run s before).lrole = .controlling ∨ cp.nominated = true)) := by
  have hcoherent := run_coherent (alloc_coherent halloc) before
  have hrun : ∀ ev after, run s (before ++ ev :: after) = run (step (run s before) ev) after :=
    fun ev after => foldl_append ..
  refine ⟨fun ev env w e cp serves huse hreply hrole hcp => ?_,
    fun id env mapped cc cp hcc huse hpair => ?_⟩
  · simp only [hrun]
    exact serves.nominates_iff hcoherent huse rfl hreply hrole hcp
  obtain ⟨hvalid, hiff⟩ := response_nominates hcoherent.toSound mapped hcc hpair
  rw [huse, eq_self, and_true] at hiff
  simp only [hrun]
  refine ⟨hvalid, fun hall => hiff.mp (hall []), fun hcond after => ?_⟩
  exact run_nominated after (step_coherent hcoherent _) (hiff.mpr hcond)

theorem nomination_sample :
    Nominated (run (sampleAgent .controlled) ((pairSucceeds false).take 4 ++ [sampleRequest true]))
      1 ∧
      Nominated (run (sampleAgent .controlling) (pairSucceeds true)) 1 := by
  refine ⟨?_, ?_⟩
  · have hreq := (nomination_iff (sampleAgent_alloc .controlled) ((pairSucceeds false).take 4)).1
      (sampleRequest true)
      plainEnv _ _ _ (.arrival rfl rfl) rfl (by decide +kernel) (by decide +kernel) rfl
    exact hreq.mpr (fun _ hcp => nomatch hcp) []
  · have hcheck := (nomination_iff (sampleAgent_alloc .controlling) ((pairSucceeds true).take 5)).2
      2 plainEnv (.inet 0x0a000001 1000) _ _ rfl rfl rfl
    exact hcheck.2.mpr ⟨by decide +kernel, .inl (by decide +kernel)⟩ []

/-- A request does not nominate a pair that is valid already. -/
theorem valid_pair_not_nominated :
    ¬ ∀ (o : Bool) (role : Role) (tiebrk : UInt64) (lufrag lpwd : Bytes) (s : Trice)
      (before : List Event), triceAlloc o role tiebrk lufrag lpwd = .ok s →
      (∀ (ev : Event) (env : Env) (w : Trice) (e : Reqbuf) (cp : CandPair),
        Serves (run s before) ev env w e →
        e.req.useCand = true →
        (stundRecvRoleSet env w e.number e.lcand e.sock e.src e.req).log.getLast? =
          some (.reply e.number 0) →
        (stundRecvRoleSet env w e.number e.lcand e.sock e.src e.req).lrole = .controlled →
        matchingPair (stundRecvRoleSet env w e.number e.lcand e.sock e.src e.req) e.lcand e.src =
          some cp →
          ∀ after, Nominated (run s (before ++ ev :: after)) cp.id) ∧
      ∀ (id : Nat) (env : Env) (mapped : Sa) (cc : Conncheck) (cp : CandPair),
        ((run s before).checklist.getD []).find? (·.id == id) = some cc → cc.useCand = true →
        (run s before).pair cc.pair = some cp →
          ∀ after, Nominated
            (run s (before ++ .response id { err := none, scode := 0, mapped := some mapped }
              env :: after))
            (producedPair (run s before) cp mapped) := by
  intro hall
  obtain ⟨cp, hcp, -, hnominated⟩ :=
    (hall _ _ _ _ _ _ (pairSucceeds false) (sampleAgent_alloc .controlled)).1
    (sampleRequest true) plainEnv _ _ _ (.arrival rfl rfl) rfl (by decide +kernel)
      (by decide +kernel) rfl []
  have hnone :
      (((run (sampleAgent .controlled) (pairSucceeds false ++ [sampleRequest true])).checkl ++
      (run (sampleAgent .controlled) (pairSucceeds false ++ [sampleRequest true])).validl).any
        (·.nominated)) = false := by
    decide +kernel
  exact Bool.false_ne_true (hnone.symm.trans (any_eq_true.mpr ⟨cp, hcp, hnominated⟩))

end LibRe.Trice
