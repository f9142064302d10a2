/-
LibRe.Trice.Changes — the single changes that everything an agent does is made of.

`Change` lists all that can happen to the role, the candidates and the pairs, and
`Deed` adds the bookkeeping of requests. A change that an invariant may not survive
asks a guard. `Sound` is the invariant that needs none.
-/
import LibRe.Trice.Work

namespace LibRe.Trice

open LibRe.Lists Relation List

/-- The identities on the valid list. -/
def validIds (s : Trice) : List Nat := s.validl.map (·.id)

/-- When a check may change a pair and when the role may change (by the identities
on the valid list), which local candidates may be added, when a remote candidate
may be upgraded, and whether pairs may become valid. -/
structure Guards where
  check : List Nat → Nat → Prop
  role : List Nat → Prop
  lcand : Lcand → Prop
  upgrade : Trice → Nat → UInt32 → Prop
  valid : Prop
  check_off : ∀ {ids id}, id ∉ ids → check ids id
  role_nil : role []

/-- Guards that let everything pass, pairs that become valid apart. -/
def lenient (valid : Prop) : Guards where
  check _ _ := True
  role _ := True
  lcand _ := True
  upgrade _ _ _ := True
  valid := valid
  check_off _ := trivial
  role_nil := trivial

/-- A single change. -/
inductive Change (G : Guards) (t : Trice) : Trice → Prop where
  | quiet {u} (change : Quiet t u) : Change G t u
  | check (id : Nat) {f} (of : G.check (validIds t) id) (change : CheckEdit f) :
      Change G t (t.setPair id f)
  | mark (id : Nat) {f} (change : Mark f) : Change G t (t.setPair id f)
  | nominate (id : Nat) : Change G t (t.setPair id setNominated)
  | makeValid {id cp} (of : G.valid) (found : t.pair id = some cp) :
      Change G t (candpairMakeValid t id)
  | lcand (c : Lcand) (of : G.lcand c) : Change G t { t with lcandl := t.lcandl ++ [c] }
  | rcand (r : Rcand) : Change G t { t with rcandl := t.rcandl ++ [r] }
  | upgrade (i : Nat) (type : CandType) (prio : UInt32) (of : G.upgrade t i prio) :
      Change G t { t with rcandl := t.rcandl.modify i (upgradeRcand type prio) }
  | alloc {u l r id} (paired : l ∈ t.lcandl) (known : r < t.rcandl.length)
      (change : candpairAlloc t l r = .ok (u, id)) : Change G t u
  | role {role} (of : G.role (validIds t)) (before : t.lrole ≠ .unknown) (after : role ≠ .unknown) :
      Change G t { t with
        lrole := role, checkl := candpairPrioOrder t.rcandl (role == .controlling) t.checkl }

/-- A single change, the bookkeeping of requests or the first role. -/
inductive Deed (G : Guards) (t : Trice) : Trice → Prop where
  | change {u} (change : Change G t u) : Deed G t u
  | calm {u} (calm : Calm t u) : Deed G t u
  | firstRole {role} (before : t.lrole = .unknown) (after : role ≠ .unknown) :
      Deed G t { t with lrole := role }

abbrev Changes (G : Guards) : Trice → Trice → Prop := ReflTransGen (Change G)

abbrev Deeds (G : Guards) : Trice → Trice → Prop := ReflTransGen (Deed G)

variable {G : Guards} {A : Nat → Prop} {L : Lcand → Prop} {s t u : Trice} {env : Env}

theorem Changes.deeds (h : Changes G s t) : Deeds G s t :=
  ReflTransGen.mono (fun _ _ => Deed.change) s t h

/-- What every single deed keeps, a chain of them keeps. -/
theorem Deeds.keeps {P : Trice → Prop} (h : Deeds G s t) (hs : P s)
    (hP : ∀ {t u}, P t → Deed G t u → P u) :
    P t := by
  induction h with
  | refl => exact hs
  | tail _ deed ih => exact hP ih deed

variable {cp : CandPair} {id : Nat}

theorem Guards.check_of {ids : List Nat} (h : id ∈ ids → G.check ids id) : G.check ids id := by
  by_cases hid : id ∈ ids
  · exact h hid
  · exact G.check_off hid

variable {f : CandPair → CandPair}

theorem validIds_setPair (hf : KeepsKey f) (id : Nat) : validIds (s.setPair id f) = validIds s := by
  simp only [validIds, setPair, List.map_map]
  exact map_congr_left fun cp _ => (hf.assignAt id).id cp

/-- The work of checks is such a chain, and the valid list stays. -/
theorem Work.changes (work : Work A L s t) (hA : ∀ id, A id → G.check (validIds s) id)
    (hL : ∀ c, L c → G.lcand c) : Changes G s t ∧ validIds t = validIds s := by
  induction work with
  | refl => exact ⟨.refl, rfl⟩
  | quiet _ change ih =>
    refine ⟨ih.1.tail (.quiet change), ?_⟩
    rw [validIds, change.validl]
    exact ih.2
  | check id _ of change ih =>
    have hof := hA id of
    rw [← ih.2] at hof
    exact ⟨ih.1.tail (.check id hof change), (validIds_setPair change.toKeepsKey id).trans ih.2⟩
  | mark id _ change ih =>
    exact ⟨ih.1.tail (.mark id change), (validIds_setPair change.toKeepsKey id).trans ih.2⟩
  | lcand c _ of ih => exact ⟨ih.1.tail (.lcand c (hL c of)), ih.2⟩
  | rcand r _ ih => exact ⟨ih.1.tail (.rcand r), ih.2⟩
  | alloc _ paired known change ih =>
    refine ⟨ih.1.tail (.alloc paired known change), ?_⟩
    obtain ⟨-, -, rfl⟩ := candpairAlloc_ok change
    exact ih.2

theorem Checking.changes (checking : Checking A s t) (hA : ∀ id, A id → G.check (validIds s) id) :
    Changes G s t :=
  (checking.work.changes (L := fun _ => False) hA fun _ hc => hc.elim).1

/-- Work that changes no pair by a check and adds no local candidate. -/
theorem Work.changes' (work : Work (fun _ => False) (fun _ => False) s t) : Changes G s t :=
  (work.changes (fun _ h => h.elim) (fun _ h => h.elim)).1

/-! ## Pairs are distinct -/

/-- Pairs are distinct, older than the next identity and have known remote
candidates; there are none before the role is known. -/
structure Sound (s : Trice) : Prop where
  distinct : ((s.checkl ++ s.validl).map (·.id)).Nodup
  fresh : ∀ cp ∈ s.checkl ++ s.validl, cp.id < s.nextId
  known : ∀ cp ∈ s.checkl ++ s.validl, cp.rcand < s.rcandl.length
  unknown : s.lrole = .unknown → s.checkl = [] ∧ s.validl = []

/-- No pair is on both lists. -/
theorem Sound.off (h : Sound s) (hcp : cp ∈ s.checkl) : cp.id ∉ validIds s := by
  have hdisj := h.distinct
  rw [map_append] at hdisj
  exact fun hid => disjoint_of_nodup_append hdisj (mem_map_of_mem hcp) hid

theorem Sound.role_known (h : Sound s) (hcp : cp ∈ s.checkl ++ s.validl) : s.lrole ≠ .unknown := by
  intro hrole
  obtain ⟨hc, hv⟩ := h.unknown hrole
  rw [hc, hv] at hcp
  exact absurd hcp not_mem_nil

/-- With no more pairs than before, under new identities at most. -/
theorem Sound.of_pairs (h : Sound s) (hdistinct : ((t.checkl ++ t.validl).map (·.id)).Nodup)
    (hold : ∀ cp ∈ t.checkl ++ t.validl, ∃ cp' ∈ s.checkl ++ s.validl, cp'.id = cp.id ∧
      cp'.rcand = cp.rcand)
    (hnext : s.nextId ≤ t.nextId) (hrcandl : s.rcandl.length ≤ t.rcandl.length)
    (hunknown : t.lrole = .unknown → t.checkl = [] ∧ t.validl = []) : Sound t := by
  refine ⟨hdistinct, fun cp hcp => ?_, fun cp hcp => ?_, hunknown⟩
  · obtain ⟨cp', hcp', hid, -⟩ := hold cp hcp
    have := h.fresh cp' hcp'
    omega
  · obtain ⟨cp', hcp', -, hrcand⟩ := hold cp hcp
    have := h.known cp' hcp'
    omega

theorem Sound.calm (h : Sound s) (hq : Calm s t) : Sound t := by
  refine h.of_pairs ?_ (fun cp hcp => ⟨cp, ?_, rfl, rfl⟩) hq.nextId (by rw [hq.rcandl]) ?_
  · rw [hq.checkl, hq.validl]
    exact h.distinct
  · rwa [hq.checkl, hq.validl] at hcp
  · rw [hq.checkl, hq.validl, hq.lrole]
    exact h.unknown

theorem Sound.setPair (h : Sound s) (id : Nat) (hf : KeepsKey f) : Sound (s.setPair id f) := by
  have hkey := hf.assignAt id
  refine h.of_pairs ?_ (fun cp' hcp' => ?_) (le_refl _) (le_refl _) fun hrole => ?_
  · rw [pairs_setPair, List.map_map]
    have hids : (s.checkl ++ s.validl).map ((·.id) ∘ assignAt id f) =
        (s.checkl ++ s.validl).map (·.id) :=
      map_congr_left fun cp _ => hkey.id cp
    rw [hids]
    exact h.distinct
  · rw [pairs_setPair] at hcp'
    obtain ⟨cp, hcp, rfl⟩ := mem_map.mp hcp'
    exact ⟨cp, hcp, (hkey.id cp).symm, (hkey.rcand cp).symm⟩
  · simp_all [unknown, Trice.setPair]

/-- The lists after `trice_candpair_make_valid`. -/
theorem mem_makeValid {x : CandPair} (hpair : s.pair id = some cp) :
    (x ∈ (candpairMakeValid s id).checkl ↔ x ∈ s.checkl ∧ x.id ≠ id) ∧
      (x ∈ (candpairMakeValid s id).validl ↔ x = validPair cp ∨ x ∈ s.validl ∧ x.id ≠ id) := by
  rw [candpairMakeValid_of_pair hpair]
  simp [mem_listAddSorted]

theorem Sound.makeValid (h : Sound s) (hpair : s.pair id = some cp) :
    Sound (candpairMakeValid s id) := by
  have hcp := mem_of_pair hpair
  have hlists := candpairMakeValid_of_pair hpair
  refine h.of_pairs ?_ (fun x hx => ?_) (by rw [hlists]) (by rw [hlists]) fun hunknown => ?_
  · -- the moved pair in front of all the others
    have hperm : (s.checkl.filter (·.id ≠ id) ++ listAddSorted (s.validl.filter (·.id ≠ id))
        (validPair cp)).Perm (validPair cp :: (s.checkl ++ s.validl).filter (·.id ≠ id)) := by
      rw [filter_append]
      exact ((insertBehind_perm ..).append_left _).trans perm_middle
    rw [hlists, (hperm.map _).nodup_iff, map_cons, nodup_cons]
    refine ⟨fun hmem => ?_, h.distinct.sublist (filter_sublist.map _)⟩
    obtain ⟨x, hx, hid⟩ := mem_map.mp hmem
    have hmoved : cp.id = id := pair_id hpair
    exact of_decide_eq_true (mem_filter.mp hx).2 (hid.trans hmoved)
  · rcases mem_append.mp hx with hx | hx
    · exact ⟨x, mem_append_left _ ((mem_makeValid hpair).1.mp hx).1, rfl, rfl⟩
    · rcases (mem_makeValid hpair).2.mp hx with rfl | hx
      · exact ⟨cp, hcp, rfl, rfl⟩
      · exact ⟨x, mem_append_right _ hx.1, rfl, rfl⟩
  · grind [role_known]

theorem Sound.alloc (h : Sound s) {l : Lcand} {r : Nat} (hr : r < s.rcandl.length)
    (halloc : candpairAlloc s l r = .ok (t, id)) : Sound t := by
  obtain ⟨hrole, -, rfl⟩ := candpairAlloc_ok halloc
  have hperm : (listAddSorted s.checkl (newPair s l r) ++ s.validl).Perm
      (newPair s l r :: (s.checkl ++ s.validl)) := (insertBehind_perm ..).append_right _
  refine ⟨?_, fun cp hcp => ?_, fun cp hcp => ?_, fun hunknown => absurd hunknown hrole⟩
  · refine ((hperm.map _).nodup_iff).mpr (nodup_cons.mpr ⟨fun hmem => ?_, h.distinct⟩)
    obtain ⟨cp, hcp, hid⟩ := mem_map.mp hmem
    have := h.fresh cp hcp
    have : cp.id = s.nextId := hid
    omega
  · rcases mem_cons.mp (hperm.mem_iff.mp hcp) with rfl | hold
    · exact Nat.lt_succ_self _
    · exact Nat.lt_succ_of_lt (h.fresh cp hold)
  · rcases mem_cons.mp (hperm.mem_iff.mp hcp) with rfl | hold
    · exact hr
    · exact h.known cp hold

theorem Sound.role (h : Sound s) {role : Role} (hrole : role ≠ .unknown) (controlling : Bool) :
    Sound { s with lrole := role, checkl := candpairPrioOrder s.rcandl controlling s.checkl } := by
  have hperm := (candpairPrioOrder_spec s.rcandl controlling s.checkl).1
  refine h.of_pairs ?_ (fun cp' hcp' => ?_) (le_refl _) (le_refl _) fun hunknown =>
    absurd hunknown hrole
  · have hids : (s.checkl.map (candpairSetPprio s.rcandl controlling)).map (·.id) =
        s.checkl.map (·.id) := by
      rw [List.map_map]
      rfl
    have hdistinct := h.distinct
    rw [map_append, ← hids] at hdistinct
    rw [map_append]
    exact (((hperm.map _).append_right _).nodup_iff).mpr hdistinct
  · rcases mem_append.mp hcp' with hcp' | hcp'
    · obtain ⟨cp, hcp, rfl⟩ := mem_candpairPrioOrder hcp'
      exact ⟨cp, mem_append_left _ hcp, rfl, rfl⟩
    · exact ⟨cp', mem_append_right _ hcp', rfl, rfl⟩

theorem Change.sound (change : Change G s t) (h : Sound s) : Sound t := by
  cases change with
  | quiet change => exact h.calm change.toCalm
  | check id _ change | mark id change => exact h.setPair id change.toKeepsKey
  | nominate id => exact h.setPair id setNominated_keeps
  | makeValid of found => exact h.makeValid found
  | lcand c of => exact ⟨h.distinct, h.fresh, h.known, h.unknown⟩
  | rcand r =>
    exact h.of_pairs h.distinct (fun cp hcp => ⟨cp, hcp, rfl, rfl⟩) (le_refl _)
      (sublist_append_left s.rcandl [r]).length_le h.unknown
  | upgrade i type prio of =>
    exact h.of_pairs h.distinct (fun cp hcp => ⟨cp, hcp, rfl, rfl⟩) (le_refl _)
      (length_modify ..).ge h.unknown
  | alloc paired known change => exact h.alloc known change
  | role of before after => exact h.role after _

theorem Deed.sound (deed : Deed G s t) (h : Sound s) : Sound t := by
  cases deed with
  | change change => exact change.sound h
  | calm calm => exact h.calm calm
  | firstRole before after =>
    obtain ⟨hc, hv⟩ := h.unknown before
    exact ⟨h.distinct, h.fresh, h.known, fun _ => ⟨hc, hv⟩⟩

theorem Deeds.sound (deeds : Deeds G s t) (h : Sound s) : Sound t :=
  deeds.keeps h fun h deed => deed.sound h

theorem Changes.sound (changes : Changes G s t) (h : Sound s) : Sound t := changes.deeds.sound h

/-- The valid list stays where no pair may become valid. -/
theorem Deed.validIds (deed : Deed G s t) (hG : ¬ G.valid) : validIds t = validIds s := by
  cases deed with
  | change change =>
    cases change with
    | quiet change => rw [LibRe.Trice.validIds, change.validl]; rfl
    | check id _ change | mark id change => exact validIds_setPair change.toKeepsKey id
    | nominate id => exact validIds_setPair setNominated_keeps id
    | makeValid of found => exact absurd of hG
    | lcand _ _ | rcand _ | upgrade _ _ _ _ | role _ _ _ => rfl
    | alloc paired known change =>
      obtain ⟨-, -, rfl⟩ := candpairAlloc_ok change
      rfl
  | calm calm => rw [LibRe.Trice.validIds, calm.validl]; rfl
  | firstRole before after => rfl

end LibRe.Trice
