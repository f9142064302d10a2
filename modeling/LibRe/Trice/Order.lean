/-
LibRe.Trice.Order — pair priorities and the order of the two lists.

Priorities are stored in the pairs and the lists are sorted when a pair is added.
A change of role recomputes the check list only, and the upgrade of a remote
candidate recomputes nothing; as long as neither of them meets a pair it leaves
behind, all priorities are those of the formula and both lists are in order.
-/
import LibRe.Trice.Requests

namespace LibRe.Trice

open LibRe.Lists Machine List

/-- The pair priority of the ICE specification, for the priorities of the
controlling and the controlled agent's candidates. -/
def pairPriority (g d : Nat) : Nat := 2 ^ 32 * min g d + 2 * max g d + if g > d then 1 else 0

/-- The formula for a pair, with the current role and priorities. -/
def currentPriority (s : Trice) (cp : CandPair) : Nat :=
  let l := cp.lcand.attr.prio.toNat
  let r := (rcandPrio s.rcandl cp.rcand).toNat
  if s.lrole = .controlling then pairPriority l r else pairPriority r l

/-- Every priority is current, and both lists are sorted. -/
def PrioritiesHold (s : Trice) : Prop :=
  (∀ cp ∈ s.checkl ++ s.validl, cp.pprio.toNat = currentPriority s cp) ∧
    Descending s.checkl ∧ Descending s.validl

/-- Priorities and component ids that leave room for the formula in 64 bits. -/
def InRange (c : Lcand) : Prop := c.attr.prio.toNat < 2 ^ 32 - 1 ∧ c.attr.compid.toNat ≤ 256

/-- The invariant. -/
structure Ordered (s : Trice) : Prop where
  known : ∀ cp ∈ s.checkl ++ s.validl, cp.rcand < s.rcandl.length
  exact : ∀ cp ∈ s.checkl ++ s.validl,
    cp.pprio = candpairPprio (s.lrole == .controlling) cp.lcand.attr.prio
      (rcandPrio s.rcandl cp.rcand)
  checkl : Descending s.checkl
  validl : Descending s.validl
  lcandl : ∀ c ∈ s.lcandl, InRange c
  pairs : ∀ cp ∈ s.checkl ++ s.validl, InRange cp.lcand
  unknown : s.lrole = .unknown → s.checkl = [] ∧ s.validl = []

variable {s t : Trice}

/-- What holds of each pair. -/
def PairOk (s : Trice) (cp : CandPair) : Prop :=
  cp.rcand < s.rcandl.length ∧ InRange cp.lcand ∧
    cp.pprio = candpairPprio (s.lrole == .controlling) cp.lcand.attr.prio
      (rcandPrio s.rcandl cp.rcand)

variable {cp : CandPair} {role : Role} {ev : Event}

theorem Ordered.pairOk (h : Ordered s) (hcp : cp ∈ s.checkl ++ s.validl) : PairOk s cp :=
  ⟨h.known cp hcp, h.pairs cp hcp, h.exact cp hcp⟩

theorem ordered_of_pairOk (hpairs : ∀ cp ∈ s.checkl ++ s.validl, PairOk s cp)
    (checkl : Descending s.checkl)
    (validl : Descending s.validl) (lcandl : ∀ c ∈ s.lcandl, InRange c)
    (unknown : s.lrole = .unknown → s.checkl = [] ∧ s.validl = []) : Ordered s :=
  ⟨fun cp hcp => (hpairs cp hcp).1, fun cp hcp => (hpairs cp hcp).2.2, checkl, validl, lcandl,
    fun cp hcp => (hpairs cp hcp).2.1, unknown⟩

/-! ## The formula -/

theorem iceCalcPairPrio_toNat {g d : UInt32} (h : min g.toNat d.toNat < 2 ^ 32 - 1) :
    (iceCalcPairPrio g d).toNat = pairPriority g.toNat d.toNat := by
  have hg := g.toNat_lt
  have hd := d.toNat_lt
  have hmin : (if g < d then g else d).toNat = min g.toNat d.toNat := by
    split <;> rename_i hlt <;> rw [UInt32.lt_iff_toNat_lt] at hlt <;> omega
  have hmax : (if g > d then g else d).toNat = max g.toNat d.toNat := by
    split <;> rename_i hlt <;> rw [gt_iff_lt, UInt32.lt_iff_toNat_lt] at hlt <;> omega
  have hone : ((if g > d then 1 else 0 : UInt64)).toNat = if g.toNat > d.toNat then 1 else 0 := by
    by_cases hgt : g > d
    · rw [if_pos hgt, if_pos (UInt32.lt_iff_toNat_lt.mp hgt)]
      rfl
    · simp_all [if_neg]
  have hshift : ((if g < d then g else d).toUInt64 <<< (32 : UInt64)).toNat = min g.toNat d.toNat *
      2 ^ 32 := by
    simp
    omega
  have hflag : (if g.toNat > d.toNat then 1 else 0 : Nat) ≤ 1 := by
    split <;> omega
  unfold iceCalcPairPrio pairPriority
  simp only [UInt64.toNat_add, UInt64.toNat_mul, hshift, hone, UInt32.toNat_toUInt64, hmax]
  generalize (if g.toNat > d.toNat then 1 else 0 : Nat) = flag at hflag ⊢
  show ((min g.toNat d.toNat * 2 ^ 32 + (2 * max g.toNat d.toNat) % 2 ^ 64) % 2 ^ 64 + flag) % 2 ^
    64 = _
  omega

/-- The stored priority is the formula's value. -/
theorem Ordered.current (h : Ordered s) (hcp : cp ∈ s.checkl ++ s.validl) :
    cp.pprio.toNat = currentPriority s cp := by
  have hl := (h.pairs cp hcp).1
  rw [h.exact cp hcp, currentPriority, candpairPprio]
  by_cases hrole : s.lrole = .controlling
  · rw [if_pos hrole, if_pos (by simp [hrole]), iceCalcPairPrio_toNat (by omega)]
  · rw [if_neg hrole, if_neg (by simpa using hrole), iceCalcPairPrio_toNat (by omega)]

theorem Ordered.hold (h : Ordered s) : PrioritiesHold s := ⟨fun _ => h.current, h.checkl, h.validl⟩

/-! ## Changes that keep the order -/

theorem Descending.map {f : CandPair → CandPair} (hf : ∀ cp, (f cp).pprio = cp.pprio)
    {l : List CandPair} (h : Descending l) : Descending (l.map f) := by
  refine pairwise_map.mpr (h.imp fun {a b} hab => ?_)
  rwa [hf, hf]

section

variable (h : Ordered s)
include h

theorem Ordered.setPair (id : Nat) {f : CandPair → CandPair} (hf : KeepsKey f) :
    Ordered (s.setPair id f) := by
  have hkey := hf.assignAt id
  have hmem : ∀ cp' ∈ (s.setPair id f).checkl ++ (s.setPair id f).validl,
      ∃ cp ∈ s.checkl ++ s.validl, assignAt id f cp = cp' := by
    grind [pairs_setPair]
  refine ordered_of_pairOk ?_ (h.checkl.map hkey.pprio) (h.validl.map hkey.pprio) h.lcandl ?_
  · intro cp' hcp'
    obtain ⟨cp, hcp, rfl⟩ := hmem cp' hcp'
    rw [PairOk, hkey.pprio, hkey.lcand, hkey.rcand]
    exact h.pairOk hcp
  · intro hrole
    obtain ⟨hc, hv⟩ := h.unknown hrole
    simp [Trice.setPair, hc, hv]

/-- The invariant is about the role, the candidates and the pairs. -/
theorem Ordered.calm (hq : Calm s t) : Ordered t := by
  refine ordered_of_pairOk (fun cp hcp => ?_) (hq.checkl ▸ h.checkl) (hq.validl ▸ h.validl)
    (fun c hc => h.lcandl c (hq.lcandl c hc)) ?_
  · rw [hq.checkl, hq.validl] at hcp
    rw [PairOk, hq.rcandl, hq.lrole]
    exact h.pairOk hcp
  · rw [hq.checkl, hq.validl, hq.lrole]
    exact h.unknown

theorem Ordered.rcand (r : Rcand) : Ordered { s with rcandl := s.rcandl ++ [r] } := by
  refine ⟨fun cp hcp => ?_, fun cp hcp => ?_, h.checkl, h.validl, h.lcandl, h.pairs, h.unknown⟩
  · exact lt_of_lt_of_le (h.known cp hcp) (by simp)
  · grind [known, exact, rcandPrio]

theorem Ordered.lcand {c : Lcand} (hc : InRange c) :
    Ordered { s with lcandl := s.lcandl ++ [c] } := by
  refine ⟨h.known, h.exact, h.checkl, h.validl, fun c' hc' => ?_, h.pairs, h.unknown⟩
  rcases mem_append.mp hc' with hc' | hc'
  · exact h.lcandl c' hc'
  · rwa [mem_singleton.mp hc']

variable {id : Nat}

/-- Adding to the check list a pair with its current priority. -/
theorem Ordered.alloc {l : Lcand} {r : Nat} (hl : l ∈ s.lcandl) (hr : r < s.rcandl.length)
    (halloc : candpairAlloc s l r = .ok (t, id)) : Ordered t := by
  obtain ⟨hrole, -, rfl⟩ := candpairAlloc_ok halloc
  have hcases : ∀ cp ∈ listAddSorted s.checkl (newPair s l r) ++ s.validl,
      cp = newPair s l r ∨ cp ∈ s.checkl ++ s.validl := by
    intro cp hcp
    rcases mem_append.mp hcp with hcp | hcp
    · grind [mem_listAddSorted]
    · exact .inr (mem_append_right _ hcp)
  refine ordered_of_pairOk (fun cp hcp => ?_) (h.checkl.listAddSorted _) h.validl h.lcandl
    fun hunknown => absurd hunknown hrole
  rcases hcases cp hcp with rfl | hold
  · exact ⟨hr, h.lcandl l hl, rfl⟩
  · exact h.pairOk hold

/-- A pair moves to the valid list with its priority. -/
theorem Ordered.makeValid {cp : CandPair} (hpair : s.pair id = some cp) :
    Ordered (candpairMakeValid s id) := by
  have hcp := mem_of_pair hpair
  have hcases : ∀ x ∈ (candpairMakeValid s id).checkl ++ (candpairMakeValid s id).validl,
      x = validPair cp ∨ x ∈ s.checkl ++ s.validl := by
    intro x hx
    rcases mem_append.mp hx with hx | hx
    · exact .inr (mem_append_left _ ((mem_makeValid hpair).1.mp hx).1)
    · grind [mem_makeValid]
  rw [candpairMakeValid_of_pair hpair] at hcases ⊢
  have hvalidl : Descending (s.validl.filter (·.id ≠ id)) := List.Pairwise.filter _ h.validl
  refine ordered_of_pairOk (fun x hx => ?_) (List.Pairwise.filter _ h.checkl)
    (hvalidl.listAddSorted _) h.lcandl fun hunknown => ?_
  · rcases hcases x hx with rfl | hold
    · exact ⟨h.known cp hcp, h.pairs cp hcp, h.exact cp hcp⟩
    · exact h.pairOk hold
  · simp_all [unknown]

end

/-! ## The role -/

theorem iceCandCalcPrio_prflx {compid : UInt32} (h : compid.toNat ≤ 256) :
    (iceCandCalcPrio .prflx 0 compid).toNat < 2 ^ 32 - 1 := by
  have hlow : (256 - compid).toNat ≤ 256 := by
    rw [UInt32.toNat_sub_of_le _ _ (UInt32.le_iff_toNat_le.mpr h)]
    exact Nat.sub_le ..
  have hor : (iceCandCalcPrio .prflx 0 compid).toNat = 110 * 2 ^ 24 ||| (256 - compid).toNat := by
    simp [iceCandCalcPrio]
  have := @Nat.or_lt_two_pow (110 * 2 ^ 24) (256 - compid).toNat 31 (by decide) (by omega)
  omega

/-- A peer-reflexive candidate gets a higher priority only before it is paired. -/
def UpgradesUnpaired (s : Trice) (i : Nat) (prio : UInt32) : Prop :=
  ∀ r, s.rcandl[i]? = some r → r.attr.type = .prflx → prio > r.attr.prio →
    ∀ cp ∈ s.checkl ++ s.validl, cp.rcand ≠ i

theorem Ordered.upgrade (h : Ordered s) {i : Nat} {prio : UInt32} (hup : UpgradesUnpaired s i prio)
    (type : CandType) : Ordered
      { s with rcandl := s.rcandl.modify i (upgradeRcand type prio) } := by
  have hprio : ∀ cp ∈ s.checkl ++ s.validl,
      rcandPrio (s.rcandl.modify i (upgradeRcand type prio)) cp.rcand =
        rcandPrio s.rcandl cp.rcand := by
    intro cp hcp
    rw [rcandPrio, rcandPrio, getElem?_modify]
    by_cases heq : i = cp.rcand
    · cases hr : s.rcandl[cp.rcand]? with
      | none => rfl
      | some r =>
        have hkeep : ¬ (r.attr.type = .prflx ∧ prio > r.attr.prio) := fun hboth =>
          hup r (heq ▸ hr) hboth.1 hboth.2 cp hcp heq.symm
        simp [heq, upgradeRcand, if_neg hkeep]
    · simp [heq]
  refine ⟨fun cp hcp => ?_, fun cp hcp => ?_, h.checkl, h.validl, h.lcandl, h.pairs, h.unknown⟩
  · simpa using h.known cp hcp
  · grind [exact]

/-- The changes that leave no stale priority behind. -/
def orderGuards : Guards where
  check _ _ := True
  role ids := ids = []
  lcand := InRange
  upgrade := UpgradesUnpaired
  valid := True
  check_off _ := trivial
  role_nil := rfl

/-- The event leaves no stale priority behind: local candidates are in range, a
peer-reflexive candidate is upgraded only while no pair has it, and the role
changes only while no pair is valid. -/
def KeepsPriorities (s : Trice) : Event → Prop
  | .lcandAdd args _ => args.prio.toNat < 2 ^ 32 - 1 ∧ args.compid.toNat ≤ 256
  | .rcandAdd compid _ proto prio addr _ _ =>
    ∀ i r, rcandFind s compid proto addr = some i → s.rcandl[i]? = some r → r.attr.type = .prflx →
      prio > r.attr.prio → ∀ cp ∈ s.checkl ++ s.validl, cp.rcand ≠ i
  | .setRole role _ => role ≠ .unknown → s.lrole ≠ role → s.validl = []
  | .request _ _ _ req _ => stundCheck s req = some 0 → SwitchesRole s req → s.validl = []
  | .response _ resp _ => resp.err = none → resp.scode = 487 → s.validl = []
  | _ => True

/-- The guards let such an event pass. -/
theorem Ordered.permits (h : Ordered s) (hev : KeepsPriorities s ev) :
    Permits orderGuards s ev := by
  have hnil : s.validl = [] → validIds s = [] := fun hv => map_eq_nil_iff.mpr hv
  have hsend : ∀ {t : Trice} {env : Env} {id : Nat} {useCand : Bool},
      PermitsSend orderGuards env t id useCand := by
    intro t env id useCand _
    exact (conncheckSend_checking id useCand).changes fun _ _ => trivial
  cases ev with
  | lcandAdd args sockEnv =>
    intro c hprio hcompid
    show InRange c
    rw [InRange, hprio, hcompid]
    exact hev
  | rcandAdd => exact fun i hfind r hr => hev i r hfind hr
  | setRole role env => exact fun hrole hne _ => hnil (hev hrole hne)
  | conncheckSend id useCand env => exact hsend
  | request lcand sock src req env =>
    refine fun c _ hauth => ⟨fun hswitch => hnil (hev hauth hswitch), ?_⟩
    intro rcand cp _ _ t _ _
    exact (triggerCheck_checking cp sock req.useCand).changes fun _ _ => trivial
  | response id resp env =>
    intro cc _
    unfold PermitsResponse
    split
    · exact fun _ => trivial
    rename_i herr
    split
    · split
      · exact fun _ => trivial
      · refine ⟨trivial, fun cp hpair _ => ⟨fun _ => trivial, ?_⟩⟩
        have hrange := (h.pairs cp (mem_of_pair hpair)).2
        exact ⟨iceCandCalcPrio_prflx hrange, hrange⟩
    split
    · rename_i hscode
      exact ⟨fun _ => hnil (hev (by simpa using herr) hscode), hsend⟩
    · exact fun _ => trivial
  | tcpEstab => exact fun _ _ _ _ _ => trivial
  | _ => exact trivial

end LibRe.Trice
