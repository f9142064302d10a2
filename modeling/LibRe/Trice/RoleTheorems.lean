/-
LibRe.Trice.RoleTheorems — what the repair of role conflicts comes to.

Two agents start in one role. Only the one with the larger tie-breaker ever
switches: the other one answers its requests with 487 and is never answered so
itself. The larger one may switch back and forth when several 487 responses
arrive, but whenever it is in the role both started with, a request under that
role or a 487 response is still on its way.
-/
import LibRe.Trice.Role

namespace LibRe.Trice

open Parties List

/-- Some request was handled. -/
def Processed (h : List (Side × Message)) : Prop :=
  ∃ i role tiebrk, (i, Message.request role tiebrk) ∈ h

/-! ## One message -/

theorem switchRole_known (library : Library) (h : role ≠ .unknown) :
    library.switchRole role ≠ .unknown ∧ library.switchRole role ≠ role := by
  cases library <;> cases role <;> first | exact absurd rfl h | decide

variable {a : Agent} {role : Role} {tiebrk : UInt64}

/-- The smaller tie-breaker keeps its role. -/
theorem handle_request_smaller (h : a.tiebrk < tiebrk) :
    a.handle (.request role tiebrk) = ([if role = a.lrole then .roleConflict else .success],
      a) := by
  have hlt : ¬ a.tiebrk ≥ tiebrk := by
    simpa [UInt64.le_iff_toNat_le, UInt64.lt_iff_toNat_lt] using h
  by_cases hrole : role = a.lrole <;> simp [Agent.handle, checkRole, hrole, hlt]

/-- The larger one switches. -/
theorem handle_request_larger (h : tiebrk < a.tiebrk) :
    a.handle (.request role tiebrk) =
      ([.success], if role = a.lrole then { a with lrole := a.library.switchRole a.lrole }
        else a) := by
  have hle : a.tiebrk ≥ tiebrk := by
    have := UInt64.lt_iff_toNat_lt.mp h
    exact UInt64.le_iff_toNat_le.mpr (by omega)
  by_cases hrole : role = a.lrole <;> simp [Agent.handle, checkRole, hrole, hle]

theorem check_known (h : a.lrole ≠ .unknown) : a.check = [.request a.lrole a.tiebrk] := if_neg h

/-! ## The invariant -/

/-- `i` has the larger tie-breaker and both started in `role`. -/
structure Repairs (i : Side) (role : Role) (tiebrk : Side → UInt64) (h : List (Side × Message))
    (c : Config Agent Message) : Prop where
  tie : ∀ j, (c.party j).tiebrk = tiebrk j
  known : (c.party i).lrole ≠ .unknown
  keeps : (c.party i.other).lrole = role
  unasked : (i.other, .roleConflict) ∉ c.flight
  outgoing : ∀ r t, (i.other, .request r t) ∈ c.flight → t = tiebrk i
  incoming : ∀ r t, (i, .request r t) ∈ c.flight → r = role ∧ t = tiebrk i.other
  before : ¬ Processed h → (c.party i).lrole = role ∧ (i, .roleConflict) ∉ c.flight ∧
    ∀ r t, (i.other, .request r t) ∈ c.flight → r = role
  pending : Processed h → (c.party i).lrole = role →
    (i.other, .request role (tiebrk i)) ∈ c.flight ∨ (i, .roleConflict) ∈ c.flight

theorem repairs_start {i : Side} {tiebrk : Side → UInt64} (library : Side → Library)
    (hrole : role ≠ .unknown) : Repairs i role tiebrk [] (sameRole library role tiebrk) where
  tie _ := rfl
  known := hrole
  keeps := rfl
  unasked := not_mem_nil
  outgoing _ _ h := absurd h not_mem_nil
  incoming _ _ h := absurd h not_mem_nil
  before _ := ⟨rfl, not_mem_nil, fun _ _ h => absurd h not_mem_nil⟩
  pending := fun ⟨_, _, _, h⟩ => absurd h not_mem_nil

section Steps

variable {i : Side} {tiebrk : Side → UInt64} {h h' : List (Side × Message)}
  {c : Config Agent Message} {s : Agent} {flight : List (Side × Message)} {sent : List Message}

variable {j : Side}

/-- Moves leave the tie-breakers alone. -/
theorem tie_move (htie : ∀ j, (c.party j).tiebrk = tiebrk j)
    (hs : s.tiebrk = (c.party j).tiebrk) (k : Side) :
    ((c.move j s flight sent).party k).tiebrk = tiebrk k := by
  rcases Side.eq_or_eq_other j k with rfl | rfl
  · simp [hs, htie]
  · simp [htie]

/-- The larger one moves and sends nothing but requests and success responses. -/
theorem Repairs.move_larger (inv : Repairs i role tiebrk h c) (hflight : ∀ x ∈ flight, x ∈ c.flight)
    (htie : s.tiebrk = (c.party i).tiebrk) (hknown : s.lrole ≠ .unknown)
    (hsent : ∀ m ∈ sent, m = .success ∨ ∃ r, m = .request r (tiebrk i))
    (hbefore : ¬ Processed h' → s.lrole = role ∧ (i, .roleConflict) ∉ flight ∧
      (∀ r t, (i.other, .request r t) ∈ flight → r = role) ∧ ∀ r t, .request r t ∈ sent → r = role)
    (hpending : Processed h' → s.lrole = role → (i.other, .request role (tiebrk i)) ∈ flight ∨
      .request role (tiebrk i) ∈ sent ∨ (i, .roleConflict) ∈ flight) :
    Repairs i role tiebrk h' (c.move i s flight sent) := by
  refine ⟨tie_move inv.tie htie, by simpa using hknown, by simpa using inv.keeps, ?_,
    ?_, ?_, ?_, ?_⟩
  · intro hmem
    rcases (Config.mem_move ..).mp hmem with hold | ⟨-, hnew⟩
    · exact inv.unasked (hflight _ hold)
    · rcases hsent _ hnew with hm | ⟨r, hm⟩ <;> exact Message.noConfusion hm
  · intro r t hmem
    rcases (Config.mem_move ..).mp hmem with hold | ⟨-, hnew⟩
    · exact inv.outgoing r t (hflight _ hold)
    · grind
  · intro r t hmem
    rcases (Config.mem_move ..).mp hmem with hold | ⟨hside, -⟩
    · exact inv.incoming r t (hflight _ hold)
    · exact absurd hside.symm i.other_ne
  · intro hnone
    obtain ⟨hrole, hconf, hreq, hnew⟩ := hbefore hnone
    refine ⟨by simpa using hrole, fun hmem => ?_, fun r t hmem => ?_⟩
    · grind [Config.mem_move]
    · grind [Config.mem_move]
  · intro hproc hrole
    rw [Config.move_party] at hrole
    rcases hpending hproc hrole with hold | hnew | hold
    · exact .inl ((Config.mem_move ..).mpr (.inl hold))
    · exact .inl ((Config.mem_move ..).mpr (.inr ⟨rfl, hnew⟩))
    · exact .inr ((Config.mem_move ..).mpr (.inl hold))

/-- The smaller one keeps its state, and its requests carry the first role. -/
theorem Repairs.move_smaller (inv : Repairs i role tiebrk h c)
    (hflight : ∀ x ∈ flight, x ∈ c.flight)
    (hsent : ∀ r t, .request r t ∈ sent → r = role ∧ t = tiebrk i.other)
    (hbefore : ¬ Processed h' → ¬ Processed h ∧ .roleConflict ∉ sent)
    (hpending : Processed h' → (c.party i).lrole = role →
      (i.other, .request role (tiebrk i)) ∈ flight ∨ .roleConflict ∈ sent ∨
        (i, .roleConflict) ∈ flight) :
    Repairs i role tiebrk h' (c.move i.other (c.party i.other) flight sent) := by
  have hother : ((c.move i.other (c.party i.other) flight sent).party i) = c.party i := by
    have := Config.move_party_other c i.other (c.party i.other) flight sent
    rwa [Side.other_other] at this
  refine ⟨tie_move inv.tie rfl, by rw [hother]; exact inv.known, by simpa using inv.keeps, ?_,
    ?_, ?_, ?_, ?_⟩
  · intro hmem
    rcases (Config.mem_move ..).mp hmem with hold | ⟨hside, -⟩
    · exact inv.unasked (hflight _ hold)
    · exact absurd hside.symm i.other.other_ne
  · intro r t hmem
    rcases (Config.mem_move ..).mp hmem with hold | ⟨hside, -⟩
    · exact inv.outgoing r t (hflight _ hold)
    · exact absurd hside.symm i.other.other_ne
  · intro r t hmem
    rcases (Config.mem_move ..).mp hmem with hold | ⟨-, hnew⟩
    · exact inv.incoming r t (hflight _ hold)
    · exact hsent r t hnew
  · intro hnone
    obtain ⟨hnone, hnew⟩ := hbefore hnone
    obtain ⟨hrole, hconf, hreq⟩ := inv.before hnone
    rw [hother]
    refine ⟨hrole, fun hmem => ?_, fun r t hmem => ?_⟩
    · simp_all
    · grind [Config.mem_move]
  · intro hproc hrole
    rw [hother] at hrole
    rcases hpending hproc hrole with hold | hnew | hold
    · exact .inl ((Config.mem_move ..).mpr (.inl hold))
    · exact .inr ((Config.mem_move ..).mpr (.inr ⟨(Side.other_other i).symm, hnew⟩))
    · exact .inr ((Config.mem_move ..).mpr (.inl hold))

theorem not_processed_left (hnone : ¬ Processed (h ++ [x])) : ¬ Processed h :=
  fun ⟨j, r, t, hmem⟩ => hnone ⟨j, r, t, mem_append_left _ hmem⟩

theorem processed_of_request {r : Role} {t : UInt64} : Processed (h ++ [(j, .request r t)]) :=
  ⟨j, r, t, mem_append_right _ mem_cons_self⟩

theorem processed_left (hproc : Processed (h ++ [(j, .success)])) : Processed h := by
  obtain ⟨k, r, t, hmem⟩ := hproc
  rcases mem_append.mp hmem with hmem | hmem
  · exact ⟨k, r, t, hmem⟩
  · exact Message.noConfusion (Prod.mk.inj (mem_singleton.mp hmem)).2

/-- A check of either agent. -/
theorem repairs_act (inv : Repairs i role tiebrk h c) (hrole : role ≠ .unknown)
    (does : agents.acts (c.party j) sent s) :
    Repairs i role tiebrk h (c.move j s c.flight sent) := by
  obtain ⟨rfl, rfl⟩ := does
  rcases Side.eq_or_eq_other i j with rfl | rfl
  · rw [check_known inv.known, inv.tie j]
    refine inv.move_larger (fun _ hx => hx) rfl inv.known ?_ ?_ ?_
    · simp
    · intro hnone
      obtain ⟨hrole, hconf, hreq⟩ := inv.before hnone
      refine ⟨hrole, hconf, hreq, fun r t hmem => ?_⟩
      rw [(Message.request.inj (mem_singleton.mp hmem)).1]
      exact hrole
    · intro hproc hrole
      exact (inv.pending hproc hrole).imp id .inr
  · have hkeeps : (c.party i.other).lrole ≠ .unknown := by
      grind [Repairs.keeps]
    rw [check_known hkeeps, inv.tie, inv.keeps]
    refine inv.move_smaller (fun _ hx => hx) ?_ ?_ ?_
    · simp
    · simp
    · intro hproc hrole
      exact (inv.pending hproc hrole).imp id .inr

variable {l₁ l₂ : List (Side × Message)} {m : Message} {x y : Side × Message}

theorem mem_flight (hflight : flight = l₁ ++ y :: l₂) : x ∈ flight ↔ x = y ∨ x ∈ l₁ ++ l₂ := by
  simp [hflight, or_left_comm]

/-- The larger one handles a message. -/
theorem repairs_deliver_larger (inv : Repairs i role tiebrk h c) (htie : tiebrk i.other < tiebrk i)
    (hrole : role ≠ .unknown) (hflight : c.flight = l₁ ++ (i, m) :: l₂)
    (does : agents.handles (c.party i) m sent s) :
    Repairs i role tiebrk (h ++ [(i, m)]) (c.move i s (l₁ ++ l₂) sent) := by
  have hsub : ∀ x ∈ l₁ ++ l₂, x ∈ c.flight := fun x hx => (mem_flight hflight).mpr (.inr hx)
  have hmem := (mem_flight hflight).mpr (.inl rfl)
  cases m with
  | request r t =>
    obtain ⟨rfl, rfl⟩ := inv.incoming r t hmem
    rw [← inv.tie i] at htie
    have hhandle : _ = _ := does
    rw [handle_request_larger htie] at hhandle
    obtain ⟨rfl, rfl⟩ := hhandle
    have hne := switchRole_known (c.party i).library inv.known
    refine inv.move_larger hsub ?_ ?_ ?_ (absurd processed_of_request) ?_
    · split <;> rfl
    · grind [Repairs.known]
    · exact fun m hm => .inl (mem_singleton.mp hm)
    · intro _ hkeep
      split at hkeep
      · simp_all
      · simp_all
  | success =>
    obtain ⟨rfl, rfl⟩ := Prod.mk.inj (show ([], c.party i) = (sent, s) from does)
    refine inv.move_larger hsub rfl inv.known (fun m hm => absurd hm not_mem_nil) ?_ ?_
    · intro hnone
      obtain ⟨hstill, hconf, hreq⟩ := inv.before (not_processed_left hnone)
      exact ⟨hstill, fun hx => hconf (hsub _ hx), fun r t hx => hreq r t (hsub _ hx),
        fun r t hx => absurd hx not_mem_nil⟩
    · intro hproc hstill
      rcases inv.pending (processed_left hproc) hstill with hx | hx
      · exact .inl (((mem_flight hflight).mp hx).resolve_left (by simp))
      · exact .inr (.inr (((mem_flight hflight).mp hx).resolve_left (by simp)))
  | roleConflict =>
    have hne := switchRole_known (c.party i).library inv.known
    obtain ⟨rfl, rfl⟩ := Prod.mk.inj (show (_, _) = (sent, s) from does)
    rw [check_known hne.1]
    refine inv.move_larger hsub rfl hne.1 ?_ ?_ ?_
    · intro m hm
      rw [inv.tie] at hm
      exact .inr ⟨_, mem_singleton.mp hm⟩
    · grind [Repairs.before, not_processed_left]
    · intro _ hback
      refine .inr (.inl (mem_singleton.mpr ?_))
      rw [← inv.tie]
      exact congrArg (Message.request · _) hback.symm

/-- The smaller one handles a message. -/
theorem repairs_deliver_smaller (inv : Repairs i role tiebrk h c) (htie : tiebrk i.other < tiebrk i)
    (hflight : c.flight = l₁ ++ (i.other, m) :: l₂)
    (does : agents.handles (c.party i.other) m sent s) :
    Repairs i role tiebrk (h ++ [(i.other, m)]) (c.move i.other s (l₁ ++ l₂) sent) := by
  have hsub : ∀ x ∈ l₁ ++ l₂, x ∈ c.flight := fun x hx => (mem_flight hflight).mpr (.inr hx)
  have hmem := (mem_flight hflight).mpr (.inl rfl)
  cases m with
  | request r t =>
    have ht := inv.outgoing r t hmem
    rw [← inv.tie i.other, ← ht] at htie
    have hhandle : _ = _ := does
    rw [handle_request_smaller htie, inv.keeps] at hhandle
    obtain ⟨rfl, rfl⟩ := hhandle
    refine inv.move_smaller hsub ?_ (absurd processed_of_request) ?_
    · grind
    intro _ hstill
    by_cases hr : r = role
    · simp [hr]
    have hproc : Processed h := by
      by_contra hnone
      exact hr ((inv.before hnone).2.2 r t hmem)
    rcases inv.pending hproc hstill with hx | hx
    · refine .inl (((mem_flight hflight).mp hx).resolve_left fun heq => hr ?_)
      exact (Message.request.inj (Prod.mk.inj heq).2).1.symm
    · exact .inr (.inr (((mem_flight hflight).mp hx).resolve_left (by simp)))
  | success =>
    obtain ⟨rfl, rfl⟩ := Prod.mk.inj (show ([], c.party i.other) = (sent, s) from does)
    refine inv.move_smaller hsub (fun r t hx => absurd hx not_mem_nil) ?_ ?_
    · exact fun hnone => ⟨not_processed_left hnone, not_mem_nil⟩
    · intro hproc hstill
      rcases inv.pending (processed_left hproc) hstill with hx | hx
      · exact .inl (((mem_flight hflight).mp hx).resolve_left (by simp))
      · exact .inr (.inr (((mem_flight hflight).mp hx).resolve_left (by simp)))
  | roleConflict => exact absurd hmem inv.unasked

/-- Every run repairs. -/
theorem run_repairs {library : Side → Library} (hrole : role ≠ .unknown)
    (htie : tiebrk i.other < tiebrk i) (run : Run agents (sameRole library role tiebrk) h c) :
    Repairs i role tiebrk h c := by
  induction run with
  | start => exact repairs_start library hrole
  | act j _ does ih => exact repairs_act ih hrole does
  | deliver j _ _ _ inFlight does ih =>
    rcases Side.eq_or_eq_other i j with rfl | rfl
    · exact repairs_deliver_larger ih htie hrole inFlight does
    · exact repairs_deliver_smaller ih htie inFlight does

end Steps

/-! ## Outcomes -/

/-- One agent is controlling, the other one controlled. -/
def Opposite (c : Config Agent Message) : Prop :=
  ∃ i, (c.party i).lrole = .controlling ∧ (c.party i.other).lrole = .controlled

theorem exists_larger {tiebrk : Side → UInt64} (hne : tiebrk .left ≠ tiebrk .right) :
    ∃ i : Side, tiebrk i.other < tiebrk i := by
  rcases Nat.lt_or_gt_of_ne (mt UInt64.toNat_inj.mp hne) with hlt | hgt
  · exact ⟨.right, UInt64.lt_iff_toNat_lt.mpr hlt⟩
  · exact ⟨.left, UInt64.lt_iff_toNat_lt.mpr hgt⟩

theorem Role.opposite {a b : Role} (ha : a ≠ .unknown) (hb : b ≠ .unknown) (hne : a ≠ b) :
    a = .controlling ∧ b = .controlled ∨ a = .controlled ∧ b = .controlling := by
  cases a <;> cases b <;> simp_all

/-- Known roles that differ are opposite. -/
theorem opposite_of_ne {c : Config Agent Message} (i : Side) (h : (c.party i).lrole ≠ .unknown)
    (h' : (c.party i.other).lrole ≠ .unknown) (hne : (c.party i).lrole ≠ (c.party i.other).lrole) :
    Opposite c := by
  rcases Role.opposite h h' hne with ⟨hi, ho⟩ | ⟨hi, ho⟩
  · exact ⟨i, hi, ho⟩
  · exact ⟨i.other, ho, by rwa [Side.other_other]⟩

/-- Whatever the interleaving, agents at rest have opposite roles once a request
was handled. -/
theorem roles_opposite_at_rest {library : Side → Library} {tiebrk : Side → UInt64}
    {h : List (Side × Message)} {c : Config Agent Message} (hrole : role ≠ .unknown)
    (hne : tiebrk .left ≠ tiebrk .right) (run : Run agents (sameRole library role tiebrk) h c)
    (hproc : Processed h) (hrest : c.flight = []) : Opposite c := by
  obtain ⟨i, htie⟩ := exists_larger hne
  have inv := run_repairs hrole htie run
  refine opposite_of_ne i inv.known (by rw [inv.keeps]; exact hrole) ?_
  rw [inv.keeps]
  intro hstill
  rcases inv.pending hproc hstill with hmem | hmem
  · simp_all
  · simp_all

/-- The tie-breakers 2 and 1. -/
def twoOne : Side → UInt64
  | .left => 2
  | .right => 1

/-- A check of the larger one is answered with 487, and the check that follows
with success. -/
theorem conflict_run (library : Library) (role : Role) (hrole : role ≠ .unknown) :
    ∃ c, Run agents (sameRole (fun _ => library) role twoOne)
        [(.right, .request role 2), (.left, .roleConflict),
          (.right, .request (library.switchRole role) 2), (.left, .success)] c ∧
      c.flight = [] ∧ (c.party .left).lrole = library.switchRole role ∧
      (c.party .right).lrole = role := by
  have hstart : Run agents (sameRole (fun _ => library) role twoOne) [] _ := .start
  cases library <;> cases role <;> first
    | exact absurd rfl hrole
    | exact ⟨_, .deliver .left [] [] (.deliver .right [] []
        (.deliver .left [] [] (.deliver .right [] []
        (.act .left hstart ⟨rfl, rfl⟩) rfl rfl) rfl rfl) rfl rfl) rfl rfl, rfl, rfl, rfl⟩

theorem roles_opposite_after_conflict :
    ∃ h c, Run agents (sameRole (fun _ => .trice) .controlling twoOne) h c ∧ Processed h ∧
      c.flight = [] ∧ Opposite c := by
  obtain ⟨c, hrun, hrest, -⟩ := conflict_run .trice .controlling (by decide)
  refine ⟨_, c, hrun, ?hproc, hrest, roles_opposite_at_rest (by decide)
    (by decide) hrun ?hproc hrest⟩
  exact ⟨.right, .controlling, 2, mem_cons_self⟩

/-- The larger tie-breaker ends up controlling exactly when both agents started
as controlled: when both are controlling, it is the larger one that gives way. -/
theorem larger_controlling_iff {library : Side → Library} {tiebrk : Side → UInt64}
    {h : List (Side × Message)} {c : Config Agent Message} (hrole : role ≠ .unknown)
    (hne : tiebrk .left ≠ tiebrk .right) (run : Run agents (sameRole library role tiebrk) h c)
    (hopp : Opposite c) :
    (∀ i : Side, tiebrk i.other < tiebrk i → (c.party i).lrole = .controlling) ↔
    role = .controlled := by
  obtain ⟨i, htie⟩ := exists_larger hne
  have inv := run_repairs hrole htie run
  have hkeeps := inv.keeps
  obtain ⟨j, hj, hother⟩ := hopp
  rcases Side.eq_or_eq_other i j with rfl | rfl
  · rw [hkeeps] at hother
    refine ⟨fun _ => hother, fun _ k hk => ?_⟩
    rcases Side.eq_or_eq_other j k with rfl | rfl
    · exact hj
    · simp_all [UInt64.lt_asymm]
  · rw [Side.other_other] at hother
    rw [hkeeps] at hj
    constructor
    · intro hall
      exact Role.noConfusion ((hall i htie).symm.trans hother)
    · intro hrole'
      exact Role.noConfusion (hj.symm.trans hrole')

theorem larger_controlling_controlled :
    ∃ h c, Run agents (sameRole (fun _ => .trice) .controlled twoOne) h c ∧ Opposite c ∧
      ∀ i : Side, twoOne i.other < twoOne i → (c.party i).lrole = .controlling := by
  obtain ⟨c, hrun, -, hleft, hright⟩ := conflict_run .trice .controlled (by decide)
  have hopp : Opposite c := ⟨.left, hleft, hright⟩
  exact ⟨_, c, hrun, hopp, (larger_controlling_iff (by decide) (by decide) hrun hopp).mpr rfl⟩

/-- Both controlling: the agent with tie-breaker 1 stays controlling. -/
theorem smaller_stays_controlling :
    ¬ ∀ (library : Side → Library) (role : Role) (tiebrk : Side → UInt64)
      (h : List (Side × Message)) (c : Config Agent Message), role ≠ .unknown →
      tiebrk .left ≠ tiebrk .right → Run agents (sameRole library role tiebrk) h c → Opposite c →
      ∀ i : Side, tiebrk i.other < tiebrk i → (c.party i).lrole = .controlling := by
  intro hall
  obtain ⟨c, hrun, -, hleft, hright⟩ := conflict_run .trice .controlling (by decide)
  have hlarger := hall _ .controlling twoOne _ c (by decide)
    (by decide) hrun ⟨.right, hright, hleft⟩ .left (by decide)
  exact Role.noConfusion (hlarger.symm.trans hleft)

end LibRe.Trice
