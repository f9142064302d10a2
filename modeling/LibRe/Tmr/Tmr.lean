/-
LibRe.Tmr.Tmr — timers (`src/tmr/tmr.c`).

The timers that are set stand on one list. A timer without delay looks for its place from the
front of the list, another one from the back; `tmr_poll` takes timers from the front as long
as they are due, and the handler of each may start and cancel timers before the next one is
taken. The result is about what was called, not about the list: when a timer fires, its
latest call has set it for this deadline, and of all timers set at that moment it has the
earliest deadline and, among those with the same deadline, was set first.

Translation notes. One thread; locks and debug data are left out. A handler is a number, and
what it does is a function of all that has happened; a poll that does not come to an end is
covered by the polls that stop after `fuel` timers. `no`, the number of the call that has
set a timer, is not in the source.
-/
import LibRe.Lib.Machine
import LibRe.List.Sort

namespace LibRe.Timers

open Machine List

/-- `struct tmr`, as `tmr_init` leaves it. -/
structure Tmr where
  jfs : UInt64 := 0
  th : Option Nat := none
  active : Bool := false
  no : Nat := 0

/-- A timer was set, cancelled, or fired by a poll that began at `now`. -/
inductive Out where
  | set (t : Nat) (th : Nat) (jfs : UInt64) (no : Nat)
  | cancelled (t : Nat)
  | fired (t : Nat) (th : Nat) (jfs : UInt64) (now : UInt64)

def Out.timer : Out → Nat
  | .set t _ _ _ => t
  | .cancelled t => t
  | .fired t _ _ _ => t

/-- `struct tmrl` with the timers of the thread; the log has the latest entry first. -/
structure Tmrl where
  tmr : Nat → Tmr := fun _ => {}
  list : List Nat := []
  log : List Out := []

@[simp] def Tmrl.update (s : Tmrl) (t : Nat) (tmr : Tmr) : Nat → Tmr :=
  fun u => if u = t then tmr else s.tmr u

/-- The place a timer gets; an element that is linked already is left where it is. -/
def link (s : Tmrl) (t : Nat) (jfs delay : UInt64) (list : List Nat) : List Nat :=
  if t ∈ list then list
  else if delay = 0 then Lists.insertAhead (fun u => (s.tmr u).jfs > jfs) t list
  else Lists.insertBehind (fun u => (s.tmr u).jfs ≤ jfs) t list

/-- `tmr_startcont_dbg`; `now` is the time if it is to be read. -/
def tmrStartcont (s : Tmrl) (t : Nat) (delay : UInt64) (now : Option UInt64) (th : Option Nat) :
    Tmrl :=
  let tmr := s.tmr t
  if !tmr.active && th.isNone then s
  else
    let list := if tmr.th.isSome then s.list.erase t else s.list
    match th with
    | none =>
      { tmr := s.update t { tmr with th := none, active := false }, list,
        log := .cancelled t :: s.log }
    | some h =>
      let jfs := now.getD tmr.jfs + delay
      { tmr := s.update t { jfs, th, active := true, no := s.log.length },
        list := link s t jfs delay list
        log := .set t h jfs s.log.length :: s.log }

/-- A call of `tmr_start`, `tmr_continue` or `tmr_cancel`. -/
inductive Call where
  | start (t : Nat) (delay now : UInt64) (th : Option Nat)
  | cont (t : Nat) (delay : UInt64) (th : Option Nat)
  | cancel (t : Nat)

def call (s : Tmrl) : Call → Tmrl
  | .start t delay now th => tmrStartcont s t delay (some now) th
  | .cont t delay th => tmrStartcont s t delay none th
  | .cancel t => tmrStartcont s t 0 (some 0) none

/-- The timer on the front of the list is unlinked, and its handler called. -/
def fire (s : Tmrl) (t h : Nat) (jfs : UInt64) : Tmrl :=
  { tmr := s.update t { s.tmr t with th := none }, list := s.list.erase t,
    log := .fired t h (s.tmr t).jfs jfs :: s.log }

/-- The loop of `tmr_poll`, which began at `jfs`; `acts` says what a handler calls. -/
def tmrPoll (acts : List Out → Nat → List Call) (jfs : UInt64) : Nat → Tmrl → Tmrl
  | 0, s => s
  | fuel + 1, s =>
    match s.list with
    | [] => s
    | t :: list =>
      if (s.tmr t).jfs > jfs then s
      else
        match (s.tmr t).th with
        | none => tmrPoll acts jfs fuel { s with list }
        | some h =>
          let s := fire s t h jfs
          tmrPoll acts jfs fuel ((acts s.log h).foldl call s)

inductive Event where
  | call (c : Call)
  | poll (jfs : UInt64) (fuel : Nat)

def step (acts : List Out → Nat → List Call) (s : Tmrl) : Event → Tmrl
  | .call c => call s c
  | .poll jfs fuel => tmrPoll acts jfs fuel s

/-! ## What is right -/

/-- What last happened to a timer. -/
def latest (log : List Out) (t : Nat) : Option Out := log.find? fun out => out.timer = t

/-- The list is sorted by deadline, and each timer is on it at most once, and exactly when
its handler is set. -/
def Listed (s : Tmrl) : Prop :=
  s.list.Pairwise (fun t u => (s.tmr t).jfs ≤ (s.tmr u).jfs) ∧ s.list.Nodup ∧ ∀ t, t ∈ s.list ↔
    (s.tmr t).th.isSome

/-- A timer fires when its deadline has passed and its latest call has set it so, in front of
every other timer that is set. -/
def FiredRight : List Out → Prop
  | [] => True
  | .fired t th jfs now :: log =>
    jfs ≤ now ∧ (∃ no, latest log t = some (.set t th jfs no) ∧ ∀ u th' jfs' no', u ≠ t →
      latest log u = some (.set u th' jfs' no') → jfs < jfs' ∨ jfs = jfs' ∧ no < no') ∧
      FiredRight log
  | .set _ _ _ no :: log => no = log.length ∧ FiredRight log
  | .cancelled _ :: log => FiredRight log

/-! ## The invariant -/

/-- An earlier deadline, or the same one and an earlier call. -/
def Before (a b : Tmr) : Prop := a.jfs < b.jfs ∨ a.jfs = b.jfs ∧ a.no < b.no

theorem Before.trans {a b c : Tmr} (hab : Before a b) (hbc : Before b c) : Before a c := by
  simp only [Before, UInt64.lt_iff_toNat_lt, ← UInt64.toNat_inj] at *
  omega

theorem Before.irrefl (a : Tmr) : ¬ Before a a := by
  simp [Before]

theorem Before.le {a b : Tmr} (h : Before a b) : a.jfs ≤ b.jfs :=
  h.elim UInt64.le_of_lt fun h => UInt64.le_of_eq h.1

structure Sound (s : Tmrl) : Prop where
  linked : ∀ t, t ∈ s.list ↔ (s.tmr t).th.isSome
  live : ∀ t, (s.tmr t).th.isSome → (s.tmr t).active ∧ (s.tmr t).no < s.log.length
  sorted : s.list.Pairwise fun t u => Before (s.tmr t) (s.tmr u)
  latest : ∀ t th jfs no, latest s.log t = some (.set t th jfs no) ↔ (s.tmr t).th = some th ∧
    (s.tmr t).jfs = jfs ∧ (s.tmr t).no = no
  right : FiredRight s.log

@[simp] theorem latest_cons (out : Out) (log : List Out) (t : Nat) :
    latest (out :: log) t = if out.timer = t then some out else latest log t := by
  by_cases h : out.timer = t <;> simp [latest, h]

variable {s : Tmrl}

section

variable (h : Sound s)
include h

theorem Sound.nodup : s.list.Nodup :=
  h.sorted.imp fun {t u} hbefore (heq : t = u) => Before.irrefl _ (heq ▸ hbefore)

theorem Sound.mem_erase {t u : Nat} : u ∈ s.list.erase t ↔ u ≠ t ∧ u ∈ s.list :=
  h.nodup.mem_erase_iff

/-- The timers on the list besides `t` are as they were. -/
theorem Sound.sorted_erase (t : Nat) (tmr : Tmr) :
    (s.list.erase t).Pairwise fun u v => Before (s.update t tmr u) (s.update t tmr v) := by
  refine (h.sorted.sublist erase_sublist).imp_of_mem fun hu hv hbefore => ?_
  simpa [(h.mem_erase.mp hu).1, (h.mem_erase.mp hv).1] using hbefore

/-- A timer is taken off the list, because it is cancelled or fires. -/
theorem Sound.unset {t : Nat} {tmr : Tmr} (hth : tmr.th = none) {out : Out} (ht : out.timer = t)
    (hout : ∀ th jfs no, out ≠ .set t th jfs no) (hright : FiredRight (out :: s.log)) :
    Sound { tmr := s.update t tmr, list := s.list.erase t, log := out :: s.log } where
  linked u := by
    by_cases hu : u = t <;> simp [h.mem_erase, h.linked, hu, hth]
  live u := by
    have := h.live u
    by_cases hu : u = t
    · simp [hu, hth]
    · simp [hu]
      grind
  sorted := h.sorted_erase t tmr
  latest u th jfs no := by
    by_cases hu : u = t
    · simp [hu, hth, ht, hout]
    · simp [hu, ht, Ne.symm hu, h.latest]
  right := hright

/-- Both searches find the place behind the timers with the same deadline or an earlier one. -/
theorem Sound.sorted_link (t : Nat) {tmr : Tmr} (hno : tmr.no = s.log.length) (delay : UInt64) :
    (link s t tmr.jfs delay (s.list.erase t)).Pairwise fun u v => Before (s.update t tmr u)
    (s.update t tmr v) := by
  have hrest := h.sorted_erase t tmr
  have hother : ∀ u ∈ s.list.erase t, s.update t tmr u = s.tmr u ∧ (s.tmr u).no < tmr.no := by
    intro u hu
    obtain ⟨hne, hmem⟩ := h.mem_erase.mp hu
    exact ⟨if_neg hne, hno ▸ (h.live u ((h.linked u).mp hmem)).2⟩
  have hself : s.update t tmr t = tmr := if_pos rfl
  have hle : ∀ u ∈ s.list.erase t, (s.tmr u).jfs ≤ tmr.jfs → Before (s.update t tmr u)
      (s.update t tmr t) := by
    intro u hu hjfs
    rw [hself, (hother u hu).1]
    exact (UInt64.lt_or_eq_of_le hjfs).imp id fun heq => ⟨heq, (hother u hu).2⟩
  have hlt : ∀ u ∈ s.list.erase t, tmr.jfs < (s.tmr u).jfs → Before (s.update t tmr t)
      (s.update t tmr u) := by
    intro u hu hjfs
    rw [hself, (hother u hu).1]
    exact .inl hjfs
  unfold link
  split
  · exact hrest
  · split
    · exact Lists.insertAhead_pairwise (by exact fun _ _ _ => Before.trans) hrest
        (by simpa using hlt) (by simpa using hle)
    · exact Lists.insertBehind_pairwise (by exact fun _ _ _ => Before.trans) hrest
        (by simpa using hle) (by simpa using hlt)

/-- A timer is set, whether it was before or not. -/
theorem Sound.set (t th : Nat) (jfs delay : UInt64) :
    Sound { tmr := s.update t { jfs, th := some th, active := true, no := s.log.length }
            list := link s t jfs delay (s.list.erase t)
            log := .set t th jfs s.log.length :: s.log } where
  linked u := by
    have : t ∉ s.list.erase t := by simp [h.mem_erase]
    by_cases hu : u = t <;> simp [link, this, hu] <;> split <;> simp [h.mem_erase, h.linked, hu]
  live u := by
    have := h.live u
    by_cases hu : u = t
    · simp [hu]
    · simp [hu]
      grind
  sorted := h.sorted_link t rfl delay
  latest u th' jfs' no := by
    by_cases hu : u = t
    · simp [Out.timer, hu]
    · simp [Out.timer, hu, Ne.symm hu, h.latest]
  right := ⟨rfl, h.right⟩

theorem call_sound (c : Call) : Sound (call s c) := by
  have hall : ∀ t delay now th, Sound (tmrStartcont s t delay now th) := by
    intro t delay now th
    have hlist : (if (s.tmr t).th.isSome then s.list.erase t else s.list) = s.list.erase t := by
      split
      · rfl
      · exact (erase_of_not_mem (by simp_all [h.linked])).symm
    unfold tmrStartcont
    simp only [hlist]
    split
    · exact h
    · cases th with
      | none => exact h.unset rfl rfl (by simp) h.right
      | some th => exact h.set t th _ delay
  cases c with
  | start t delay now th => exact hall t delay (some now) th
  | cont t delay th => exact hall t delay none th
  | cancel t => exact hall t 0 (some 0) none

theorem fire_sound {t th : Nat} {list : List Nat} {jfs : UInt64} (hlist : s.list = t :: list)
    (hdue : (s.tmr t).jfs ≤ jfs) (hth : (s.tmr t).th = some th) : Sound (fire s t th jfs) := by
  refine h.unset rfl rfl (by simp) ⟨hdue, ⟨(s.tmr t).no, by simp [h.latest, hth],
    fun u th' jfs' no' hu hset => ?_⟩, h.right⟩
  rw [h.latest] at hset
  obtain ⟨hu', rfl, rfl⟩ := hset
  have hmem : u ∈ s.list := (h.linked u).mpr (by simp [hu'])
  have hsorted := h.sorted
  rw [hlist] at hmem hsorted
  exact (pairwise_cons.mp hsorted).1 u ((mem_cons.mp hmem).resolve_left hu)

end

theorem calls_sound (cs : List Call) : ∀ {s : Tmrl}, Sound s → Sound (cs.foldl call s) := by
  induction cs with
  | nil => simp
  | cons c cs ih => exact fun h => ih (call_sound h c)

theorem poll_sound (acts : List Out → Nat → List Call) (jfs : UInt64) (fuel : Nat) :
    ∀ {s : Tmrl}, Sound s → Sound (tmrPoll acts jfs fuel s) := by
  induction fuel with
  | zero => exact id
  | succ fuel ih =>
    intro s h
    unfold tmrPoll
    split
    · exact h
    rename_i t list hlist
    split
    · exact h
    rename_i hdue
    split
    · -- a timer on the list has a handler
      have := (h.linked t).mp (by simp [hlist])
      simp_all
    · rename_i th hth
      exact ih (calls_sound _ (fire_sound h hlist (by simpa using hdue) hth))

theorem Sound.listed (h : Sound s) : Listed s := ⟨h.sorted.imp Before.le, h.nodup, h.linked⟩

/-- In every run of calls and polls, whatever the handlers do, the list is sorted and holds
exactly the timers that are set, and every timer that fires does so rightly. -/
theorem timers_listed_and_fired (acts : List Out → Nat → List Call) (events : List Event) :
    Always (step acts) (fun s => Listed s ∧ FiredRight s.log) {} events := by
  have hstart : Sound {} := by
    constructor <;> simp [Timers.latest, FiredRight]
  have hstep : ∀ s e, Sound s → True → Sound (step acts s e) := by
    intro s e h _
    cases e with
    | call c => exact call_sound h c
    | poll jfs fuel => exact poll_sound acts jfs fuel h
  exact (Each.always hstep hstart each_true).mono fun s h => ⟨h.listed, h.right⟩

end LibRe.Timers
