/-
LibRe.Async.Async — work items between submitters, worker threads and the main thread.

A step is what a thread does between taking a lock and releasing it. An item goes
round: free list, work list, current list, worker, message queue, free list. A
cancellation takes items out of the round while a worker or a message still has them.
-/
import LibRe.Lib.Machine

namespace LibRe.Async

open Function (update)

/-- A work item. Both handlers are named by the submission that brought them. -/
structure AsyncWork where
  workh : Option Nat := none
  cb : Option Nat := none
  err : Int := 0
  id : Int := 0

/-- What the application sees. -/
inductive Event where
  | submitted (n : Nat) (id : Int)
  | work (n : Nat)
  | callback (n : Nat) (err : Int)
  | cancelled (id : Int)
  deriving DecidableEq

/-- The main thread in `queueh`: calling the callback under the lock of the item, or
between the two locks. -/
inductive Queueh where
  | idle
  | calling (w : Nat)
  | moving (w : Nat)
  deriving DecidableEq

/-- The worker threads are told apart by the item they have: `taken` before its work
handler, `ran` behind it. `cancelling` has the items a cancellation has still to visit;
it holds the lock of the lists. The log has its newest event first. -/
structure ReAsync where
  workers : Nat
  works : Nat → AsyncWork := fun _ => {}
  alloc : Nat := workers
  freel : List Nat := List.range workers
  workl : List Nat := []
  curl : List Nat := []
  taken : List Nat := []
  ran : List Nat := []
  mqueue : List Nat := []
  queueh : Queueh := .idle
  cancelling : Option (Int × List Nat) := none
  submissions : Nat := 0
  log : List Event := []

inductive Step where
  | submit (id : Int) (workh cb mem : Bool)
  | take
  | run (w : Nat) (err : Int)
  | push (w : Nat) (ok : Bool)
  | handle
  | called
  | moved
  | cancel (id : Int)
  | cancelNext

/-- `re_async` with an item in hand. -/
def ReAsync.append (s : ReAsync) (w : Nat) (id : Int) (workh cb : Bool) : ReAsync :=
  let given (h : Bool) := if h then some s.submissions else none
  { s with
    works := update s.works w { s.works w with workh := given workh, cb := given cb, id }
    workl := s.workl ++ [w]
    submissions := s.submissions + 1
    log := .submitted s.submissions id :: s.log }

/-- `list_move` to the free list, from whichever list the item is on. -/
def ReAsync.free (s : ReAsync) (w : Nat) : ReAsync :=
  { s with
    freel := s.freel.erase w ++ [w]
    workl := s.workl.erase w
    curl := s.curl.erase w }

/-- A cancellation meets the item `w`; one on the current list stays there, for `queueh`. -/
def ReAsync.cancelItem (s : ReAsync) (w : Nat) (rest : List Nat) (id : Int) : ReAsync :=
  let t := { s with
    works := update s.works w { s.works w with workh := none, cb := none, id := 0 }
    cancelling := some (id, rest) }
  if w ∈ s.workl then t.free w else t

/-- A step that its thread cannot take now changes nothing. -/
def step (s : ReAsync) : Step → ReAsync
  | .submit id workh cb mem =>
    match s.cancelling, s.freel with
    | none, w :: rest => { s with freel := rest }.append w id workh cb
    | none, [] => if mem then { s with alloc := s.alloc + 1 }.append s.alloc id workh cb else s
    | some _, _ => s
  | .take =>
    match s.cancelling, s.workl with
    | none, w :: rest =>
      if s.taken.length + s.ran.length < s.workers then
        { s with workl := rest, curl := s.curl ++ [w], taken := w :: s.taken }
      else s
    | _, _ => s
  | .run w err =>
    if w ∈ s.taken then
      let t := { s with taken := s.taken.erase w, ran := w :: s.ran }
      match (s.works w).workh with
      | some n =>
        { t with
          works := update s.works w { s.works w with err, workh := none }
          log := .work n :: s.log }
      | none => t
    else s
  | .push w ok =>
    if s.cancelling = none ∧ w ∈ s.ran then
      -- the result of the push is not looked at
      { s with ran := s.ran.erase w, mqueue := s.mqueue ++ if ok then [w] else [] }
    else s
  | .handle =>
    match s.queueh, s.mqueue with
    | .idle, w :: rest =>
      match (s.works w).cb with
      | some n =>
        { s with mqueue := rest, queueh := .calling w, log := .callback n (s.works w).err :: s.log }
      | none => { s with mqueue := rest, queueh := .moving w }
    | _, _ => s
  | .called =>
    match s.queueh with
    | .calling w =>
      { s with works := update s.works w { s.works w with cb := none }, queueh := .moving w }
    | _ => s
  | .moved =>
    match s.cancelling, s.queueh with
    | none, .moving w => { s with queueh := .idle }.free w
    | _, _ => s
  | .cancel id =>
    if s.cancelling = none then { s with cancelling := some (id, s.workl ++ s.curl) } else s
  | .cancelNext =>
    match s.cancelling with
    | some (id, w :: rest) =>
      if (s.works w).id ≠ id then { s with cancelling := some (id, rest) }
      -- the lock of the item is held while its callback runs
      else if s.queueh = .calling w then s
      else s.cancelItem w rest id
    | some (id, []) => { s with cancelling := none, log := .cancelled id :: s.log }
    | none => s

/-! ## What holds of a log -/

/-- Submission `n` was made under an identifier before that was cancelled. -/
def Cancelled (n : Nat) : List Event → Prop
  | [] => False
  | e :: log => (∃ id, e = .cancelled id ∧ .submitted n id ∈ log) ∨ Cancelled n log

/-- Each handler of a submission is called once at most, the callback not behind a
cancellation. -/
def Proper : List Event → Prop
  | [] => True
  | .work n :: log => .work n ∉ log ∧ Proper log
  | .callback n _ :: log => (∀ err, .callback n err ∉ log) ∧ ¬ Cancelled n log ∧ Proper log
  | _ :: log => Proper log

/-- Every item is on exactly one of the three lists. -/
def OnOneList (s : ReAsync) : Prop :=
  ∀ w, s.freel.count w + s.workl.count w + s.curl.count w = if w < s.alloc then 1 else 0

/-! ## The invariant -/

/-- The items `queueh` has. -/
def Queueh.items : Queueh → List Nat
  | .idle => []
  | .calling w | .moving w => [w]

structure Sound (s : ReAsync) : Prop where
  proper : Proper s.log
  lists : OnOneList s
  -- a worker, the queue or the main thread has an item of the current list, each its own
  hands : ∀ w, s.taken.count w + s.ran.count w + s.mqueue.count w + s.queueh.items.count w ≤
    s.curl.count w
  fresh : ∀ n, s.submissions ≤ n → .work n ∉ s.log ∧ (∀ err, .callback n err ∉ s.log) ∧
    ∀ id, .submitted n id ∉ s.log
  workh : ∀ w n, (s.works w).workh = some n → n < s.submissions ∧ .work n ∉ s.log ∧
    ∀ v, (s.works v).workh = some n → v = w
  cb : ∀ w n, (s.works w).cb = some n → n < s.submissions ∧ 0 < s.workl.count w + s.curl.count w ∧
    (∀ v, (s.works v).cb = some n → v = w) ∧ (∀ id, .submitted n id ∈ s.log → (s.works w).id = id) ∧
    ¬ Cancelled n s.log ∧ (∀ id rest, s.cancelling = some (id, rest) →
      (s.works w).id = id → w ∈ rest) ∧
    s.queueh ≠ .moving w ∧ (s.queueh = .calling w ∨ ∀ err, .callback n err ∉ s.log)

variable {s : ReAsync} {w n : Nat}

/-- Handlers are taken out of an item. -/
theorem Sound.clear (h : Sound s) (w : Nat) {x : AsyncWork}
    (hworkh : ∀ n, x.workh = some n → (s.works w).workh = some n)
    (hcb : ∀ n, x.cb = some n → (s.works w).cb = some n ∧ x.id = (s.works w).id) :
    Sound { s with works := update s.works w x } :=
  { h with
    workh := fun v n hv => by
      have := h.workh v n
      grind [update]
    cb := fun v n hv => by
      have := h.cb v n
      grind [update] }

/-- An item that nobody has goes to the free list, without a callback. -/
theorem Sound.free (h : Sound s) (hon : 0 < s.freel.count w + s.workl.count w + s.curl.count w)
    (hcb : ∀ n, (s.works w).cb ≠ some n)
    (hhand : s.taken.count w + s.ran.count w + s.mqueue.count w + s.queueh.items.count w = 0) :
    Sound (s.free w) := by
  unfold ReAsync.free
  exact { h with
    lists := fun v => by
      have := h.lists v
      grind
    hands := fun v => by grind [h.hands v]
    cb := fun v n hv => by grind [h.cb v n hv] }

theorem Cancelled.submitted : ∀ {log : List Event}, Cancelled n log → ∃ id, .submitted n id ∈ log
  | _ :: _, .inl ⟨id, _, h⟩ => ⟨id, .tail _ h⟩
  | _ :: _, .inr h => h.submitted.imp fun _ => .tail _

/-- An item that nobody has is submitted. -/
theorem Sound.append (h : Sound s) (hcan : s.cancelling = none) {x : AsyncWork}
    (hx : ∀ n, x.workh = some n ∨ x.cb = some n → n = s.submissions)
    {freel : List Nat} {alloc : Nat} (hw : s.workl.count w + s.curl.count w = 0)
    (hlists : ∀ v, freel.count v + (s.workl ++ [w]).count v + s.curl.count v =
      if v < alloc then 1 else 0) :
    Sound { s with
      freel, alloc
      works := update s.works w x
      workl := s.workl ++ [w]
      submissions := s.submissions + 1
      log := .submitted s.submissions x.id :: s.log } := by
  have hn := h.fresh s.submissions (le_refl _)
  have hcancelled : ¬ Cancelled s.submissions s.log := fun hc => hc.submitted.elim hn.2.2
  have hhand := h.hands w
  exact { h with
    lists := hlists
    fresh := fun n hle => by grind [h.fresh n (Nat.le_of_succ_le hle)]
    workh := fun v n hv => by
      have := h.workh
      grind [update]
    cb := fun v n hv => by
      have := h.cb
      grind [Cancelled, update, Queueh.items] }

/-! ## The steps -/

section

variable (h : Sound s)
include h

theorem submit_sound (id : Int) (workh cb mem : Bool) :
    Sound (step s (.submit id workh cb mem)) := by
  have hlists := h.lists
  simp only [step]
  split
  · rename_i w rest hcan hl
    simp only [OnOneList, hl] at hlists
    refine h.append hcan (by simp; grind) ?_ fun v => ?_ <;> grind
  · rename_i hcan hl
    simp only [OnOneList, hl] at hlists
    split
    · refine h.append hcan (by simp; grind) ?_ fun v => ?_ <;> grind
    · exact h
  · exact h

theorem take_sound : Sound (step s .take) := by
  have hlists := h.lists
  simp only [step]
  split
  · split
    · exact { h with
        lists := fun v => by grind [hlists v]
        hands := fun v => by grind [h.hands v]
        cb := fun v n hv => by grind [h.cb v n hv] }
    · exact h
  · exact h

theorem run_sound (w : Nat) (err : Int) : Sound (step s (.run w err)) := by
  simp only [step]
  split
  · have hran : Sound { s with taken := s.taken.erase w, ran := w :: s.ran } :=
      { h with hands := fun v => by grind [h.hands v] }
    split
    · rename_i n hn
      have hclear := hran.clear w (x := { s.works w with err, workh := none }) (by simp) (by simp)
      exact { hclear with
        proper := ⟨(h.workh w n hn).2.1, h.proper⟩
        fresh := fun m hm => by grind [h.fresh m hm, h.workh w n hn]
        workh := fun v m hv => by grind [hclear.workh v m hv, h.workh w n hn, update]
        cb := fun v m hv => by grind [hclear.cb v m hv, Cancelled] }
    · exact hran
  · exact h

theorem push_sound (w : Nat) (ok : Bool) : Sound (step s (.push w ok)) := by
  simp only [step]
  split
  · exact { h with hands := fun v => by grind [h.hands v] }
  · exact h

theorem handle_sound : Sound (step s .handle) := by
  simp only [step]
  split
  · rename_i w rest _ _
    have hhands : ∀ v, s.taken.count v + s.ran.count v + rest.count v + [w].count v ≤ s.curl.count
        v := fun v => by
      grind [h.hands v]
    split
    · rename_i n hn
      have hcb := h.cb w n hn
      exact { h with
        proper := by grind [h.proper, Proper]
        hands := hhands
        fresh := fun m hm => by grind [h.fresh m hm]
        workh := fun v m hv => by grind [h.workh v m hv]
        cb := fun v m hv => by grind [h.cb v m hv, Cancelled] }
    · exact { h with
        hands := hhands
        cb := fun v n hv => by grind [h.cb v n hv] }
  · exact h

theorem called_sound : Sound (step s .called) := by
  simp only [step]
  split
  · rename_i w hq
    have hclear := h.clear w (x := { s.works w with cb := none }) (by simp) (by simp)
    exact { hclear with
      hands := fun v => by grind [h.hands v, Queueh.items]
      cb := fun v n hv => by grind [hclear.cb v n hv, update] }
  · exact h

theorem moved_sound : Sound (step s .moved) := by
  simp only [step]
  split
  · rename_i w _ hq
    have hhands := h.hands
    have hidle : Sound { s with queueh := .idle } :=
      { h with
        hands := fun v => by grind [Queueh.items]
        cb := fun v n hv => by grind [h.cb v n hv] }
    have hon := h.lists w
    refine hidle.free ?_ (fun n hn => (h.cb w n hn).2.2.2.2.2.2.1 hq) ?_ <;> grind [Queueh.items]
  · exact h

theorem cancelNext_sound : Sound (step s .cancelNext) := by
  simp only [step]
  split
  · rename_i id w rest hcan
    split
    · exact { h with cb := fun v n hv => by grind [h.cb v n hv] }
    split
    · exact h
    have hclear := h.clear w (x := { s.works w with workh := none, cb := none, id := 0 })
      (by simp) (by simp)
    have ht : Sound { s with
        works := update s.works w { s.works w with workh := none, cb := none, id := 0 }
        cancelling := some (id, rest) } :=
      { hclear with cb := fun v n hv => by grind [hclear.cb v n hv, update] }
    unfold ReAsync.cancelItem
    split
    · have hon := h.lists w
      have hhands := h.hands w
      refine ht.free ?_ (by simp) ?_ <;> grind
    · exact ht
  · -- the cancellation has visited every item
    exact { h with
      proper := h.proper
      fresh := fun m hm => by grind [h.fresh m hm]
      workh := fun v m hv => by grind [h.workh v m hv]
      cb := fun v m hv => by grind [h.cb v m hv, Cancelled] }
  · exact h

end

theorem step_sound (s : ReAsync) (i : Step) (h : Sound s) : Sound (step s i) := by
  cases i with
  | submit id workh cb mem => exact submit_sound h id workh cb mem
  | take => exact take_sound h
  | run w err => exact run_sound h w err
  | push w ok => exact push_sound h w ok
  | handle => exact handle_sound h
  | called => exact called_sound h
  | moved => exact moved_sound h
  | cancel id =>
    simp only [step]
    split
    · exact { h with cb := fun v n hv => by grind [h.cb v n hv] }
    · exact h
  | cancelNext => exact cancelNext_sound h

theorem start_sound (workers : Nat) : Sound { workers } := by
  have hcount : ∀ w, (List.range workers).count w = if w < workers then 1 else 0 := fun w => by
    rw [List.nodup_range.count]
    simp
  constructor <;> simp [OnOneList, Proper, Queueh.items, hcount]

/-- In every run, at every moment: each item is on one list, each handler has run once at
most, and no callback comes after a cancellation. -/
theorem items_and_handlers (workers : Nat) (steps : List Step) :
    Machine.Always step (fun s => OnOneList s ∧ Proper s.log) { workers } steps :=
  (Machine.Each.always (fun s i h _ => step_sound s i h)
    (start_sound workers) Machine.each_true).mono fun _ h => ⟨h.lists, h.proper⟩

end LibRe.Async
