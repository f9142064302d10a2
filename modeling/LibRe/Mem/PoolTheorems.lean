/-
LibRe.Mem.PoolTheorems — no entry of a memory pool is lent twice.

A pool is sound if its free list ends and has no entry that a user holds. Borrowing,
releasing what was borrowed and extending keep a pool sound. `memPoolFlush` puts all
entries of the pool on the list without taking those off that are on it: the list then
runs in a circle, unless every entry of the pool was borrowed. `free_list_sound_iff` says
that this is the only way to lose soundness.
-/
import LibRe.Lib.Chain
import LibRe.Lib.Machine
import LibRe.Mem.Pool

namespace LibRe.Mem

open Linked Machine List

/-- The entries on the free list. -/
def FreeList (pool : MemPool) (l : List Nat) : Prop := Chain pool.next pool.freel l

/-- The free list is finite and has no entry twice and none that is lent, and no entry is
lent to two users. -/
def Sound (s : Users) : Prop :=
  ∃ l, FreeList s.pool l ∧ l.Nodup ∧ (∀ e ∈ l, e ∉ s.lent) ∧ s.lent.Nodup

/-- Only borrowed entries are released. -/
def Proper (s : Users) : Call → Prop
  | .release e => e ∈ s.lent
  | _ => True

/-- A flush finds all entries of the pool borrowed. -/
def FlushAllLent (s : Users) : Call → Prop
  | .flush => ∀ e ∈ s.pool.objs, e ∈ s.lent
  | _ => True

/-- A flush leaves all entries of the pool on the free list. -/
def FlushFrees (s : Users) : Call → Prop
  | .flush => ∃ l, FreeList (call s .flush).pool l ∧ ∀ e ∈ (call s .flush).pool.objs, e ∈ l
  | _ => True

/-! ## Pointers -/

variable {pool : MemPool} {e : Nat}

@[simp] theorem length_nextFree (pool : MemPool) (e : Nat) :
    (nextFree pool e).heap.length = pool.heap.length := length_modify _ _ _

theorem nextFree_next (h : e < pool.heap.length) : (nextFree pool e).next e = pool.freel := by
  simp [MemPool.next, nextFree, h]

variable {c : Call} {x : Nat}

theorem nextFree_next_of_ne (h : x ≠ e) : (nextFree pool e).next x = pool.next x := by
  simp [MemPool.next, nextFree, Ne.symm h]

theorem clearMember_next (pool : MemPool) (e x : Nat) :
    (clearMember pool e).next x = pool.next x := by
  simp only [MemPool.next, clearMember, getElem?_modify]
  by_cases hx : e = x
  · grind
  · simp [hx]

@[simp] theorem length_release (pool : MemPool) (e : Nat) :
    (memPoolRelease pool e).heap.length = pool.heap.length := by
  simp [memPoolRelease, clearMember]

theorem release_next (h : e < pool.heap.length) : (memPoolRelease pool e).next e = pool.freel := by
  have hlt : e < (clearMember pool e).heap.length := by simpa [clearMember] using h
  exact nextFree_next hlt

theorem release_next_of_ne (h : x ≠ e) : (memPoolRelease pool e).next x = pool.next x :=
  (nextFree_next_of_ne h).trans (clearMember_next pool e x)

theorem releases_kept (es : List Nat) : ∀ (pool : MemPool),
    (es.foldl memPoolRelease pool).objs = pool.objs ∧
      (es.foldl memPoolRelease pool).heap.length = pool.heap.length ∧
        ∀ x, x ∉ es → (es.foldl memPoolRelease pool).next x = pool.next x := by
  induction es with
  | nil => exact fun pool => ⟨rfl, rfl, fun _ _ => rfl⟩
  | cons e es ih =>
    intro pool
    obtain ⟨hobjs, hlen, hnext⟩ := ih (memPoolRelease pool e)
    refine ⟨hobjs, hlen.trans (length_release pool e), ?_⟩
    intro x hx
    rw [mem_cons, not_or] at hx
    exact (hnext x hx.2).trans (release_next_of_ne hx.1)

/-- Entries released one after the other are in front of the list, the last one first. -/
theorem releases_seg {es : List Nat} (hnodup : es.Nodup) :
    ∀ {pool : MemPool}, (∀ e ∈ es, e < pool.heap.length) →
    Seg (es.foldl memPoolRelease pool).next (es.foldl memPoolRelease pool).freel es.reverse
      pool.freel := by
  induction es with
  | nil => exact fun _ => rfl
  | cons e es ih =>
    intro pool hlt
    obtain ⟨he, hes⟩ := nodup_cons.mp hnodup
    have hlt' : ∀ x ∈ es, x < (memPoolRelease pool e).heap.length := by
      intro x hx
      rw [length_release]
      exact hlt x (mem_cons_of_mem _ hx)
    have hrest := ih hes hlt'
    obtain ⟨-, -, hnext⟩ := releases_kept es (memPoolRelease pool e)
    rw [reverse_cons]
    refine Seg.append hrest ⟨rfl, ?_⟩
    show (es.foldl memPoolRelease (memPoolRelease pool e)).next e = pool.freel
    rw [hnext e he, release_next (hlt e mem_cons_self)]

theorem allocEntry_next (pool : MemPool) : (allocEntry pool).next pool.heap.length =
    pool.freel := by
  refine nextFree_next ?_
  simp

theorem allocEntry_next_of_lt (h : x < pool.heap.length) :
    (allocEntry pool).next x = pool.next x := by
  refine (nextFree_next_of_ne (Nat.ne_of_lt h)).trans ?_
  simp [MemPool.next, getElem?_append_left h]

@[simp] theorem length_allocEntry (pool : MemPool) :
    (allocEntry pool).heap.length = pool.heap.length + 1 := by
  simp [allocEntry]

/-- New entries are in front of the list. -/
theorem allocEntries_freeList (hlist : FreeList pool l) (hlt : ∀ e ∈ l, e < pool.heap.length)
    (num : Nat) :
    FreeList (allocEntries num pool) ((range' pool.heap.length num).reverse ++ l) ∧
      (allocEntries num pool).heap.length = pool.heap.length + num ∧
        (allocEntries num pool).objs = pool.objs := by
  induction num with
  | zero => exact ⟨hlist, rfl, rfl⟩
  | succ num ih =>
    obtain ⟨hchain, hlen, hobjs⟩ := ih
    rw [allocEntries, Function.iterate_succ_apply']
    change FreeList (allocEntry (allocEntries num pool)) _ ∧
      (allocEntry (allocEntries num pool)).heap.length = _ ∧
      (allocEntry (allocEntries num pool)).objs = _
    refine ⟨?_, by rw [length_allocEntry, hlen, add_assoc], hobjs⟩
    rw [range'_concat, reverse_append, one_mul, ← hlen]
    refine ⟨rfl, ?_⟩
    rw [allocEntry_next]
    refine Seg.congr hchain ?_
    intro x hx
    apply allocEntry_next_of_lt
    rcases mem_append.mp hx with hx | hx
    · simp_all
    · grind

/-! ## What every call keeps -/

/-- The free list and the entries that are lent share nothing, and have all entries of
the pool. -/
structure Kept (s : Users) (l : List Nat) : Prop where
  freeList : FreeList s.pool l
  nodup : (l ++ s.lent).Nodup
  lt : ∀ e ∈ l ++ s.lent, e < s.pool.heap.length
  all : ∀ e ∈ s.pool.objs, e ∈ l ++ s.lent
  objs_nodup : s.pool.objs.Nodup

/-- The users of a pool have used it well so far. -/
def KeptSome (s : Users) : Prop := ∃ l, Kept s l

variable {s : Users} {l : List Nat}

theorem Kept.sound (h : Kept s l) : Sound s := by
  obtain ⟨hl, hlent, hdisj⟩ := nodup_append.mp h.nodup
  exact ⟨l, h.freeList, hl, fun e he hlent => hdisj e he e hlent rfl, hlent⟩

/-- The first entry of the list goes to the user. -/
theorem Kept.borrow (h : Kept s l) : ∃ l', Kept (s.lend (memPoolBorrow s.pool)) l' := by
  cases l with
  | nil =>
    have hnone : s.pool.freel = none := h.freeList
    refine ⟨[], ?_⟩
    rw [memPoolBorrow, hnone]
    exact h
  | cons e l =>
    obtain ⟨hhead, hrest⟩ := h.freeList
    have hperm : (l ++ e :: s.lent).Perm (e :: l ++ s.lent) := perm_middle
    refine ⟨l, ?_⟩
    rw [memPoolBorrow, hhead]
    exact
      { freeList := hrest
        nodup := hperm.nodup_iff.mpr h.nodup
        lt := fun x hx => h.lt x (hperm.mem_iff.mp hx)
        all := fun x hx => hperm.mem_iff.mpr (h.all x hx)
        objs_nodup := h.objs_nodup }

/-- New entries are on the list, whether the pool knows of them or not. -/
theorem Kept.newEntries (h : Kept s l) (n : Nat) (hheap : pool.heap = (allocEntries n s.pool).heap)
    (hfreel : pool.freel = (allocEntries n s.pool).freel)
    (hobjs : pool.objs = s.pool.objs ∨ pool.objs = s.pool.objs ++ range' s.pool.heap.length n) :
    Kept { s with pool } ((range' s.pool.heap.length n).reverse ++ l) := by
  obtain ⟨hchain, hlen, -⟩ := allocEntries_freeList h.freeList
    (fun e he => h.lt e (mem_append_left _ he)) n
  have hnext : pool.next = (allocEntries n s.pool).next := by
    grind [MemPool.next]
  have hold : ∀ e ∈ l ++ s.lent, e ∉ range' s.pool.heap.length n := by
    intro e he hrange
    have hlt := h.lt e he
    have hge := (mem_range'_1.mp hrange).1
    omega
  refine ⟨?_, ?_, ?_, ?_, ?_⟩
  · show Chain pool.next pool.freel _
    rw [hnext, hfreel]
    exact hchain
  · rw [append_assoc]
    refine nodup_append.mpr ⟨nodup_reverse.mpr nodup_range', h.nodup, ?_⟩
    rintro e he _ hlent rfl
    exact hold e hlent (mem_reverse.mp he)
  · intro e he
    rw [hheap, hlen]
    rw [append_assoc] at he
    rcases mem_append.mp he with he | he
    · simp_all
    · have hlt := h.lt e he
      omega
  · intro e he
    rw [append_assoc]
    rcases hobjs with hobjs | hobjs
    · exact mem_append_right _ (h.all e (hobjs ▸ he))
    · have he' : e ∈ s.pool.objs ++ range' s.pool.heap.length n := hobjs ▸ he
      rcases mem_append.mp he' with he | he
      · exact mem_append_right _ (h.all e he)
      · exact mem_append_left _ (mem_reverse.mpr he)
  · rcases hobjs with hobjs | hobjs
    · grind [objs_nodup]
    · rw [hobjs]
      refine nodup_append.mpr ⟨h.objs_nodup, nodup_range', ?_⟩
      rintro e he _ hnew rfl
      exact hold e (h.all e he) hnew

theorem Kept.extend (h : Kept s l) (num : Nat) (avail : Avail) :
    ∃ l', Kept { s with pool := (memPoolExtend s.pool num avail).2 } l' := by
  unfold memPoolExtend
  split
  · exact ⟨l, h⟩
  split
  · exact ⟨l, h⟩
  split
  · -- it ran out of memory behind some new entries
    obtain ⟨-, -, hobjs⟩ := allocEntries_freeList h.freeList
      (fun e he => h.lt e (mem_append_left _ he))
      avail.entries
    exact ⟨_, h.newEntries avail.entries rfl rfl (Or.inl hobjs)⟩
  · exact ⟨_, h.newEntries num rfl rfl (Or.inr rfl)⟩

theorem Kept.borrowExtend (h : Kept s l) (avail : Avail) :
    ∃ l', Kept (s.lend (memPoolBorrowExtend s.pool avail)) l' := by
  unfold memPoolBorrowExtend
  cases hborrow : memPoolBorrow s.pool with
  | mk e pool =>
    cases e with
    | some e =>
      have hkept := h.borrow
      rw [hborrow] at hkept
      exact hkept
    | none =>
      -- nothing was on the list
      have hpool : pool = s.pool := by
        unfold memPoolBorrow at hborrow
        cases hfreel : s.pool.freel with
        | some _ | none =>
          simp_all
      rw [hpool]
      obtain ⟨l', hextend⟩ := h.extend (s.pool.nmemb * 2) avail
      exact hextend.borrow

theorem Kept.release (h : Kept s l) (he : e ∈ s.lent) :
    Kept { pool := memPoolRelease s.pool e, lent := s.lent.erase e } (e :: l) := by
  have hperm : (e :: l ++ s.lent.erase e).Perm (l ++ s.lent) :=
    perm_middle.symm.trans (List.Perm.append_left l (perm_cons_erase he).symm)
  have hl : e ∉ l := by
    grind [nodup]
  refine
    { freeList := ⟨rfl, ?_⟩
      nodup := hperm.nodup_iff.mpr h.nodup
      lt := ?_
      all := fun x hx => hperm.mem_iff.mpr (h.all x hx)
      objs_nodup := h.objs_nodup }
  · rw [release_next (h.lt e (mem_append_right _ he))]
    refine Seg.congr h.freeList ?_
    intro x hx
    exact release_next_of_ne fun heq => hl (heq ▸ hx)
  · intro x hx
    rw [length_release]
    exact h.lt x (hperm.mem_iff.mp hx)

/-! ## Flush -/

theorem flush_objs (pool : MemPool) : (memPoolFlush pool).objs = pool.objs :=
  (releases_kept pool.objs pool).1

/-- All entries of the pool are in front of what was on the list. -/
theorem Kept.flush_seg (h : Kept s l) : Seg (memPoolFlush s.pool).next (memPoolFlush s.pool).freel
    s.pool.objs.reverse s.pool.freel :=
  releases_seg h.objs_nodup fun e he => h.lt e (h.all e he)

theorem Kept.flush (h : Kept s l) (hlent : ∀ e ∈ s.pool.objs, e ∈ s.lent) :
    Kept (call s .flush) (s.pool.objs.reverse ++ l) := by
  obtain ⟨hobjs, hlen, hnext⟩ := releases_kept s.pool.objs s.pool
  have hl : ∀ e ∈ l, e ∉ s.pool.objs := by
    intro e he hobj
    exact (nodup_append.mp h.nodup).2.2 e he e (hlent e hobj) rfl
  have hlentnodup := (nodup_append.mp h.nodup).2.1
  have hsplit : (s.pool.objs ++ s.lent.filter fun e => e ∉ s.pool.objs).Perm s.lent := by
    rw [← hlentnodup.sdiff_eq_filter]
    exact subperm_append_diff_self_of_count_le (subperm_ext_iff.mp (h.objs_nodup.subperm hlent))
  have hperm : (s.pool.objs.reverse ++ l ++ s.lent.filter fun e => e ∉ s.pool.objs).Perm
      (l ++ s.lent) := by
    have hfront : (s.pool.objs.reverse ++ l).Perm (l ++ s.pool.objs) :=
      ((reverse_perm _).append_right l).trans perm_append_comm
    refine (hfront.append_right _).trans ?_
    rw [append_assoc]
    exact hsplit.append_left l
  refine
    { freeList := Seg.append h.flush_seg (Seg.congr h.freeList fun x hx => hnext x (hl x hx))
      nodup := hperm.nodup_iff.mpr h.nodup
      lt := ?_
      all := ?_
      objs_nodup := ?_ }
  · intro x hx
    show x < (memPoolFlush s.pool).heap.length
    rw [memPoolFlush, hlen]
    exact h.lt x (hperm.mem_iff.mp hx)
  · intro x hx
    exact hperm.mem_iff.mpr (h.all x (hobjs ▸ hx))
  · show (memPoolFlush s.pool).objs.Nodup
    rw [flush_objs]
    exact h.objs_nodup

/-- An entry of the pool on the list before the flush is met again behind it. -/
theorem Kept.flush_circle (h : Kept s l) (he : e ∈ s.pool.objs) (hl : e ∈ l) (l' : List Nat) :
    ¬ FreeList (memPoolFlush s.pool) l' := by
  obtain ⟨-, -, hnext⟩ := releases_kept s.pool.objs s.pool
  -- the first entry of the pool on the list
  obtain ⟨o, l₁, l₂, hobj, rfl, hfirst⟩ : ∃ o l₁ l₂, o ∈ s.pool.objs ∧ l = l₁ ++ o :: l₂ ∧
      ∀ x ∈ l₁, x ∉ s.pool.objs := by
    have hsome : (l.find? fun x => x ∈ s.pool.objs).isSome := by
      rw [find?_isSome]
      exact ⟨e, hl, decide_eq_true he⟩
    obtain ⟨o, ho⟩ := Option.isSome_iff_exists.mp hsome
    obtain ⟨hobj, l₁, l₂, hsplit, hfirst⟩ := find?_eq_some_iff_append.mp ho
    exact ⟨o, l₁, l₂, of_decide_eq_true hobj, hsplit, fun x hx => by simpa using hfirst x hx⟩
  obtain ⟨q, hseg, hq⟩ := Seg.of_append h.freeList
  cases hq.1
  have hback : Seg (memPoolFlush s.pool).next (memPoolFlush s.pool).freel
      (s.pool.objs.reverse ++ l₁) (some o) :=
    Seg.append h.flush_seg (Seg.congr hseg fun x hx => hnext x (hfirst x hx))
  exact not_chain_of_back hback (mem_append_left _ (mem_reverse.mpr hobj))

/-! ## Runs -/

theorem kept_call (hs : KeptSome s) (hproper : Proper s c) (hflush : FlushAllLent s c) :
    KeptSome (call s c) := by
  obtain ⟨l, h⟩ := hs
  cases c with
  | borrow => exact h.borrow
  | borrowExtend avail => exact h.borrowExtend avail
  | release e => exact ⟨_, h.release hproper⟩
  | extend num avail => exact h.extend num avail
  | flush => exact ⟨_, h.flush hflush⟩

/-- A flush that leaves the pool sound has found all its entries borrowed. -/
theorem flushAllLent_of_sound (hs : KeptSome s) (h : Sound (call s c)) : FlushAllLent s c := by
  obtain ⟨l, hkept⟩ := hs
  cases c with
  | flush =>
    intro e he
    obtain ⟨l', hlist, -⟩ := h
    rcases mem_append.mp (hkept.all e he) with hl | hlent
    · exact absurd hlist (hkept.flush_circle he hl l')
    · exact hlent
  | borrow | borrowExtend _ | release _ | extend _ _ => trivial

theorem flushFrees_of_kept (hs : KeptSome s) (hflush : FlushAllLent s c) : FlushFrees s c := by
  obtain ⟨l, h⟩ := hs
  cases c with
  | flush =>
    refine ⟨_, (h.flush hflush).freeList, ?_⟩
    intro e he
    have hobj : e ∈ s.pool.objs := flush_objs s.pool ▸ he
    exact mem_append_left _ (mem_reverse.mpr hobj)
  | borrow | borrowExtend _ | release _ | extend _ _ => trivial

/-- A new pool: all entries are on the list. -/
theorem alloc_kept {nmemb membsize : Nat} {dh : Option (Bytes → Bytes)} {avail : Avail}
    (h : memPoolAlloc nmemb membsize dh avail = .ok pool) : KeptSome { pool, lent := [] } := by
  unfold memPoolAlloc at h
  split at h
  · cases h
  split at h
  · cases h
  · cases h
    have hempty : Kept { pool := emptyPool membsize dh, lent := [] } [] :=
      ⟨rfl, nodup_nil, (fun _ h => nomatch h), (fun _ h => nomatch h), nodup_nil⟩
    refine ⟨_, hempty.newEntries nmemb rfl rfl (Or.inr ?_)⟩
    exact range_eq_range'

/-- From a new pool on, with only borrowed entries released: in every state the free list
is finite and has no entry twice and none that is lent, no entry is lent to two users, and
every flush leaves all entries of the pool free, if and only if every flush finds all
entries of the pool borrowed. -/
theorem free_list_sound_iff {nmemb membsize : Nat} {dh : Option (Bytes → Bytes)} {avail : Avail}
    {pool : MemPool} (halloc : memPoolAlloc nmemb membsize dh avail = .ok pool) {calls : List Call}
    (hproper : Each call Proper { pool, lent := [] } calls) :
    (Always call Sound { pool, lent := [] } calls ∧ Each call FlushFrees
      { pool, lent := [] } calls) ↔
      Each call FlushAllLent { pool, lent := [] } calls := by
  have hstart := alloc_kept halloc
  have hsound : ∀ s, KeptSome s → Sound s := fun s hs => hs.elim fun l h => h.sound
  have hiff := always_iff_each (fun s c => kept_call) hsound
    (fun s c hs _ => flushAllLent_of_sound hs) hstart hproper
  constructor
  · intro h
    exact hiff.mp h.1
  · intro h
    have hkept := Each.always (fun s c hs hC => kept_call hs hC.1 hC.2) hstart (hproper.and h)
    exact ⟨hiff.mpr h, Each.of_always (fun s c => flushFrees_of_kept) hkept h⟩

/-- Two entries of four bytes. -/
def twoEntries : MemPool where
  nmemb := 2
  membsize := 4
  freel := some 1
  membdh := none
  objs := [0, 1]
  objs_length := rfl
  heap := [⟨none, [0, 0, 0, 0]⟩, ⟨some 0, [0, 0, 0, 0]⟩]

theorem twoEntries_alloc : memPoolAlloc 2 4 none ⟨true, 2⟩ = .ok twoEntries := rfl

/-- Both entries are borrowed, the pool is flushed, and used again. -/
theorem free_list_sound_flush :
    Always call Sound { pool := twoEntries, lent := [] }
      [.borrow, .borrow, .flush, .borrow, .release 1, .extend 1 ⟨true, 1⟩] := by
  have hproper : Each call Proper { pool := twoEntries, lent := [] }
      [.borrow, .borrow, .flush, .borrow, .release 1, .extend 1 ⟨true, 1⟩] :=
    ⟨trivial, trivial, trivial, trivial, mem_cons_self, trivial, trivial⟩
  have hflush : ∀ e ∈ twoEntries.objs, e ∈ [0, 1] := by decide
  exact ((free_list_sound_iff twoEntries_alloc hproper).mpr
    ⟨trivial, trivial, hflush, trivial, trivial, trivial, trivial⟩).1

/-- A flush of a pool with nothing borrowed: then the same entry is lent twice. -/
theorem flush_of_free_entries :
    (¬ ∀ (nmemb membsize : Nat) (dh : Option (Bytes → Bytes)) (avail : Avail) (pool : MemPool)
      (calls : List Call), memPoolAlloc nmemb membsize dh avail = .ok pool →
        Each call Proper { pool, lent := [] } calls →
          Always call Sound { pool, lent := [] } calls ∧
            Each call FlushFrees { pool, lent := [] } calls) ∧
      ([.flush, .borrow, .borrow, .borrow].foldl call { pool := twoEntries, lent := [] }).lent =
        [1, 0, 1] := by
  refine ⟨?_, rfl⟩
  intro hall
  obtain ⟨⟨-, hsound⟩, -⟩ := hall 2 4 none ⟨true, 2⟩ twoEntries [.flush] twoEntries_alloc
    ⟨trivial, trivial⟩
  have hlent : ∀ e ∈ twoEntries.objs, e ∈ ([] : List Nat) :=
    flushAllLent_of_sound (alloc_kept twoEntries_alloc) hsound
  exact nomatch hlent 0 mem_cons_self

end LibRe.Mem
