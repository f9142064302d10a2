/-
LibRe.Mem.Pool — pools of pre-allocated memory (`src/mem/mem_pool.c`).

A pool owns a number of entries, each with a member. Entries that are not in use are on
a list that is threaded through the entries themselves. Borrowing takes the first entry
off the list, releasing clears the member and puts the entry in front; a flush does this
with all entries of the pool.

Translation notes. An address is the number of the entry, in the order in which entries
were allocated; `heap` has all entries there ever were, also those that `mem_pool_extend`
allocated before it ran out of memory and that only the list knows. How many allocations
succeed is given to the functions that allocate (`Avail`). Counts are natural numbers: that
`nmemb + num`, and the size of an array of so many pointers, fit into a `size_t` is taken for
granted. The lock makes each function one step and is left out.
-/
import LibRe.Mbuf.Mbuf

namespace LibRe.Mem

/-- `struct mem_pool_entry` -/
structure MemPoolEntry where
  next : Option Nat
  member : Bytes

/-- `struct mem_pool`, with the memory its entries are in. -/
structure MemPool where
  nmemb : Nat
  membsize : Nat
  freel : Option Nat
  membdh : Option (Bytes → Bytes)
  objs : List Nat
  objs_length : objs.length = nmemb
  heap : List MemPoolEntry

/-- What `mem_zalloc` gives: the array of pointers, and so many entries with members. -/
structure Avail where
  array : Bool
  entries : Nat
  deriving DecidableEq, Repr

variable (pool : MemPool) (e : Nat)

/-- `e->next` -/
def MemPool.next : Option Nat := (pool.heap[e]?).bind MemPoolEntry.next

/-- `next_free` -/
def nextFree : MemPool :=
  { pool with
    heap := pool.heap.modify e fun entry => { entry with next := pool.freel }
    freel := some e }

/-- A new entry, put on the list at once. -/
def allocEntry : MemPool :=
  nextFree
    { pool with heap := pool.heap ++ [{ next := none, member := List.replicate pool.membsize 0 }] }
    pool.heap.length

/-- The loop that allocates `num` entries. -/
def allocEntries (num : Nat) (pool : MemPool) : MemPool := allocEntry^[num] pool

/-- A pool before its entries are allocated. -/
def emptyPool (membsize : Nat) (dh : Option (Bytes → Bytes)) : MemPool where
  nmemb := 0
  membsize := membsize
  freel := none
  membdh := dh
  objs := []
  objs_length := rfl
  heap := []

/-- `mem_pool_alloc` -/
def memPoolAlloc (nmemb membsize : Nat) (dh : Option (Bytes → Bytes)) (avail : Avail) :
    Except Errno MemPool :=
  if nmemb = 0 ∨ membsize = 0 then .error .EINVAL
  else if ¬ avail.array ∨ avail.entries < nmemb then .error .ENOMEM
  else
    .ok { allocEntries nmemb (emptyPool membsize dh) with
      nmemb, objs := List.range nmemb, objs_length := List.length_range }

/-- `mem_pool_extend`: if it fails, the entries it has allocated stay on the list. -/
def memPoolExtend (num : Nat) (avail : Avail) : Option Errno × MemPool :=
  if num = 0 then (some .EINVAL, pool)
  else if ¬ avail.array then (some .ENOMEM, pool)
  else if avail.entries < num then (some .ENOMEM, allocEntries avail.entries pool)
  else
    (none,
      { allocEntries num pool with
        nmemb := pool.nmemb + num
        objs := pool.objs ++ List.range' pool.heap.length num
        objs_length := by rw [List.length_append, List.length_range', pool.objs_length] })

/-- `mem_pool_borrow` -/
def memPoolBorrow : Option Nat × MemPool :=
  match pool.freel with
  | some e => (some e, { pool with freel := pool.next e })
  | none => (none, pool)

/-- `mem_pool_borrow_extend` -/
def memPoolBorrowExtend (avail : Avail) : Option Nat × MemPool :=
  match memPoolBorrow pool with
  | (some e, pool) => (some e, pool)
  | (none, pool) => memPoolBorrow (memPoolExtend pool (pool.nmemb * 2) avail).2

/-- `memset(xs, 0, n)` -/
def clear (xs : Bytes) (n : Nat) : Bytes := List.replicate n 0 ++ xs.drop n

/-- The destructor is called on the member, and the member is cleared. -/
def clearMember : MemPool :=
  { pool with
    heap := pool.heap.modify e fun entry =>
      { entry with
        member := clear (match pool.membdh with
          | some dh => dh entry.member
          | none => entry.member) pool.membsize } }

/-- `mem_pool_release` -/
def memPoolRelease : MemPool := nextFree (clearMember pool e) e

/-- `mem_pool_flush` -/
def memPoolFlush : MemPool := pool.objs.foldl memPoolRelease pool

/-! ## Users of a pool -/

/-- A pool, and the entries its users hold. -/
structure Users where
  pool : MemPool
  lent : List Nat

/-- One call of a user. -/
inductive Call where
  | borrow
  | borrowExtend (avail : Avail)
  | release (e : Nat)
  | extend (num : Nat) (avail : Avail)
  | flush
  deriving DecidableEq, Repr

/-- A user has got the entry, or nothing. -/
def Users.lend (s : Users) (r : Option Nat × MemPool) : Users :=
  { pool := r.2, lent := r.1.toList ++ s.lent }

/-- What a call does. A flush takes all entries of the pool back from the users. -/
def call (s : Users) : Call → Users
  | .borrow => s.lend (memPoolBorrow s.pool)
  | .borrowExtend avail => s.lend (memPoolBorrowExtend s.pool avail)
  | .release e => { pool := memPoolRelease s.pool e, lent := s.lent.erase e }
  | .extend num avail => { s with pool := (memPoolExtend s.pool num avail).2 }
  | .flush => { pool := memPoolFlush s.pool, lent := s.lent.filter fun e => e ∉ s.pool.objs }

end LibRe.Mem
