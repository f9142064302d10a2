/-
LibRe.Hash.Hash — hash tables (`src/hash/hash.c`, `src/hash/func.c`).

A table is a power of two of buckets, each a list in the order of insertion.
Two elements of one bucket may have different keys: a lookup goes through the
bucket of its key and leaves it to the handler to recognise the element.
-/
import LibRe.Fmt.Str
import LibRe.Mbuf.Mbuf

namespace LibRe

open List

/-- One round of the "Jenkins one-at-a-time" hash, on the promoted character. -/
def joaatRound (hash c : UInt32) : UInt32 :=
  let hash := hash + c
  let hash := hash + (hash <<< 10)
  hash ^^^ (hash >>> 6)

/-- A `char`, which is signed, promoted to 32 bits. -/
def promoteChar (c : UInt8) : UInt32 :=
  if c < 128 then c.toUInt32 else c.toUInt32 + 0xffffff00

/-- `hash_joaat_str_ci`. -/
def hashJoaatStrCi (str : Bytes) : UInt32 :=
  let hash := str.foldl (fun hash c => joaatRound hash (promoteChar (toLower c))) 0
  let hash := hash + (hash <<< 3)
  let hash := hash ^^^ (hash >>> 11)
  hash + (hash <<< 15)

/-- `hash_fast_str`, Fowler/Noll/Vo. -/
def hashFastStr (str : Bytes) : UInt32 :=
  str.foldl (fun h c => (h ^^^ promoteChar c) * 0x01000193) 0x811c9dc5

/-- `struct hash`. -/
structure Hash (α : Type) where
  bsize : UInt32
  bucket : List (List α)
  length_bucket : bucket.length = bsize.toNat

variable {α : Type}

/-- `hash_alloc`. -/
def hashAlloc (bsize : UInt32) : Except Errno (Hash α) :=
  if bsize = 0 then .error .EINVAL
  else if bsize &&& (bsize - 1) ≠ 0 then .error .EINVAL
  else .ok { bsize, bucket := List.replicate bsize.toNat [], length_bucket := length_replicate }

/-- The bucket of a key. -/
def hashIndex (h : Hash α) (key : UInt32) : Nat := (key &&& (h.bsize - 1)).toNat

/-- `hash_append`. -/
def hashAppend (h : Hash α) (key : UInt32) (data : α) : Hash α where
  bsize := h.bsize
  bucket := h.bucket.modify (hashIndex h key) (· ++ [data])
  length_bucket := by rw [length_modify, h.length_bucket]

/-- `hash_lookup`, with `list_apply` over the bucket. -/
def hashLookup (h : Hash α) (key : UInt32) (ah : α → Bool) : Option α :=
  (h.bucket.getD (hashIndex h key) []).find? ah

/-- Everything a table holds. -/
def Hash.elems (h : Hash α) : List α := h.bucket.flatten

variable {h : Hash α}

theorem hashAlloc_elems {bsize : UInt32} (ha : hashAlloc bsize = .ok h) : h.elems = [] := by
  unfold hashAlloc at ha
  split at ha
  · cases ha
  · split at ha
    · cases ha
    · cases ha
      simp [Hash.elems]

variable {key : UInt32} {data x : α} {ah : α → Bool}

/-- An append adds its element and nothing else. -/
theorem mem_hashAppend (hx : x ∈ (hashAppend h key data).elems) : x ∈ h.elems ∨ x = data := by
  obtain ⟨b, hb, hxb⟩ := mem_flatten.mp hx
  obtain ⟨i, hi, rfl⟩ := mem_iff_getElem.mp hb
  simp only [hashAppend, getElem_modify] at hxb
  have hlen : i < h.bucket.length := by simpa [hashAppend] using hi
  split at hxb
  · rcases mem_append.mp hxb with hold | hnew
    · exact .inl (mem_flatten.mpr ⟨_, getElem_mem hlen, hold⟩)
    · exact .inr (mem_singleton.mp hnew)
  · exact .inl (mem_flatten.mpr ⟨_, getElem_mem hlen, hxb⟩)

/-- What a lookup finds is in the table and recognised by the handler. -/
theorem hashLookup_sound (hx : hashLookup h key ah = some x) : x ∈ h.elems ∧ ah x = true := by
  have hmem := mem_of_find?_eq_some hx
  refine ⟨?_, find?_some hx⟩
  rw [getD_eq_getElem?_getD] at hmem
  cases hb : h.bucket[hashIndex h key]? with
  | none => simp [hb] at hmem
  | some b =>
    rw [hb] at hmem
    exact mem_flatten.mpr ⟨b, mem_of_getElem? hb, hmem⟩

end LibRe
