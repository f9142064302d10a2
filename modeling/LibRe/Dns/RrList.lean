/-
LibRe.Dns.RrList — lists of resource records (`src/dns/rrlist.c`).

A list holds record objects, so a record has a number besides its data. Sorting orders
records of one type, or addresses, by a key of the caller. `rrlist_apply` hands records
to a handler and follows CNAME records through the list again, up to a depth; what it
finds is what chains of such records lead to (`find_iff_reaches`).

Translation notes. `rrlistApply` gives the records that are handed to a handler that
returns false; one that returns true ends the walk there. The depth counts up in the loop
and is checked on entry only, so it is a budget that a CNAME record lowers both for the
walk it starts and for the rest of the walk it is found in. `memcpy` of an IPv6 address
into words is that of a little-endian machine.
-/
import LibRe.Dns.Rr
import LibRe.List.Sort

namespace LibRe.Dns

open LibRe.Lists List Option Nat

/-- A record object. -/
structure Rr where
  key : Nat
  rr : Dnsrr
  deriving DecidableEq, Repr

/-- `DNS_QTYPE_ANY` and `DNS_QCLASS_ANY` -/
def dnsAny : UInt16 := 0x00ff

/-- `DNS_CLASS_IN` -/
def dnsClassIn : UInt16 := 0x0001

/-- `rr->type` -/
def Rr.type (r : Rr) : UInt16 := r.rr.rdata.type

/-! ## Sorting -/

/-- The words of an address, xored. -/
def xorWords : Bytes → UInt32
  | a :: b :: c :: d :: rest =>
    (a.toUInt32 ||| b.toUInt32 <<< 8 ||| c.toUInt32 <<< 16 ||| d.toUInt32 <<< 24) ^^^ xorWords rest
  | _ => 0

/-- `sidx` -/
def sidx (r : Rr) (key : UInt32) : UInt32 :=
  match r.rr.rdata with
  | .a addr => addr ^^^ key
  | .aaaa addr _ => xorWords addr ^^^ key
  | .srv _ weight _ target => ((hashFastStr target &&& 0xfff) ^^^ key) + weight.toUInt32
  | _ => 0

/-- The order of two records of the type that is sorted for, in `std_sort_handler`. -/
def sameTypeOrder (key : UInt32) (rr1 rr2 : Rr) : Bool :=
  match rr1.rr.rdata, rr2.rr.rdata with
  | .mx pref1 _, .mx pref2 _ => pref1 ≤ pref2
  | .srv pri1 _ _ _, .srv pri2 _ _ _ =>
    if pri1 = pri2 then sidx rr1 key ≥ sidx rr2 key else pri1 < pri2
  | .naptr order1 pref1 _ _ _ _, .naptr order2 pref2 _ _ _ _ =>
    if order1 = order2 then pref1 ≤ pref2 else order1 < order2
  | _, _ => true

/-- `std_sort_handler` -/
def stdSortHandler (type : UInt16) (key : UInt32) (rr1 rr2 : Rr) : Bool :=
  if rr1.type ≠ type then rr2.type ≠ type
  else if rr2.type ≠ type then true
  else sameTypeOrder key rr1 rr2

/-- `addr_sort_handler` -/
def addrSortHandler (key : UInt32) (rr1 rr2 : Rr) : Bool := sidx rr1 key ≥ sidx rr2 key

/-- `(uint32_t)key>>5` -/
def sortKey (key : UInt64) : UInt32 := key.toUInt32 >>> 5

/-- `dns_rrlist_sort` -/
def dnsRrlistSort (rrl : List Rr) (type : UInt16) (key : UInt64) : List Rr :=
  (listSort (stdSortHandler type (sortKey key)) rrl).getD rrl

/-- `dns_rrlist_sort_addr` -/
def dnsRrlistSortAddr (rrl : List Rr) (key : UInt64) : List Rr :=
  (listSort (addrSortHandler (sortKey key)) rrl).getD rrl

/-! ## Walks -/

/-- What a walk looks for. -/
structure RrSearch where
  type1 : UInt16
  type2 : UInt16
  dnsclass : UInt16
  recurse : Bool

/-- The tests of the loop. -/
def RrSearch.hit (q : RrSearch) (name : Option Bytes) (r : Rr) : Bool :=
  (match name with
    | some name => strCaseeq name r.rr.name
    | none => true) &&
  !(q.type1 != dnsAny && q.type2 != dnsAny && r.type != q.type1 && r.type != q.type2 &&
      (r.type != RrType.CNAME.code || !q.recurse)) &&
  !(q.dnsclass != dnsAny && r.rr.dnsclass != q.dnsclass)

/-- The name that a record leads on to. -/
def RrSearch.follows (q : RrSearch) (r : Rr) : Option Bytes :=
  match r.rr.rdata with
  | .cname cname =>
    if q.recurse && q.type1 != dnsAny && q.type2 != dnsAny && q.type1 != RrType.CNAME.code &&
        q.type2 != RrType.CNAME.code then some cname
    else none
  | _ => none

/-- The loop up to the first record that leads on to another name; `after` is what follows
from there, by this name and the rest of the list. -/
def walk (hit : Rr → Bool) (follows : Rr → Option Bytes) (after : Bytes → List Rr → List Rr) :
    List Rr → List Rr
  | [] => []
  | r :: rrl =>
    if hit r then
      match follows r with
      | some cname => r :: after cname rrl
      | none => r :: walk hit follows after rrl
    else walk hit follows after rrl

/-- The records of `les` that are handed out, with a budget for CNAME records. -/
def rrlistFrom (q : RrSearch) (rrl : List Rr) : Nat → Option Bytes → List Rr → List Rr
  | 0, name, les => les.filter (q.hit name)
  | budget + 1, name, les =>
    walk (q.hit name) q.follows (fun cname les =>
        (if budget = 0 then [] else rrlistFrom q rrl budget (some cname) rrl) ++ rrlistFrom q rrl
          budget name les)
      les

/-- `CNAME_RECURSE_MAX` -/
def cnameRecurseMax : Nat := 16

/-- `rrlist_apply` with a handler that returns false. -/
def rrlistApply (rrl : List Rr) (name : Option Bytes) (q : RrSearch) : List Rr :=
  rrlistFrom q rrl (cnameRecurseMax + 1) name rrl

/-! ## The orders

Each of the handlers compares ranks, so `list_sort` puts the ranks in order. -/

/-- The rank of an address; the greatest index comes first. -/
def addrRank (key : UInt32) (r : Rr) : Nat := 2 ^ 32 - (sidx r key).toNat

/-- The rank of an SRV record: by priority, then the greatest index first, and all other
records behind them. -/
def srvRank (key : UInt32) (r : Rr) : Nat :=
  match r.rr.rdata with
  | .srv pri _ _ _ => pri.toNat * 2 ^ 32 + (2 ^ 32 - 1 - (sidx r key).toNat)
  | _ => 2 ^ 48

/-- The rank of a NAPTR record: by order, then by preference, and all other records behind
them. -/
def naptrRank (r : Rr) : Nat :=
  match r.rr.rdata with
  | .naptr order pref _ _ _ _ => order.toNat * 2 ^ 16 + pref.toNat
  | _ => 2 ^ 32

theorem addrSortHandler_eq (key : UInt32) (x y : Rr) :
    addrSortHandler key x y = decide (addrRank key x ≤ addrRank key y) := by
  unfold addrSortHandler addrRank
  rw [decide_eq_decide, ge_iff_le, UInt32.le_iff_toNat_le]
  have hx := (sidx x key).toNat_lt
  omega

/-- The rank of a record among those of its type, where the handler compares these. -/
def sameTypeRank (key : UInt32) (r : Rr) : Nat :=
  match r.rr.rdata with
  | .mx pref _ => pref.toNat
  | .srv .. => srvRank key r
  | .naptr .. => naptrRank r
  | _ => 0

/-- The records that the handler compares are known by their types. -/
theorem rdata_of_type (r : Rr) :
    (r.type = RrType.MX.code → ∃ pref e, r.rr.rdata = .mx pref e) ∧
    (r.type = RrType.SRV.code → ∃ pri w p t, r.rr.rdata = .srv pri w p t) ∧
    (r.type = RrType.NAPTR.code → ∃ o p f s e t, r.rr.rdata = .naptr o p f s e t) := by
  unfold Rr.type
  cases hr : r.rr.rdata with
  | other type unknown =>
    refine ⟨?_, ?_, ?_⟩
    all_goals
      rintro (rfl : type = _)
      exact absurd unknown (by decide)
  | _ => simp [Rdata.type, RrType.code]

theorem srvRank_of_ne (h : ¬ r.type = RrType.SRV.code) (key : UInt32) : srvRank key r = 2 ^ 48 := by
  unfold srvRank
  split
  · next hr => exact absurd (by rw [Rr.type, hr]; rfl) h
  · rfl

theorem naptrRank_of_ne (h : ¬ r.type = RrType.NAPTR.code) : naptrRank r = 2 ^ 32 := by
  unfold naptrRank
  split
  · next hr => exact absurd (by rw [Rr.type, hr]; rfl) h
  · rfl

theorem srvRank_lt (h : r.type = RrType.SRV.code) (key : UInt32) : srvRank key r < 2 ^ 48 := by
  obtain ⟨pri, w, p, t, hr⟩ := (rdata_of_type r).2.1 h
  have hpri := pri.toNat_lt
  simp only [srvRank, hr]
  omega

theorem naptrRank_lt (h : r.type = RrType.NAPTR.code) : naptrRank r < 2 ^ 32 := by
  obtain ⟨o, p, f, s, e, t, hr⟩ := (rdata_of_type r).2.2 h
  have ho := o.toNat_lt
  have hp := p.toNat_lt
  simp only [naptrRank, hr]
  omega

theorem sameTypeRank_lt (key : UInt32) (r : Rr) : sameTypeRank key r < 2 ^ 48 := by
  unfold sameTypeRank
  split
  · next pref _ _ => exact lt_trans pref.toNat_lt (by decide)
  · next hr => exact srvRank_lt (by rw [Rr.type, hr]; rfl) key
  · next hr => exact lt_trans (naptrRank_lt (by rw [Rr.type, hr]; rfl)) (by decide)
  · decide

/-- Records of one type are put in the order of their ranks. -/
theorem sameTypeOrder_eq (key : UInt32) {x y : Rr} (h : y.type = x.type) :
    sameTypeOrder key x y = decide (sameTypeRank key x ≤ sameTypeRank key y) := by
  unfold sameTypeOrder sameTypeRank
  obtain ⟨hmx, hsrv, hnaptr⟩ := rdata_of_type y
  rw [h, Rr.type] at hmx hsrv hnaptr
  cases hx : x.rr.rdata with
  | mx pref _ =>
    rw [hx] at hmx
    obtain ⟨pref', _, hy⟩ := hmx rfl
    simp [hy, UInt16.le_iff_toNat_le]
  | srv p1 w1 o1 t1 =>
    rw [hx] at hsrv
    obtain ⟨p2, w2, o2, t2, hy⟩ := hsrv rfl
    have hsy := (sidx y key).toNat_lt
    simp only [srvRank, hx, hy]
    by_cases hp : p1 = p2
    · simp [UInt32.le_iff_toNat_le, hp]
      omega
    · have hne : p1.toNat ≠ p2.toNat := fun h => hp (UInt16.toNat_inj.mp h)
      rw [if_neg hp, decide_eq_decide, UInt16.lt_iff_toNat_lt]
      omega
  | naptr o1 p1 f1 s1 e1 t1 =>
    rw [hx] at hnaptr
    obtain ⟨o2, p2, f2, s2, e2, t2, hy⟩ := hnaptr rfl
    have hp1 := p1.toNat_lt
    have hp2 := p2.toNat_lt
    simp only [naptrRank, hx, hy]
    by_cases ho : o1 = o2
    · simp [UInt16.le_iff_toNat_le, ho]
    · have hne : o1.toNat ≠ o2.toNat := fun h => ho (UInt16.toNat_inj.mp h)
      rw [if_neg ho, decide_eq_decide, UInt16.lt_iff_toNat_lt]
      omega
  | _ => simp

variable {rank : Rr → Nat} {type : UInt16} {key : UInt32}

/-- A handler that puts records of a type in the order of their ranks, all others behind
them, compares ranks. -/
theorem stdSortHandler_eq {top : Nat}
    (hother : ∀ r : Rr, ¬ r.type = type → rank r = top)
    (hlt : ∀ r : Rr, r.type = type → rank r < top)
    (hsame : ∀ r : Rr, r.type = type → rank r = sameTypeRank key r)
    (x y : Rr) : stdSortHandler type key x y = decide (rank x ≤ rank y) := by
  unfold stdSortHandler
  by_cases hx : x.type = type
  · by_cases hy : y.type = type
    · simp [hy, hsame, hx, sameTypeOrder_eq]
    · grind
  · rw [if_pos hx, hother x hx, decide_eq_decide]
    by_cases hy : y.type = type
    · exact iff_of_false (not_not.mpr hy) (not_le.mpr (hlt y hy))
    · exact iff_of_true hy (le_of_eq (hother y hy).symm)

theorem srvSortHandler_eq (key : UInt32) (x y : Rr) :
    stdSortHandler RrType.SRV.code key x y = decide (srvRank key x ≤ srvRank key y) := by
  refine stdSortHandler_eq (fun r h => srvRank_of_ne h key) (fun r h => srvRank_lt h key) ?_ x y
  intro r h
  obtain ⟨pri, w, p, t, hr⟩ := (rdata_of_type r).2.1 h
  simp [sameTypeRank, hr]

theorem naptrSortHandler_eq (key : UInt32) (x y : Rr) :
    stdSortHandler RrType.NAPTR.code key x y = decide (naptrRank x ≤ naptrRank y) := by
  refine stdSortHandler_eq (fun r h => naptrRank_of_ne h) (fun r h => naptrRank_lt h) ?_ x y
  intro r h
  obtain ⟨o, p, f, s, e, t, hr⟩ := (rdata_of_type r).2.2 h
  simp [sameTypeRank, hr]

/-- For every type the handler is a total preorder. -/
theorem totalPreorder_stdSortHandler (type : UInt16) (key : UInt32) :
    TotalPreorder (stdSortHandler type key) := by
  refine totalPreorder_of_rank (@stdSortHandler_eq
    (fun r => if r.type = type then sameTypeRank key r else 2 ^ 48)
    type key _ (fun _ h => if_neg h) ?_ (fun _ h => if_pos h))
  intro r h
  rw [if_pos h]
  exact sameTypeRank_lt key r

/-- Sorting by ranks. -/
theorem listSort_rank {sh : Rr → Rr → Bool} (hsh : ∀ x y, sh x y = decide (rank x ≤ rank y))
    (rrl : List Rr) :
    ((listSort sh rrl).getD rrl).Perm rrl ∧ ((listSort sh rrl).getD rrl).Pairwise fun x y =>
      rank x ≤ rank y := by
  obtain ⟨l, hsort, hperm, hsorted, -⟩ := listSort_sorts (totalPreorder_of_rank hsh) rrl
  rw [hsort]
  refine ⟨hperm, hsorted.imp ?_⟩
  intro x y h
  rw [hsh, decide_eq_true_eq] at h
  exact h

theorem dnsRrlistSortAddr_spec (rrl : List Rr) (key : UInt64) :
    (dnsRrlistSortAddr rrl key).Perm rrl ∧
      (dnsRrlistSortAddr rrl key).Pairwise fun x y => addrRank (sortKey key) x ≤ addrRank
        (sortKey key) y :=
  listSort_rank (addrSortHandler_eq (sortKey key)) rrl

theorem dnsRrlistSort_srv (rrl : List Rr) (key : UInt64) :
    (dnsRrlistSort rrl RrType.SRV.code key).Perm rrl ∧
      (dnsRrlistSort rrl RrType.SRV.code key).Pairwise fun x y => srvRank (sortKey key) x ≤ srvRank
        (sortKey key) y :=
  listSort_rank (srvSortHandler_eq (sortKey key)) rrl

theorem dnsRrlistSort_naptr (rrl : List Rr) (key : UInt64) :
    (dnsRrlistSort rrl RrType.NAPTR.code key).Perm rrl ∧
      (dnsRrlistSort rrl RrType.NAPTR.code key).Pairwise fun x y => naptrRank x ≤ naptrRank y :=
  listSort_rank (naptrSortHandler_eq (sortKey key)) rrl

/-- `list_sort` ends with a stable sorted permutation, for any total preorder, and the
handlers of record lists are such orders. -/
theorem listSort_stable_rr_orders :
    (∀ {α : Type} {sh : α → α → Bool}, TotalPreorder sh → ∀ l : List α, ∃ l',
      listSort sh l = some l' ∧
      l'.Perm l ∧ l'.Pairwise (fun x y => sh x y = true) ∧ Stable sh l l') ∧
    (∀ (type : UInt16) (key : UInt64), TotalPreorder (stdSortHandler type (sortKey key))) ∧
    ∀ key : UInt64, TotalPreorder (addrSortHandler (sortKey key)) :=
  ⟨fun h l => listSort_sorts h l, fun type key => totalPreorder_stdSortHandler type (sortKey key),
    fun key => totalPreorder_of_rank (addrSortHandler_eq (sortKey key))⟩

/-- NAPTR records that were sorted once are sorted for every key. -/
theorem dnsRrlistSort_naptr_again (rrl : List Rr) (key key' : UInt64) :
    dnsRrlistSort (dnsRrlistSort rrl RrType.NAPTR.code key) RrType.NAPTR.code key' =
      dnsRrlistSort rrl RrType.NAPTR.code key' := by
  have hsame : stdSortHandler RrType.NAPTR.code (sortKey key) = stdSortHandler RrType.NAPTR.code
      (sortKey key') := by
    grind [naptrSortHandler_eq]
  have hsorted := (dnsRrlistSort_naptr rrl key).2
  have hpairwise : (dnsRrlistSort rrl RrType.NAPTR.code key).Pairwise
      fun x y => stdSortHandler RrType.NAPTR.code (sortKey key') x y = true := by
    simp [naptrSortHandler_eq]
    omega
  calc dnsRrlistSort (dnsRrlistSort rrl RrType.NAPTR.code key) RrType.NAPTR.code key'
      = dnsRrlistSort rrl RrType.NAPTR.code key := by
        rw [dnsRrlistSort, listSort_of_sorted hpairwise, getD_some]
    _ = dnsRrlistSort rrl RrType.NAPTR.code key' := by rw [dnsRrlistSort, hsame, dnsRrlistSort]

/-! ## Walks stay in the list -/

variable {rrl les : List Rr} {r x : Rr} {name cname : Bytes} {hit : Rr → Bool}
  {follows : Rr → Option Bytes} {after : Bytes → List Rr → List Rr}

/-- Where a record of a walk comes from. -/
theorem walk_cases (h : x ∈ walk hit follows after les) :
    x ∈ les ∧ hit x ∨ ∃ r ∈ les, hit r ∧ ∃ cname, follows r = some cname ∧ ∃ les' ⊆ les,
    x ∈ after cname les' := by
  induction les with
  | nil => cases h
  | cons y les ih =>
    rw [walk] at h
    split_ifs at h with hy
    · split at h
      · rename_i cname hfollows
        obtain rfl | h := mem_cons.mp h
        · exact .inl ⟨mem_cons_self, hy⟩
        · exact .inr ⟨y, mem_cons_self, hy, cname, hfollows, les, subset_cons_self y les, h⟩
      · grind
    · grind

theorem mem_rrlistFrom (q : RrSearch) (rrl : List Rr) (budget : Nat) :
    ∀ name les, (∀ x ∈ les, x ∈ rrl) → ∀ x ∈ rrlistFrom q rrl budget name les, x ∈ rrl := by
  induction budget with
  | zero =>
    intro name les hles x hx
    exact hles x (mem_filter.mp hx).1
  | succ budget ih =>
    intro name les hles x hx
    obtain ⟨hmem, -⟩ | ⟨r, -, -, cname, -, les', hles', hafter⟩ := walk_cases hx
    · exact hles x hmem
    · rcases mem_append.mp hafter with hx | hx
      · grind
      · exact ih _ les' (fun y hy => hles y (hles' hy)) x hx

variable {q : RrSearch}

/-- `rrlist_apply` hands out records of the list. -/
theorem mem_rrlistApply {name : Option Bytes} (h : x ∈ rrlistApply rrl name q) : x ∈ rrl :=
  mem_rrlistFrom q rrl _ name rrl (fun _ h => h) x h

/-- Without recursion a walk is a filter. -/
theorem rrlistApply_of_not_recurse (hq : q.recurse = false) (rrl : List Rr) (name : Option Bytes) :
    rrlistApply rrl name q = rrl.filter (q.hit name) := by
  have hfollows : ∀ r, q.follows r = none := by
    intro r
    unfold RrSearch.follows
    split
    · rw [hq]
      rfl
    · rfl
  have hwalk : ∀ after les, walk (q.hit name) q.follows after les = les.filter (q.hit name) := by
    intro after les
    induction les with
    | nil => rfl
    | cons r les ih =>
      rw [walk, filter_cons, hfollows, ih]
  exact hwalk _ rrl

/-! ## CNAME chains -/

/-- `dns_rrlist_find`: `find_handler` ends the walk at the first record of the type. -/
def dnsRrlistFind (rrl : List Rr) (name : Option Bytes) (type dnsclass : UInt16) (recurse : Bool) :
    Option Rr :=
  (rrlistApply rrl name { type1 := type, type2 := type, dnsclass, recurse }).find? (·.type = type)

/-- A record of the name and the class. -/
def Rr.Of (dnsclass : UInt16) (name : Bytes) (r : Rr) : Prop :=
  strCaseeq name r.rr.name = true ∧ (dnsclass = dnsAny ∨ r.rr.dnsclass = dnsclass)

/-- A chain of `n` CNAME records of the class leads from the name to the name of `x`. -/
def Reaches (rrl : List Rr) (dnsclass : UInt16) : Nat → Bytes → Rr → Prop
  | 0, name, x => x ∈ rrl ∧ x.Of dnsclass name
  | n + 1, name, x =>
    ∃ r ∈ rrl, r.Of dnsclass name ∧ ∃ cname, r.rr.rdata = .cname cname ∧
      Reaches rrl dnsclass n cname x

section

variable {type dnsclass : UInt16} {q : RrSearch}

theorem hit_iff (htype : type ≠ dnsAny) :
    RrSearch.hit ⟨type, type, dnsclass, true⟩ (some name) r = true ↔ r.Of dnsclass name ∧
    (r.type = type ∨ r.type = RrType.CNAME.code) := by
  simp [RrSearch.hit, htype, Rr.Of]
  tauto

theorem follows_iff (htype : type ≠ dnsAny) :
    RrSearch.follows ⟨type, type, dnsclass, true⟩ r = some cname ↔ r.rr.rdata = .cname cname ∧
    type ≠ RrType.CNAME.code := by
  unfold RrSearch.follows
  split <;> simp_all [and_comm]

/-- Records that are hit are handed out, whatever the depth. -/
theorem mem_of_hit (budget : Nat) (hx : q.hit (some name) x) (h : x ∈ les) :
    x ∈ rrlistFrom q rrl budget (some name) les := by
  induction budget generalizing les with
  | zero => exact mem_filter.mpr ⟨h, hx⟩
  | succ budget ih =>
    rw [rrlistFrom]
    induction les with
    | nil => cases h
    | cons y les ihl =>
      rw [walk]
      grind

/-- The only record that leads on is followed. -/
theorem walk_follows (hr : r ∈ les) (hhit : hit r) (hfollows : follows r = some cname)
    (hone : ∀ y ∈ les, hit y → follows y ≠ none → y = r) :
    ∃ les', after cname les' ⊆ walk hit follows after les := by
  induction les with
  | nil => cases hr
  | cons y les ih =>
    rw [walk]
    by_cases hy : hit y ∧ follows y ≠ none
    · obtain rfl := hone y mem_cons_self hy.1 hy.2
      rw [if_pos hhit, hfollows]
      exact ⟨les, subset_cons_self _ _⟩
    obtain ⟨les', hsub⟩ := ih ((mem_cons.mp hr).resolve_left (by grind)) fun z hz =>
      hone z (mem_cons_of_mem y hz)
    refine ⟨les', ?_⟩
    split_ifs with hyhit
    · rw [show follows y = none by grind]
      exact Subset.trans hsub (subset_cons_self _ _)
    · exact hsub

variable {budget : Nat}

theorem reaches_of_mem (htype : type ≠ dnsAny) (hles : les ⊆ rrl)
    (h : x ∈ rrlistFrom ⟨type, type, dnsclass, true⟩ rrl budget (some name) les) :
    ∃ n ≤ budget - 1, Reaches rrl dnsclass n name x := by
  induction budget generalizing name les with
  | zero =>
    obtain ⟨hmem, hhit⟩ := mem_filter.mp h
    exact ⟨0, le_rfl, hles hmem, ((hit_iff htype).mp hhit).1⟩
  | succ budget ih =>
    obtain ⟨hmem, hhit⟩ | ⟨r, hr, hhit, cname, hfollows, les', hles', hafter⟩ := walk_cases h
    · exact ⟨0, zero_le _, hles hmem, ((hit_iff htype).mp hhit).1⟩
    obtain hafter | hafter := mem_append.mp hafter
    · split_ifs at hafter with hzero
      · cases hafter
      · obtain ⟨n, hn, hreach⟩ := ih (Subset.refl rrl) hafter
        exact ⟨n + 1, by omega, r, hles hr, ((hit_iff htype).mp hhit).1, cname,
          ((follows_iff htype).mp hfollows).1, hreach⟩
    · obtain ⟨n, hn, hreach⟩ := ih (Subset.trans hles' hles) hafter
      exact ⟨n, by omega, hreach⟩

/-- At most one CNAME record for each name. -/
def OneCname (rrl : List Rr) : Prop :=
  ∀ name, ∀ r ∈ rrl, ∀ r' ∈ rrl, r.type = RrType.CNAME.code → r'.type = RrType.CNAME.code →
    strCaseeq name r.rr.name → strCaseeq name r'.rr.name → r = r'

theorem mem_of_reaches (htype : type ≠ dnsAny) (hne : type ≠ RrType.CNAME.code) (hx : x.type = type)
    (hone : OneCname rrl) {n : Nat} (hn : n ≤ budget) (h : Reaches rrl dnsclass n name x) :
    x ∈ rrlistFrom ⟨type, type, dnsclass, true⟩ rrl (budget + 1) (some name) rrl := by
  induction budget generalizing name n with
  | zero =>
    obtain rfl : n = 0 := by omega
    exact mem_of_hit _ ((hit_iff htype).mpr ⟨h.2, .inl hx⟩) h.1
  | succ budget ih =>
    cases n with
    | zero => exact mem_of_hit _ ((hit_iff htype).mpr ⟨h.2, .inl hx⟩) h.1
    | succ n =>
      obtain ⟨r, hr, hof, cname, hcname, hreach⟩ := h
      have hcode : ∀ r : Rr, ∀ cname, r.rr.rdata = .cname cname → r.type = RrType.CNAME.code := by
        intro r cname h
        rw [Rr.type, h]
        rfl
      have hhit := (hit_iff htype).mpr ⟨hof, .inr (hcode r cname hcname)⟩
      have honly : ∀ y ∈ rrl, RrSearch.hit ⟨type, type, dnsclass, true⟩ (some name) y →
          RrSearch.follows ⟨type, type, dnsclass, true⟩ y ≠ none → y = r := by
        intro y hy hyhit hfollows
        obtain ⟨c, hc⟩ := ne_none_iff_exists'.mp hfollows
        exact hone name y hy r hr (hcode y c ((follows_iff htype).mp hc).1) (hcode r cname hcname)
          ((hit_iff htype).mp hyhit).1.1 hof.1
      obtain ⟨les', hsub⟩ := walk_follows hr hhit ((follows_iff htype).mpr ⟨hcname, hne⟩) honly
      exact hsub (mem_append_left _ (by rw [if_neg (succ_ne_zero _)]; exact ih (by omega) hreach))

/-- The search finds a record of the type and the class if and only if one can be reached through at
most 16 CNAME records of the class, also when these form a cycle. -/
theorem find_iff_reaches (hone : OneCname rrl) (htype : type ≠ dnsAny) :
    (∀ x, dnsRrlistFind rrl (some name) type dnsclass true = some x →
      x.type = type ∧ ∃ n ≤ 16, Reaches rrl dnsclass n name x) ∧
    ((∃ x, dnsRrlistFind rrl (some name) type dnsclass true = some x) ↔
      ∃ n ≤ 16, ∃ x, x.type = type ∧ Reaches rrl dnsclass n name x) := by
  have hsound : ∀ x, dnsRrlistFind rrl (some name) type dnsclass true = some x →
      x.type = type ∧ ∃ n ≤ 16, Reaches rrl dnsclass n name x := by
    intro x h
    have hx : x.type = type := by simpa using find?_some h
    exact ⟨hx, reaches_of_mem htype (Subset.refl rrl) (mem_of_find?_eq_some h)⟩
  have hfound : ∀ x, x ∈ rrlistApply rrl (some name) ⟨type, type, dnsclass, true⟩ → x.type = type →
      ∃ x, dnsRrlistFind rrl (some name) type dnsclass true = some x := by
    intro x hmem hx
    exact isSome_iff_exists.mp (find?_isSome.mpr ⟨x, hmem, decide_eq_true hx⟩)
  refine ⟨hsound, fun ⟨x, hx⟩ => ?_, fun ⟨n, hn, x, hx, hreach⟩ => ?_⟩
  · obtain ⟨htype, n, hn, hreach⟩ := hsound x hx
    exact ⟨n, hn, x, htype, hreach⟩
  by_cases hne : type = RrType.CNAME.code
  · -- the first record of a chain is what is looked for
    cases n with
    | zero => exact hfound x (mem_of_hit _ ((hit_iff htype).mpr ⟨hreach.2, .inl hx⟩) hreach.1) hx
    | succ n =>
      obtain ⟨r, hr, hof, cname, hcname, -⟩ := hreach
      have hrtype : r.type = type := by rw [Rr.type, hcname, hne]; rfl
      exact hfound r (mem_of_hit _ ((hit_iff htype).mpr ⟨hof, .inl hrtype⟩) hr) hrtype
  · exact hfound x (mem_of_reaches htype hne hx hone hn hreach) hx

end

/-- A name that is its own alias, and has an address. -/
def selfAlias : List Rr :=
  [⟨0, { name := [97], dnsclass := 1, ttl := 0, rdlen := 0, rdata := .cname [97] }⟩,
    ⟨1, { name := [97], dnsclass := 1, ttl := 0, rdlen := 0, rdata := .a 0x7f000001 }⟩]

theorem find_selfAlias : ∃ x, dnsRrlistFind selfAlias (some [97]) RrType.A.code dnsClassIn true =
    some x := by
  have hone : OneCname selfAlias := by
    intro name r hr r' hr' h h' _ _
    simp only [selfAlias, mem_cons, not_mem_nil, or_false] at hr hr'
    rcases hr with rfl | rfl <;> rcases hr' with rfl | rfl
    all_goals first | rfl | exact absurd h (by decide) | exact absurd h' (by decide)
  exact (find_iff_reaches hone (by decide)).2.mpr ⟨1, by decide, selfAlias[1], rfl,
    selfAlias[0], by decide, ⟨by decide, .inr rfl⟩, [97], rfl, by decide, by decide, .inr rfl⟩

end LibRe.Dns
