/-
LibRe.Odict.Odict — ordered dictionaries (`src/odict/odict.c`, `src/odict/entry.c`).

A dictionary is the list of its entries in the order in which they were added. An entry
has a key and a value, which may be another dictionary. Keys need not be distinct: adding
an entry never looks for one with the same key, and a lookup finds the first.

Translation notes. The hash table of a dictionary only speeds up lookups, and entries with
one key stand in it in the order of addition. A double is its 64-bit pattern.
-/
import LibRe.Fmt.Str

namespace LibRe

mutual

/-- The value of `struct odict_entry`, by `enum odict_type`. -/
inductive OdictValue where
  | object (o : Odict)
  | array (o : Odict)
  | string (s : CStr)
  | int (i : Int64)
  | double (bits : UInt64)
  | bool (b : Bool)
  | null

/-- `struct odict` -/
inductive Odict where
  | nil
  | cons (key : CStr) (v : OdictValue) (rest : Odict)

end

/-- `odict_entry_add` -/
def odictEntryAdd (key : CStr) (v : OdictValue) : Odict → Odict
  | .nil => .cons key v .nil
  | .cons key' v' rest => .cons key' v' (odictEntryAdd key v rest)

/-- `odict_lookup` -/
def odictLookup (key : CStr) : Odict → Option OdictValue
  | .nil => none
  | .cons key' v rest => if key' = key then some v else odictLookup key rest

/-- Entries added in front of those that are added later. -/
def Odict.append : Odict → Odict → Odict
  | .nil, o => o
  | .cons key v rest, o => .cons key v (rest.append o)

theorem odictEntryAdd_append (key : CStr) (v : OdictValue) : ∀ o o' : Odict,
    (odictEntryAdd key v o).append o' = o.append (.cons key v o')
  | .nil, _ => rfl
  | .cons key' v' rest, o' => congrArg (Odict.cons key' v') (odictEntryAdd_append key v rest o')

theorem Odict.append_nil : ∀ o : Odict, o.append .nil = o
  | .nil => rfl
  | .cons key v rest => congrArg (Odict.cons key v) rest.append_nil

end LibRe
