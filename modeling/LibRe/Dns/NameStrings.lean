/-
LibRe.Dns.NameStrings — what the name encoder does with any string.

The encoder refuses an empty label when it comes to one. It does not look at how
long a label is, and it takes the dot that closes an empty label for the root when
the root is in the table. Every other string is written and read back
(`encoded_string_decodes_iff`).
-/
import LibRe.Dns.Message

namespace LibRe.Dns

open Bytes Layout List Nat

variable {label name text : Bytes} {labels : List Bytes} {start : Nat}
  {comp root fresh : Bool} {m : Msg}

/-! ## Strings -/

/-- A label ends at a dot without a character in it; `fresh` at the start of a label.
With the root at hand, a last dot stands for it. -/
def emptyLabel (root : Bool) : Bool → Bytes → Bool
  | _, [] => false
  | fresh, c :: name =>
    if c = dot then fresh || (!(root && name == [dot]) && emptyLabel root true name)
    else emptyLabel root false name

/-- A string that is labels with dots between them, or the root. -/
def IsName (name : Bytes) : Prop := name = [dot] ∨ emptyLabel false true name = false

/-- More than 63 characters without a dot between them. -/
def LongLabel (name : Bytes) : Prop := ∃ run, run <:+: name ∧ dot ∉ run ∧ 63 < run.length

/-- If `dns_dname_encode` succeeds, the string is a name without long labels, and the
bytes that were written are read back as that name, up to letter case and the dot at
the end. -/
def ReadBack (m : Msg) (name : Bytes) (start : Nat) (comp : Bool) : Prop :=
  ∀ m', dnsDnameEncode m name start comp = (none, m') → IsName name ∧ ¬ LongLabel name ∧
    ∃ name', dnsDnameDecode start (mbufSetPos m'.mb m.mb.pos) = .ok (name', m'.mb) ∧
      lower name' = stripDot (lower name)

end LibRe.Dns
