/-
LibRe.Sa.Sa — socket addresses.

Internet addresses only. An IPv6 address is the number its 16 bytes write down.
-/
import Mathlib.Tactic

namespace LibRe

/-- The address family. -/
inductive Af where
  | unspec
  | inet
  | inet6
  deriving DecidableEq, Repr

/-- `struct sa`. -/
inductive Sa where
  | unspec
  | inet (addr : UInt32) (port : UInt16)
  | inet6 (addr : BitVec 128) (port : UInt16)
  deriving DecidableEq, Repr

/-- `SA_ADDR` and `SA_PORT`. -/
structure SaFlag where
  addr : Bool
  port : Bool

def saAddr : SaFlag := { addr := true, port := false }
def saPort : SaFlag := { addr := false, port := true }
def saAll : SaFlag := { addr := true, port := true }

/-- `sa_af`. -/
def saAf : Sa → Af
  | .unspec => .unspec
  | .inet .. => .inet
  | .inet6 .. => .inet6

/-- `sa_isset`. -/
def saIsset (sa : Sa) (flag : SaFlag) : Bool :=
  match sa with
  | .unspec => false
  | .inet addr port => !(flag.addr && addr == 0) && !(flag.port && port == 0)
  | .inet6 addr port => !(flag.addr && addr == 0) && !(flag.port && port == 0)

/-- `sa_cmp` of two objects. -/
def saCmp (l r : Sa) (flag : SaFlag) : Bool :=
  match l, r with
  | .inet a p, .inet b q => !(flag.addr && a != b) && !(flag.port && p != q)
  | .inet6 a p, .inet6 b q => !(flag.addr && a != b) && !(flag.port && p != q)
  | _, _ => false

/-- `sa_set_port`. -/
def saSetPort (port : UInt16) : Sa → Sa
  | .unspec => .unspec
  | .inet addr _ => .inet addr port
  | .inet6 addr _ => .inet6 addr port

/-- `sa_is_linklocal`: 169.254/16 and fe80::/10. -/
def saIsLinklocal : Sa → Bool
  | .unspec => false
  | .inet addr _ => addr &&& 0xffff0000 == 0xa9fe0000
  | .inet6 addr _ => addr >>> 118 == 0x3fa

/-- `sa_is_loopback`: 127/8 and ::1. -/
def saIsLoopback : Sa → Bool
  | .unspec => false
  | .inet addr _ => addr &&& 0xff000000 == 0x7f000000
  | .inet6 addr _ => addr == 1

/-- A 32-bit word as a little-endian host reads it from network order. -/
def hostWord (v : UInt32) : UInt32 :=
  let shl (n : UInt32) := v <<< n
  let shr (n : UInt32) := v >>> n
  shl 24 ||| (shl 8 &&& 0xff0000) ||| (shr 8 &&& 0xff00) ||| shr 24

/-- `sa_hash` with `SA_ADDR`. -/
def saHashAddr : Sa → UInt32
  | .unspec => 0
  | .inet addr _ => addr
  | .inet6 addr _ =>
    let word (i : Nat) := UInt32.ofBitVec ((addr >>> (96 - 32 * i)).setWidth 32)
    hostWord (word 0) ^^^ hostWord (word 1) ^^^ hostWord (word 2) ^^^ hostWord (word 3)

end LibRe
