import Mathlib.Algebra.Group.Nat.Defs
import Mathlib.Data.Int.Basic

/-! The errno values the modelled calls return (errno.h) and the cast of a
size_t to the int such a call returns. -/
namespace Scepter

def EPERM : Int := 1
def ENOENT : Int := 2
def EINTR : Int := 4
def ENXIO : Int := 6
def E2BIG : Int := 7
def ENOEXEC : Int := 8
def EBADF : Int := 9
def EAGAIN : Int := 11
def ENOMEM : Int := 12
def EACCES : Int := 13
def EFAULT : Int := 14
def EBUSY : Int := 16
def ENODEV : Int := 19
def ENOTDIR : Int := 20
def EINVAL : Int := 22
def ENFILE : Int := 23
def EPIPE : Int := 32
def ENOSYS : Int := 38

/-- `(int)n` for a 32-bit size_t. -/
def cInt (n : Nat) : Int := (BitVec.ofNat 32 n).toInt

theorem cIntSmall {n : Nat} (small : n < 2 ^ 31) : cInt n = n := by
  unfold cInt
  rw [BitVec.toInt_eq_toNat_of_lt, BitVec.toNat_ofNat, Nat.mod_eq_of_lt (by omega)]
  rw [BitVec.toNat_ofNat, Nat.mod_eq_of_lt (by omega)]
  omega

end Scepter
