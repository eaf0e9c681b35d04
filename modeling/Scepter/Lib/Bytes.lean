import Scepter.Lib.Bits

/-! Byte buffers: the bits of a bitmap (bit `i` is bit `i % 8` of byte `i / 8`)
and little-endian fields, as an i386 kernel overlays them on a buffer. -/
namespace Scepter

abbrev Byte := BitVec 8

abbrev Buf := Nat → Byte

namespace Buf

def zero : Buf := fun _ => 0

/-- The first `n` bytes of `new` over `old`. -/
def overlay (n : Nat) (new old : Buf) : Buf := fun o => if o < n then new o else old o

def getBit (buf : Buf) (i : Nat) : Bool := (buf (i / 8)).getLsbD (i % 8)

def setBit (buf : Buf) (i : Nat) : Buf :=
  Function.update buf (i / 8) (buf (i / 8) ||| (1#8 <<< (i % 8)))

def clearBit (buf : Buf) (i : Nat) : Buf :=
  Function.update buf (i / 8) (buf (i / 8) &&& ~~~(1#8 <<< (i % 8)))

theorem getBitSet (buf : Buf) (i j : Nat) :
    (buf.setBit i).getBit j = if j = i then true else buf.getBit j :=
  Bits.packedSet (by decide) buf i j

theorem getBitClear (buf : Buf) (i j : Nat) :
    (buf.clearBit i).getBit j = if j = i then false else buf.getBit j :=
  Bits.packedUnset (by decide) buf i j

def getU16 (buf : Buf) (o : Nat) : Nat := (buf o).toNat + 2 ^ 8 * (buf (o + 1)).toNat

def getU32 (buf : Buf) (o : Nat) : Nat :=
  (buf o).toNat + 2 ^ 8 * (buf (o + 1)).toNat + 2 ^ 16 * (buf (o + 2)).toNat +
    2 ^ 24 * (buf (o + 3)).toNat

def leByte (v k : Nat) : Byte := BitVec.ofNat 8 (v / 2 ^ (8 * k))

def setU16 (buf : Buf) (o v : Nat) : Buf :=
  fun b => if o ≤ b ∧ b < o + 2 then leByte v (b - o) else buf b

def setU32 (buf : Buf) (o v : Nat) : Buf :=
  fun b => if o ≤ b ∧ b < o + 4 then leByte v (b - o) else buf b

theorem getU32Lt (buf : Buf) (o : Nat) : buf.getU32 o < 2 ^ 32 := by
  unfold getU32
  have := (buf o).isLt
  have := (buf (o + 1)).isLt
  have := (buf (o + 2)).isLt
  have := (buf (o + 3)).isLt
  omega

theorem getU32Set (buf : Buf) {o v : Nat} (small : v < 2 ^ 32) :
    (buf.setU32 o v).getU32 o = v := by
  simp only [getU32, setU32, leByte]
  simp
  omega

theorem getU32SetApart (buf : Buf) {o p : Nat} (v : Nat) (apart : p + 4 ≤ o ∨ o + 4 ≤ p) :
    (buf.setU32 o v).getU32 p = buf.getU32 p := by
  unfold getU32 setU32
  rw [if_neg (by omega), if_neg (by omega), if_neg (by omega), if_neg (by omega)]

theorem getU32SetU16Apart (buf : Buf) {o p : Nat} (v : Nat) (apart : p + 4 ≤ o ∨ o + 2 ≤ p) :
    (buf.setU16 o v).getU32 p = buf.getU32 p := by
  unfold getU32 setU16
  rw [if_neg (by omega), if_neg (by omega), if_neg (by omega), if_neg (by omega)]

theorem getU32Congr {a b : Buf} {o : Nat} (same : ∀ i, o ≤ i → i < o + 4 → a i = b i) :
    a.getU32 o = b.getU32 o := by
  unfold getU32
  rw [same o (by omega) (by omega), same (o + 1) (by omega) (by omega),
    same (o + 2) (by omega) (by omega), same (o + 3) (by omega) (by omega)]

theorem getU16Set (buf : Buf) {o v : Nat} (small : v < 2 ^ 16) : (buf.setU16 o v).getU16 o = v := by
  simp only [getU16, setU16, leByte]
  simp
  omega

theorem getU16Congr {a b : Buf} {o : Nat} (same : ∀ i, o ≤ i → i < o + 2 → a i = b i) :
    a.getU16 o = b.getU16 o := by
  unfold getU16
  rw [same o (by omega) (by omega), same (o + 1) (by omega) (by omega)]

@[simp] theorem getU32Zero (o : Nat) : zero.getU32 o = 0 := by simp [getU32, zero]

end Buf
end Scepter
