import Scepter.Lib.Memory

/-! What a file should contain: at each position below its size the byte last written
there since the position became part of the file, and zero if none was. -/
namespace Scepter

structure Contents where
  size : Nat
  byte : Buf

namespace Contents

def empty : Contents := ⟨0, fun _ => 0⟩

/-- Positions between the old end and the written ones become part of the file. -/
def write (c : Contents) (off : Nat) (bytes : List Byte) : Contents where
  size := max c.size (off + bytes.length)
  byte := Buf.write (fun k => if c.size ≤ k then 0 else c.byte k) off bytes

def resize (c : Contents) (size : Nat) : Contents where
  size := size
  byte k := if c.size ≤ k then 0 else c.byte k

/-- The bytes of `data` are those of the file. -/
def Held (c : Contents) (data : Buf) : Prop := ∀ k < c.size, data k = c.byte k

variable {c : Contents} {data data' : Buf}

theorem Held.write (held : c.Held data) {off : Nat} {bytes : List Byte}
    (gap : ∀ k, c.size ≤ k → k < off → data' k = 0)
    (inside : ∀ k, off ≤ k → k < off + bytes.length → data' k = bytes.getD (k - off) 0)
    (kept : ∀ k < c.size, k < off ∨ off + bytes.length ≤ k → data' k = data k) :
    (c.write off bytes).Held data' := by
  intro k below
  unfold Contents.write at below ⊢
  dsimp only at below ⊢
  by_cases here : off ≤ k ∧ k < off + bytes.length
  · rw [inside k here.1 here.2]
    exact (if_pos here).symm
  · rw [Buf.writeByte _ (by omega)]
    by_cases old : c.size ≤ k
    · rw [if_pos old]
      exact gap k old (by omega)
    · rw [if_neg old, kept k (by omega) (by omega)]
      exact held k (by omega)

theorem Held.resize (held : c.Held data) {size : Nat}
    (new : ∀ k, c.size ≤ k → k < size → data' k = 0)
    (kept : ∀ k < c.size, k < size → data' k = data k) : (c.resize size).Held data' := by
  intro k below
  unfold Contents.resize at below ⊢
  dsimp only at below ⊢
  by_cases old : c.size ≤ k
  · rw [if_pos old]
    exact new k old below
  · rw [if_neg old, kept k (by omega) below]
    exact held k (by omega)

end Contents
end Scepter
