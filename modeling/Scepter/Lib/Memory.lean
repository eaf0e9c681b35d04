import Scepter.Lib.Bytes
import Mathlib.Data.List.Basic

/-! Little-endian numbers of any width in a byte memory, and lists linked through
the memory: the first word of each node is the address of the next one. -/
namespace Scepter.Buf

def load (m : Buf) (a : Nat) : Nat → Nat
  | 0 => 0
  | k + 1 => (m a).toNat + 256 * load m (a + 1) k

def store (m : Buf) (a v : Nat) : Nat → Buf
  | 0 => m
  | k + 1 => store (Function.update m a (BitVec.ofNat 8 v)) (a + 1) (v / 256) k

def write (m : Buf) (a : Nat) (bytes : List Byte) : Buf :=
  fun b => if a ≤ b ∧ b < a + bytes.length then bytes.getD (b - a) 0 else m b

theorem storeByte (m : Buf) {a b k : Nat} (v : Nat) (apart : b < a ∨ a + k ≤ b) :
    m.store a v k b = m b := by
  induction k generalizing m a v with
  | zero => rfl
  | succ k ih =>
    unfold store
    rw [ih _ _ (by omega), Function.update_of_ne (by omega)]

theorem writeByte (m : Buf) {a b : Nat} {bytes : List Byte}
    (apart : b < a ∨ a + bytes.length ≤ b) : m.write a bytes b = m b :=
  if_neg (by omega)

theorem loadCongr {m m' : Buf} {a k : Nat} (same : ∀ b, a ≤ b → b < a + k → m' b = m b) :
    m'.load a k = m.load a k := by
  induction k generalizing a with
  | zero => rfl
  | succ k ih =>
    have head := same a (Nat.le_refl a) (by omega)
    have tail := ih (a := a + 1) fun b low high => same b (by omega) (by omega)
    unfold load
    rw [head, tail]

theorem loadStoreApart (m : Buf) {a k b j : Nat} (v : Nat) (apart : b + j ≤ a ∨ a + k ≤ b) :
    (m.store a v k).load b j = m.load b j :=
  loadCongr fun c low high => storeByte m v (by omega)

theorem loadStore (m : Buf) {a v k : Nat} (fits : v < 256 ^ k) : (m.store a v k).load a k = v := by
  induction k generalizing m a v with
  | zero =>
    rw [Nat.pow_zero] at fits
    exact (Nat.lt_one_iff.mp fits).symm
  | succ k ih =>
    have less : v / 256 < 256 ^ k := by
      rw [Nat.pow_succ] at fits
      exact Nat.div_lt_of_lt_mul (by rwa [Nat.mul_comm])
    unfold store load
    rw [ih _ less, storeByte _ _ (Or.inl (Nat.lt_succ_self a)), Function.update_self,
      BitVec.toNat_ofNat]
    omega

/-- The nodes of a list of `k`-byte words, from the head pointer to NULL. -/
def Chain (k : Nat) (m : Buf) : Nat → List Nat → Prop
  | head, [] => head = 0
  | head, a :: rest => head = a ∧ Chain k m (m.load a k) rest

theorem chainCongr {k : Nat} {m m' : Buf} {head : Nat} {nodes : List Nat}
    (same : ∀ a ∈ nodes, ∀ b, a ≤ b → b < a + k → m' b = m b) (chain : Chain k m head nodes) :
    Chain k m' head nodes := by
  induction nodes generalizing head with
  | nil => exact chain
  | cons a rest ih =>
    obtain ⟨first, others⟩ := chain
    have next := loadCongr (same a List.mem_cons_self)
    refine ⟨first, ?_⟩
    rw [next]
    exact ih (fun c member => same c (List.mem_cons_of_mem a member)) others

theorem chainPush {k : Nat} {m : Buf} {head a : Nat} {nodes : List Nat}
    (chain : Chain k m head nodes) (fits : head < 256 ^ k)
    (apart : ∀ b ∈ nodes, b + k ≤ a ∨ a + k ≤ b) :
    Chain k (m.store a head k) a (a :: nodes) := by
  refine ⟨rfl, ?_⟩
  rw [loadStore m fits]
  refine chainCongr (fun b member c low high => storeByte m head ?_) chain
  have := apart b member
  omega

end Scepter.Buf
