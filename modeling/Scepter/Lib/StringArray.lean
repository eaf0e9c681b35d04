import Scepter.Lib.Memory
import Mathlib.Algebra.GroupWithZero.Nat

/-! NULL-terminated arrays of pointers to NUL-terminated strings in a byte memory, and how
they are laid out: the strings packed one behind the other, the pointers in words. -/
namespace Scepter.StringArray

def CStr (m : Buf) : Nat → List Byte → Prop
  | a, [] => m a = 0
  | a, c :: rest => m a = c ∧ c ≠ 0 ∧ CStr m (a + 1) rest

instance decidableCStr (m : Buf) : ∀ a s, Decidable (CStr m a s)
  | a, [] => inferInstanceAs (Decidable (m a = 0))
  | a, c :: rest =>
    have := decidableCStr m (a + 1) rest
    inferInstanceAs (Decidable (m a = c ∧ c ≠ 0 ∧ CStr m (a + 1) rest))

def Holds (m : Buf) (word : Nat) : Nat → List (List Byte) → Prop
  | ptr, [] => m.load ptr word = 0
  | ptr, s :: rest =>
    m.load ptr word ≠ 0 ∧ CStr m (m.load ptr word) s ∧ Holds m word (ptr + word) rest

instance decidableHolds (m : Buf) (word : Nat) : ∀ ptr strings, Decidable (Holds m word ptr strings)
  | ptr, [] => inferInstanceAs (Decidable (m.load ptr word = 0))
  | ptr, s :: rest =>
    have := decidableHolds m word (ptr + word) rest
    inferInstanceAs (Decidable
      (m.load ptr word ≠ 0 ∧ CStr m (m.load ptr word) s ∧ Holds m word (ptr + word) rest))

def packed (strings : List (List Byte)) : List Byte := strings.flatMap fun s => s ++ [0]

def pointers (base : Nat) : List (List Byte) → List Nat
  | [] => []
  | s :: rest => base :: pointers (base + (s.length + 1)) rest

def storeWords (m : Buf) (word a : Nat) : List Nat → Buf
  | [] => m
  | v :: rest => storeWords (m.store a v word) word (a + word) rest

variable {m : Buf} {word a b base ptr : Nat} {s t : List Byte} {strings others : List (List Byte)}

theorem cstrUnique (first : CStr m a s) (second : CStr m a t) : s = t := by
  induction s generalizing a t with
  | nil => cases t with
    | nil => rfl
    | cons c rest => exact absurd (second.1.symm.trans first) second.2.1
  | cons c rest ih => cases t with
    | nil => exact absurd (first.1.symm.trans second) first.2.1
    | cons d others =>
      rw [first.1.symm.trans second.1, ih first.2.2 second.2.2]

theorem holdsUnique (first : Holds m word ptr strings) (second : Holds m word ptr others) :
    strings = others := by
  induction strings generalizing ptr others with
  | nil => cases others with
    | nil => rfl
    | cons s rest => exact absurd first second.1
  | cons s rest ih => cases others with
    | nil => exact absurd second first.1
    | cons t more => rw [cstrUnique first.2.1 second.2.1, ih first.2.2 second.2.2]

theorem cstrOfBytes (bytes : ∀ j b, (s ++ [0])[j]? = some b → m (a + j) = b) (nulFree : 0 ∉ s) :
    CStr m a s := by
  induction s generalizing a with
  | nil => exact bytes 0 0 rfl
  | cons c rest ih =>
    refine ⟨bytes 0 c rfl, fun nul => nulFree (nul ▸ List.mem_cons_self), ?_⟩
    refine ih (fun j b is => ?_) fun inside => nulFree (List.mem_cons_of_mem c inside)
    have next := bytes (j + 1) b is
    rwa [← Nat.add_assoc, Nat.add_right_comm] at next

theorem packedLength (strings : List (List Byte)) :
    (packed strings).length = (strings.map fun s => s.length + 1).sum := by
  induction strings with
  | nil => rfl
  | cons s rest ih =>
    unfold packed at ih ⊢
    rw [List.flatMap_cons, List.length_append, ih, List.map_cons, List.sum_cons,
      List.length_append]
    rfl

theorem pointersLength (base : Nat) (strings : List (List Byte)) :
    (pointers base strings).length = strings.length := by
  induction strings generalizing base with
  | nil => rfl
  | cons s rest ih => exact congrArg (· + 1) (ih _)

theorem pointersBelow {p : Nat} (member : p ∈ pointers base strings) :
    p ≤ base + (packed strings).length := by
  rw [packedLength]
  induction strings generalizing base with
  | nil => cases member
  | cons s rest ih =>
    rw [List.map_cons, List.sum_cons]
    rcases List.mem_cons.mp member with rfl | member
    · exact Nat.le_add_right _ _
    · have later := ih member
      omega

theorem storeWordsApart (m : Buf) {list : List Nat} (apart : b < a ∨ a + word * list.length ≤ b) :
    storeWords m word a list b = m b := by
  induction list generalizing m a with
  | nil => rfl
  | cons v rest ih =>
    rw [List.length_cons, Nat.mul_succ] at apart
    unfold storeWords
    rw [ih _ (by omega), Buf.storeByte _ _ (by omega)]

theorem loadStoreWords (m : Buf) {list : List Nat} (fits : ∀ v ∈ list, v < 256 ^ word)
    {i v : Nat} (is : list[i]? = some v) :
    (storeWords m word a list).load (a + word * i) word = v := by
  induction list generalizing m a i with
  | nil => cases is
  | cons first rest ih =>
    unfold storeWords
    cases i with
    | zero =>
      cases is
      rw [Nat.mul_zero, Nat.add_zero, Buf.loadCongr fun b low high =>
        storeWordsApart _ (Or.inl high), Buf.loadStore _ (fits v List.mem_cons_self)]
    | succ i =>
      have later := ih (m.store a first word) (a := a + word)
        (fun v member => fits v (List.mem_cons_of_mem _ member)) is
      rwa [Nat.add_assoc, Nat.add_comm word, ← Nat.mul_succ] at later

theorem holdsOfLayout
    (slots : ∀ i p, (pointers base strings ++ [0])[i]? = some p → m.load (ptr + word * i) word = p)
    (bytes : ∀ j b, (packed strings)[j]? = some b → m (base + j) = b)
    (nulFree : ∀ s ∈ strings, 0 ∉ s) (real : base ≠ 0) : Holds m word ptr strings := by
  induction strings generalizing ptr base with
  | nil => exact slots 0 0 rfl
  | cons s rest ih =>
    have first : m.load ptr word = base := slots 0 base rfl
    unfold packed at bytes
    rw [List.flatMap_cons] at bytes
    refine ⟨first.symm ▸ real, ?_, ih (fun i p is => ?_) (fun j b is => ?_)
      (fun t member => nulFree t (List.mem_cons_of_mem s member))
      (show base + (s.length + 1) ≠ 0 by omega)⟩
    · rw [first]
      refine cstrOfBytes (fun j b is => bytes j b ?_) (nulFree s List.mem_cons_self)
      rw [List.getElem?_append_left (List.getElem?_eq_some_iff.mp is).1, is]
    · have next := slots (i + 1) p is
      rwa [Nat.mul_succ, Nat.add_comm (word * i), ← Nat.add_assoc] at next
    · have next := bytes (s.length + 1 + j) b (by
        rw [List.getElem?_append_right (by simp), List.length_append, List.length_singleton,
          Nat.add_sub_cancel_left]
        exact is)
      rwa [← Nat.add_assoc] at next

end Scepter.StringArray
