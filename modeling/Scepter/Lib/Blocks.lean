import Mathlib.Data.List.Chain

/-! A range cut into blocks that follow one another without a gap, each with a header
of `hdr` bytes in front of its data. No two neighbours are free. -/
namespace Scepter.Blocks

structure Block where
  addr : Nat
  size : Nat
  free : Bool
  deriving DecidableEq, Repr

variable {hdr : Nat}

def Block.data (hdr : Nat) (b : Block) : Nat := b.addr + hdr
def Block.stop (hdr : Nat) (b : Block) : Nat := b.addr + hdr + b.size

def Contig (hdr : Nat) : Nat → List Block → Nat → Prop
  | here, [], stop => here = stop
  | here, b :: rest, stop => b.addr = here ∧ Contig hdr (b.stop hdr) rest stop

def headAddr (final : Nat) : List Block → Nat
  | [] => final
  | b :: _ => b.addr

@[simp] theorem headAddrCons (final : Nat) (b : Block) (rest : List Block) :
    headAddr final (b :: rest) = b.addr := rfl

def lastAddr (default : Nat) : List Block → Nat
  | [] => default
  | b :: rest => lastAddr b.addr rest

theorem lastAddrSnoc (default : Nat) (pre : List Block) (b : Block) :
    lastAddr default (pre ++ [b]) = b.addr := by
  induction pre generalizing default with
  | nil => rfl
  | cons c rest ih => exact ih c.addr

theorem headAddrAppend (final : Nat) (xs ys : List Block) :
    headAddr final (xs ++ ys) = headAddr (headAddr final ys) xs := by
  cases xs <;> rfl

def Settled (blocks : List Block) : Prop :=
  blocks.IsChain fun a b => ¬ (a.free = true ∧ b.free = true)

def EndsBusy (blocks : List Block) : Prop := ∀ b ∈ blocks.getLast?, b.free = false
def StartsBusy (blocks : List Block) : Prop := ∀ b ∈ blocks.head?, b.free = false

theorem endsNone : EndsBusy [] := by simp [EndsBusy]
theorem startsNone : StartsBusy [] := by simp [StartsBusy]

/-! ## Contiguous blocks -/

theorem contigAppend {here stop : Nat} {xs ys : List Block} :
    Contig hdr here (xs ++ ys) stop ↔ ∃ mid, Contig hdr here xs mid ∧ Contig hdr mid ys stop := by
  induction xs generalizing here with
  | nil => simp [Contig]
  | cons b rest ih => simp only [List.cons_append, Contig, ih, and_assoc, exists_and_left]

theorem contigAround {here stop : Nat} {pre post : List Block} {b : Block} :
    Contig hdr here (pre ++ b :: post) stop ↔
      Contig hdr here pre b.addr ∧ Contig hdr (b.stop hdr) post stop := by
  rw [contigAppend]
  constructor
  · rintro ⟨mid, before, rfl, after⟩
    exact ⟨before, after⟩
  · rintro ⟨before, after⟩
    exact ⟨b.addr, before, rfl, after⟩

theorem contigLe {here stop : Nat} {blocks : List Block} (contig : Contig hdr here blocks stop) :
    here ≤ stop := by
  induction blocks generalizing here with
  | nil => exact Nat.le_of_eq contig
  | cons b rest ih =>
    obtain ⟨rfl, rest⟩ := contig
    have := ih rest
    simp only [Block.stop] at this
    omega

theorem contigWithin {here stop : Nat} {blocks : List Block} (contig : Contig hdr here blocks stop)
    {b : Block} (member : b ∈ blocks) : here ≤ b.addr ∧ b.stop hdr ≤ stop := by
  obtain ⟨pre, post, rfl⟩ := List.append_of_mem member
  obtain ⟨before, after⟩ := contigAround.mp contig
  exact ⟨contigLe before, contigLe after⟩

theorem contigApart {here stop : Nat} {pre post : List Block} {b : Block}
    (contig : Contig hdr here (pre ++ b :: post) stop) {c : Block} (member : c ∈ pre ++ post) :
    c.stop hdr ≤ b.addr ∨ b.stop hdr ≤ c.addr := by
  obtain ⟨before, after⟩ := contigAround.mp contig
  rcases List.mem_append.mp member with inPre | inPost
  · exact Or.inl (contigWithin before inPre).2
  · exact Or.inr (contigWithin after inPost).1

theorem contigOther {here stop : Nat} {blocks : List Block} {b c : Block}
    (contig : Contig hdr here blocks stop) (inB : b ∈ blocks) (inC : c ∈ blocks) (other : c ≠ b) :
    c.stop hdr ≤ b.addr ∨ b.stop hdr ≤ c.addr := by
  obtain ⟨pre, post, rfl⟩ := List.append_of_mem inB
  refine contigApart contig ?_
  simp only [List.mem_append, List.mem_cons] at inC ⊢
  tauto

theorem contigUnique (pos : 0 < hdr) {here stop : Nat} {blocks : List Block}
    (contig : Contig hdr here blocks stop) {b c : Block} (inB : b ∈ blocks) (inC : c ∈ blocks)
    (same : b.addr = c.addr) : b = c := by
  by_contra other
  have := contigOther contig inC inB other
  simp only [Block.stop] at this
  omega

theorem contigLength {here stop : Nat} {blocks : List Block}
    (contig : Contig hdr here blocks stop) : here + hdr * blocks.length ≤ stop := by
  induction blocks generalizing here with
  | nil => exact Nat.le_of_eq contig
  | cons b rest ih =>
    obtain ⟨rfl, rest⟩ := contig
    have := ih rest
    simp only [Block.stop] at this
    rw [List.length_cons, Nat.mul_succ]
    omega

theorem contigSnoc {here stop : Nat} {blocks : List Block} (size : Nat) (free : Bool)
    (contig : Contig hdr here blocks stop) :
    Contig hdr here (blocks ++ [⟨stop, size, free⟩]) (stop + hdr + size) :=
  contigAppend.mpr ⟨stop, contig, rfl, rfl⟩

theorem contigMark {here stop : Nat} {pre post : List Block} {b : Block} (free : Bool)
    (contig : Contig hdr here (pre ++ b :: post) stop) :
    Contig hdr here (pre ++ {b with free := free} :: post) stop := by
  obtain ⟨before, after⟩ := contigAround.mp contig
  exact contigAround.mpr ⟨before, after⟩

theorem contigSplit {here stop : Nat} {pre post : List Block} {b : Block} {size : Nat}
    (room : size + hdr ≤ b.size) (contig : Contig hdr here (pre ++ b :: post) stop) :
    Contig hdr here
      (pre ++ {b with size := size} :: ⟨b.addr + hdr + size, b.size - size - hdr, true⟩ :: post)
      stop := by
  obtain ⟨before, after⟩ := contigAround.mp contig
  refine contigAround.mpr ⟨before, rfl, ?_⟩
  have same : (⟨b.addr + hdr + size, b.size - size - hdr, true⟩ : Block).stop hdr = b.stop hdr := by
    simp only [Block.stop]
    omega
  rw [same]
  exact after

theorem contigAbsorb {here stop : Nat} {pre post : List Block} {b c : Block}
    (contig : Contig hdr here (pre ++ b :: c :: post) stop) :
    Contig hdr here (pre ++ {b with size := b.size + (hdr + c.size)} :: post) stop := by
  obtain ⟨before, next, after⟩ := contigAround.mp contig
  refine contigAround.mpr ⟨before, ?_⟩
  have same : ({b with size := b.size + (hdr + c.size)} : Block).stop hdr = c.stop hdr := by
    simp only [Block.stop] at next ⊢
    omega
  rw [same]
  exact after

/-! ## Neighbours -/

theorem settledAround {pre post : List Block} {b : Block} :
    Settled (pre ++ b :: post) ↔ Settled pre ∧ Settled post ∧
      (b.free = true → EndsBusy pre ∧ StartsBusy post) := by
  simp only [Settled, List.isChain_append, List.isChain_cons, List.head?_cons, Option.mem_def,
    Option.some.injEq, EndsBusy, StartsBusy]
  constructor
  · rintro ⟨before, ⟨next, after⟩, last⟩
    refine ⟨before, after, fun free => ⟨fun a end' => ?_, fun c start => ?_⟩⟩
    · have := last a end' b rfl
      simpa [free] using this
    · have := next c start
      simpa [free] using this
  · rintro ⟨before, after, busy⟩
    refine ⟨before, ⟨fun c start both => ?_, after⟩, fun a end' c same both => ?_⟩
    · have := (busy both.1).2 c start
      simp [this] at both
    · subst same
      have := (busy both.2).1 a end'
      simp [this] at both

theorem settledBusy {pre post : List Block} {b : Block} (busy : b.free = false)
    (before : Settled pre) (after : Settled post) : Settled (pre ++ b :: post) :=
  settledAround.mpr ⟨before, after, fun free => absurd (busy.symm.trans free) (by decide)⟩

theorem settledSnoc {blocks : List Block} {b : Block} (busy : b.free = false)
    (settled : Settled blocks) : Settled (blocks ++ [b]) :=
  settledBusy busy settled List.isChain_nil

theorem settledFree {pre post : List Block} {b : Block} (before : Settled pre)
    (after : Settled post) (ends : EndsBusy pre) (starts : StartsBusy post) :
    Settled (pre ++ b :: post) :=
  settledAround.mpr ⟨before, after, fun _ => ⟨ends, starts⟩⟩

theorem settledSplit {pre post : List Block} {b c : Block} (busy : b.free = false)
    (before : Settled pre) (after : Settled post) (starts : StartsBusy post) :
    Settled (pre ++ b :: c :: post) :=
  settledBusy busy before
    (settledFree List.isChain_nil after endsNone starts)

theorem settledAfter {post : List Block} {c : Block} (settled : Settled (c :: post)) :
    Settled post ∧ (c.free = true → StartsBusy post) := by
  obtain ⟨-, after, busy⟩ := settledAround.mp (show Settled ([] ++ c :: post) from settled)
  exact ⟨after, fun free => (busy free).2⟩

end Scepter.Blocks
