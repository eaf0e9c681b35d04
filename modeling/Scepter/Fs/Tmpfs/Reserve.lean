import Mathlib.Algebra.Group.Nat.Defs
import Scepter.Fs.Tmpfs.Data

/-! When node_reserve (fs/tmpfs.c) comes back, and with what. Its loop doubles a 32-bit
capacity until it covers the request. Each capacity a run leaves is a power of two up
to 2^31, and from there the loop finds no request above 2^31: it doubles 0 for ever. -/
namespace Scepter.Tmpfs

def Node.firstCapacity (n : Node) : Nat := if n.capacity ≠ 0 then n.capacity else 64

-- The capacity after `k` rounds.
def doubled (c k : Nat) : Nat := c * 2 ^ k % 2 ^ 32

structure ReservesRight (n : Node) (need : Nat) (memory : Memory) : Prop where
  ends : (nodeReserve n need memory).isSome
  right : ∀ ret n', nodeReserve n need memory = some (ret, n') → 0 ≤ ret →
    need ≤ n'.capacity ∧ n'.size = n.size ∧ ∀ k < min need n.size, n'.data k = n.data k

/- Whatever kalloc says, tmpfs_write returns, and a write that succeeds has put its
bytes, from the offset on, inside the buffer. -/
structure WriteInside (f : File) (h : Nat) (buf : List Byte) : Prop where
  ends : ∀ memory, (tmpfsWrite f h buf memory).isSome
  inside : ∀ memory ret f', tmpfsWrite f h buf memory = some (ret, f') → 0 ≤ ret → buf ≠ [] →
    f.offset h + buf.length ≤ f'.node.capacity

-- The zeros go between the old size and the length.
structure TruncateInside (f : File) (length : Nat) : Prop where
  ends : ∀ memory, (tmpfsTruncate f length memory).isSome
  inside : ∀ memory ret f', tmpfsTruncate f length memory = some (ret, f') → 0 ≤ ret →
    length ≤ f'.node.capacity

/-! ## Doubling -/

theorem doubledStep (c k : Nat) : doubled (c * 2 % 2 ^ 32) k = doubled c (k + 1) := by
  unfold doubled
  rw [Nat.mod_mul_mod, Nat.mul_assoc, ← Nat.pow_succ']

theorem doubledGone (c : Nat) {k : Nat} (late : 32 ≤ k) : doubled c k = 0 := by
  obtain ⟨rest, rfl⟩ := Nat.exists_eq_add_of_le late
  unfold doubled
  rw [Nat.pow_add, Nat.mul_left_comm, Nat.mul_mod_right]

theorem doubledReaches {c need : Nat} (some : 0 < c) (small : c < 2 ^ 32)
    (half : need ≤ 2 ^ 31) : ∃ k, need ≤ doubled c k := by
  have low : 2 ^ c.log2 ≤ c := Nat.log2_self_le (by omega)
  have high : c < 2 ^ (c.log2 + 1) := Nat.lt_log2_self
  have top : c.log2 < 32 := (Nat.log2_lt (by omega)).mpr small
  refine ⟨31 - c.log2, ?_⟩
  have below : c * 2 ^ (31 - c.log2) < 2 ^ 32 := by
    calc c * 2 ^ (31 - c.log2) < 2 ^ (c.log2 + 1) * 2 ^ (31 - c.log2) :=
          Nat.mul_lt_mul_of_pos_right high (Nat.two_pow_pos _)
      _ = 2 ^ 32 := by rw [← Nat.pow_add]; congr 1; omega
  have above : 2 ^ 31 ≤ c * 2 ^ (31 - c.log2) := by
    calc 2 ^ 31 = 2 ^ c.log2 * 2 ^ (31 - c.log2) := by rw [← Nat.pow_add]; congr 1; omega
      _ ≤ c * 2 ^ (31 - c.log2) := Nat.mul_le_mul_right _ low
  unfold doubled
  rw [Nat.mod_eq_of_lt below]
  omega

theorem enlargeEnds {c : Nat} (need fuel : Nat) (small : c < 2 ^ 32) :
    (enlarge need fuel c).isSome ↔ ∃ k < fuel, need ≤ doubled c k := by
  induction fuel generalizing c with
  | zero => simp [enlarge]
  | succ fuel ih =>
    unfold enlarge
    have first : doubled c 0 = c := by
      rw [doubled, Nat.pow_zero, Nat.mul_one, Nat.mod_eq_of_lt small]
    by_cases short : c < need
    · rw [if_pos short, ih (Nat.mod_lt _ (by decide))]
      constructor
      · rintro ⟨k, inside, enough⟩
        exact ⟨k + 1, by omega, by rwa [← doubledStep]⟩
      · rintro ⟨k, inside, enough⟩
        cases k with
        | zero => omega
        | succ k => exact ⟨k, by omega, by rwa [doubledStep]⟩
    · rw [if_neg short]
      simp only [Option.isSome_some, true_iff]
      exact ⟨0, by omega, by omega⟩

theorem enlargeRounds {c : Nat} (need : Nat) (small : c < 2 ^ 32) :
    (enlarge need 33 c).isSome ↔ ∃ k, need ≤ doubled c k := by
  rw [enlargeEnds need 33 small]
  constructor
  · rintro ⟨k, -, enough⟩
    exact ⟨k, enough⟩
  · rintro ⟨k, enough⟩
    by_cases inside : k < 33
    · exact ⟨k, inside, enough⟩
    · rw [doubledGone c (by omega)] at enough
      exact ⟨0, by omega, by omega⟩

/-! ## node_reserve -/

theorem reserveEnds {n : Node} (need : Nat) (memory : Memory) (small : n.capacity < 2 ^ 32) :
    (nodeReserve n need memory).isSome ↔
      need ≤ n.capacity ∨ ∃ k, need ≤ doubled n.firstCapacity k := by
  have first : n.firstCapacity < 2 ^ 32 := by
    unfold Node.firstCapacity
    split <;> omega
  unfold nodeReserve
  by_cases fits : need ≤ n.capacity
  · simp [fits]
  · rw [if_neg fits, Option.isSome_map, ← Node.firstCapacity, enlargeRounds need first]
    simp only [fits, false_or]

theorem reserveRight {n n' : Node} {need : Nat} {memory : Memory} {ret : Int}
    (done : nodeReserve n need memory = some (ret, n')) (fine : 0 ≤ ret) :
    need ≤ n'.capacity ∧ n'.size = n.size ∧ ∀ k < min need n.size, n'.data k = n.data k := by
  rcases reserveSpec done with ⟨failed, -⟩ | ⟨-, spec⟩
  · omega
  · exact ⟨spec.room, spec.size, fun k inside => spec.kept k (by omega)⟩

theorem reservesRightIff {n : Node} (need : Nat) (memory : Memory) (small : n.capacity < 2 ^ 32) :
    ReservesRight n need memory ↔
      need ≤ 2 ^ 31 ∨ need ≤ n.capacity ∨ ∃ k, need ≤ doubled n.firstCapacity k := by
  have ends := reserveEnds need memory small
  constructor
  · intro right
    exact .inr (ends.mp right.ends)
  · intro reached
    refine ⟨ends.mpr ?_, fun _ _ done fine => reserveRight done fine⟩
    rcases reached with half | enough
    · refine .inr (doubledReaches ?_ ?_ half) <;> unfold Node.firstCapacity <;> split <;> omega
    · exact enough

/-! ## Runs -/

structure Grown (n : Node) : Prop where
  power : n.capacity = 0 ∨ ∃ j ≤ 31, n.capacity = 2 ^ j
  room : n.size ≤ n.capacity

theorem Grown.half {n : Node} (grown : Grown n) : n.capacity ≤ 2 ^ 31 := by
  rcases grown.power with none | ⟨j, top, same⟩
  · omega
  · rw [same]
    exact Nat.pow_le_pow_right (by decide) top

theorem enlargePower {need fuel c result : Nat} (power : c = 0 ∨ ∃ j ≤ 31, c = 2 ^ j)
    (done : enlarge need fuel c = some result) : result = 0 ∨ ∃ j ≤ 31, result = 2 ^ j := by
  induction fuel generalizing c with
  | zero => cases done
  | succ fuel ih =>
    unfold enlarge at done
    split at done
    · refine ih ?_ done
      rcases power with rfl | ⟨j, top, rfl⟩
      · exact .inl rfl
      · by_cases last : j = 31
        · exact .inl (by rw [last]; decide)
        · refine .inr ⟨j + 1, by omega, ?_⟩
          have below : 2 ^ (j + 1) ≤ 2 ^ 31 := Nat.pow_le_pow_right (by decide) (by omega)
          rw [← Nat.pow_succ, Nat.mod_eq_of_lt (by omega)]
    · cases done
      exact power

theorem Grown.first {n : Node} (grown : Grown n) :
    n.firstCapacity = 0 ∨ ∃ j ≤ 31, n.firstCapacity = 2 ^ j := by
  unfold Node.firstCapacity
  split
  · exact grown.power
  · exact .inr ⟨6, by decide, rfl⟩

theorem reserveGrown {n n' : Node} {need : Nat} {memory : Memory} {ret : Int} (grown : Grown n)
    (done : nodeReserve n need memory = some (ret, n')) : Grown n' := by
  have room := grown.room
  unfold nodeReserve at done
  split at done
  · cases done
    exact grown
  · obtain ⟨ncap, large, same⟩ := Option.map_eq_some_iff.mp done
    have enough := enlargeEnough large
    have power := enlargePower grown.first large
    cases memory with
    | none =>
      cases same
      exact grown
    | some fresh =>
      cases same
      exact ⟨power, by dsimp only; omega⟩

theorem grownEnds {n : Node} (grown : Grown n) (need : Nat) (memory : Memory) :
    (nodeReserve n need memory).isSome ↔ need ≤ 2 ^ 31 := by
  have half := grown.half
  constructor
  · intro ends
    obtain ⟨⟨ret, n'⟩, done⟩ := Option.isSome_iff_exists.mp ends
    unfold nodeReserve at done
    split at done
    · omega
    · obtain ⟨ncap, large, -⟩ := Option.map_eq_some_iff.mp done
      have enough := enlargeEnough large
      rcases enlargePower grown.first large with none | ⟨j, top, same⟩
      · omega
      · have below : 2 ^ j ≤ 2 ^ 31 := Nat.pow_le_pow_right (by decide) top
        omega
  · intro small
    exact ((reservesRightIff need memory (by omega)).mpr (.inl small)).ends

theorem reserveFresh {n n' : Node} {need : Nat} {fresh : Buf} {ret : Int}
    (done : nodeReserve n need (some fresh) = some (ret, n')) : ret = 0 := by
  unfold nodeReserve at done
  split at done
  · cases done
    rfl
  · obtain ⟨ncap, -, same⟩ := Option.map_eq_some_iff.mp done
    cases same
    rfl

variable {f : File}

theorem newGrown : Grown new.node := ⟨.inl rfl, Nat.le_refl _⟩

theorem writeGrown (grown : Grown f.node) {h : Nat} {buf : List Byte} {memory : Memory}
    {ret : Int} {f' : File} (done : tmpfsWrite f h buf memory = some (ret, f')) :
    Grown f'.node := by
  unfold tmpfsWrite at done
  dsimp only at done
  split at done
  · cases done
    exact grown
  obtain ⟨⟨ok, n⟩, reserved, same⟩ := Option.map_eq_some_iff.mp done
  dsimp only at same
  have kept := reserveGrown grown reserved
  split at same <;> rename_i sign
  · cases same
    exact kept
  · have room := (reserveRight reserved (by omega)).1
    cases same
    dsimp only
    split
    · exact ⟨kept.power, room⟩
    · exact ⟨kept.power, kept.room⟩

theorem truncateGrown (grown : Grown f.node) {length : Nat} {memory : Memory}
    {ret : Int} {f' : File} (done : tmpfsTruncate f length memory = some (ret, f')) :
    Grown f'.node := by
  have room := grown.room
  unfold tmpfsTruncate at done
  dsimp only at done
  split at done <;> rename_i grows
  · obtain ⟨⟨ok, n⟩, reserved, same⟩ := Option.map_eq_some_iff.mp done
    dsimp only at same
    have kept := reserveGrown grown reserved
    split at same <;> rename_i sign
    · cases same
      exact kept
    · have enough := (reserveRight reserved (by omega)).1
      cases same
      exact ⟨kept.power, enough⟩
  · cases done
    exact ⟨grown.power, by dsimp only; omega⟩

theorem stepGrown (f : File) (a : Action) (f' : File) (grown : Grown f.node)
    (taken : step f a = some f') : Grown f'.node := by
  cases a with
  | openFile h trunc =>
    cases taken
    unfold tmpfsOpen
    cases trunc with
    | false => exact grown
    | true => exact ⟨grown.power, Nat.zero_le _⟩
  | read h count =>
    cases taken
    unfold tmpfsRead
    dsimp only
    split <;> exact grown
  | write h buf memory =>
    obtain ⟨⟨ret, mid⟩, done, rfl⟩ := Option.map_eq_some_iff.mp taken
    exact writeGrown grown done
  | seek h offset whence =>
    cases taken
    unfold tmpfsSeek
    dsimp only
    split
    · exact grown
    · split <;> exact grown
  | truncate length memory =>
    obtain ⟨⟨ret, mid⟩, done, rfl⟩ := Option.map_eq_some_iff.mp taken
    exact truncateGrown grown done

theorem writeInsideIff (grown : Grown f.node) (h : Nat) (buf : List Byte) :
    WriteInside f h buf ↔ buf = [] ∨ f.offset h + buf.length ≤ 2 ^ 31 := by
  by_cases nothing : buf = []
  · simp only [nothing, true_or, iff_true]
    refine ⟨fun memory => ?_, fun _ _ _ _ _ bytes => absurd rfl bytes⟩
    simp [tmpfsWrite]
  have some' : ¬buf.length = 0 := fun none => nothing (List.length_eq_zero_iff.mp none)
  simp only [nothing, false_or]
  constructor
  · intro right
    obtain ⟨⟨ret, f'⟩, done⟩ := Option.isSome_iff_exists.mp (right.ends (some fun _ => 0))
    have after := writeGrown grown done
    have half := after.half
    have stored := right.inside _ ret f' done
    unfold tmpfsWrite at done
    dsimp only at done
    rw [if_neg some'] at done
    obtain ⟨⟨ok, n⟩, reserved, same⟩ := Option.map_eq_some_iff.mp done
    have fine := reserveFresh reserved
    subst fine
    cases same
    have inside := stored (by omega) nothing
    omega
  · intro small
    have exact' : (f.offset h + buf.length) % 2 ^ 32 = f.offset h + buf.length :=
      Nat.mod_eq_of_lt (by omega)
    refine ⟨fun memory => ?_, fun memory ret f' done fine _ => ?_⟩
    · unfold tmpfsWrite
      dsimp only
      rw [if_neg some', Option.isSome_map, exact', grownEnds grown]
      exact small
    · unfold tmpfsWrite at done
      dsimp only at done
      rw [if_neg some', exact'] at done
      obtain ⟨⟨ok, n⟩, reserved, same⟩ := Option.map_eq_some_iff.mp done
      dsimp only at same
      split at same <;> rename_i sign
      · cases same
        omega
      · have enough := (reserveRight reserved (by omega)).1
        cases same
        dsimp only
        split <;> exact enough

theorem truncateInsideIff (grown : Grown f.node) (length : Nat) :
    TruncateInside f length ↔ length ≤ 2 ^ 31 := by
  have room := grown.room
  have half := grown.half
  by_cases grows : length > f.node.size
  · have ends (memory : Memory) : (tmpfsTruncate f length memory).isSome ↔ length ≤ 2 ^ 31 := by
      unfold tmpfsTruncate
      dsimp only
      rw [if_pos grows, Option.isSome_map, grownEnds grown]
    refine ⟨fun right => (ends none).mp (right.ends none), fun small =>
      ⟨fun memory => (ends memory).mpr small, fun memory ret f' done fine => ?_⟩⟩
    unfold tmpfsTruncate at done
    dsimp only at done
    rw [if_pos grows] at done
    obtain ⟨⟨ok, n⟩, reserved, same⟩ := Option.map_eq_some_iff.mp done
    dsimp only at same
    split at same <;> rename_i sign
    · cases same
      omega
    · have enough := (reserveRight reserved (by omega)).1
      cases same
      exact enough
  · have small : length ≤ 2 ^ 31 := by omega
    simp only [small, iff_true]
    refine ⟨fun memory => by simp [tmpfsTruncate, grows], fun memory ret f' done _ => ?_⟩
    simp only [tmpfsTruncate, if_neg grows, Option.some.injEq, Prod.mk.injEq] at done
    obtain ⟨-, rfl⟩ := done
    dsimp only
    omega

/-- When node_reserve is right for any buffer, and when the calls that rest on it are in
the states a run reaches: as long as the bytes end at 2^31. -/
theorem tmpfsGrowsRight (n : Node) (need : Nat) (memory : Memory) (acts : List Action)
    (final : File) :
    (n.capacity < 2 ^ 32 →
      (ReservesRight n need memory ↔
        need ≤ 2 ^ 31 ∨ need ≤ n.capacity ∨ ∃ k, need ≤ doubled n.firstCapacity k)) ∧
    (Run.run step new acts = some final →
      (∀ h buf, WriteInside final h buf ↔ buf = [] ∨ final.offset h + buf.length ≤ 2 ^ 31) ∧
      ∀ length, TruncateInside final length ↔ length ≤ 2 ^ 31) := by
  refine ⟨fun small => reservesRightIff need memory small, fun ran => ?_⟩
  have grown : Grown final.node :=
    Run.invariant (P := fun f => Grown f.node) stepGrown newGrown ran
  exact ⟨writeInsideIff grown, truncateInsideIff grown⟩

def threeBytes : List Action := [.openFile 1 false, .write 1 [1, 2, 3] (some fun _ => 0)]

theorem threeBytesGrowRight :
    ReservesRight ⟨0, 3, fun _ => 0⟩ 0xC0000000 none ∧
      ∃ final, Run.run step new threeBytes = some final ∧ WriteInside final 1 [4] ∧
        ¬ TruncateInside final 0x80000001 := by
  obtain ⟨reserves, -⟩ := tmpfsGrowsRight ⟨0, 3, fun _ => 0⟩ 0xC0000000 none [] new
  refine ⟨(reserves (by decide)).mpr (.inr (.inr ⟨30, by decide⟩)), _, rfl, ?_⟩
  obtain ⟨-, runs⟩ := tmpfsGrowsRight ⟨0, 3, fun _ => 0⟩ 0xC0000000 none threeBytes _
  obtain ⟨writes, truncates⟩ := runs rfl
  exact ⟨(writes 1 [4]).mpr (.inr (by decide)), fun right =>
    absurd ((truncates _).mp right) (by decide)⟩

/-- After lseek to 0x7FFFFFFF a write of two bytes never returns. -/
theorem writeBehindHalfHangs :
    ¬ ∀ (acts : List Action) (final : File), Run.run step new acts = some final →
      ∀ (h : Nat) (buf : List Byte), buf.length < 2 ^ 32 → WriteInside final h buf := by
  intro claimed
  have right := claimed [.openFile 1 false, .seek 1 0x7FFFFFFF .set] _ rfl 1 [1, 2] (by decide)
  exact absurd (right.ends none) (by decide)

end Scepter.Tmpfs
