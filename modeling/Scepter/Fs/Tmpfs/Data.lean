import Scepter.Lib.Contents
import Scepter.Lib.Run

/-! The bytes of a regular tmpfs file (fs/tmpfs.c): a buffer that grows by doubling and
keeps its capacity. Memory from kalloc has any contents. Offsets, sizes and counts have
32 bits. -/
namespace Scepter.Tmpfs

structure Node where
  size : Nat
  capacity : Nat
  data : Buf

/-- Doubling in 32 bits. A capacity that has become 0 doubles for ever: `none`. -/
def enlarge (need : Nat) : Nat → Nat → Option Nat
  | 0, _ => none
  | fuel + 1, ncap => if ncap < need then enlarge need fuel (ncap * 2 % 2 ^ 32) else some ncap

abbrev Memory := Option Buf

def nodeReserve (n : Node) (need : Nat) (memory : Memory) : Option (Int × Node) :=
  if need ≤ n.capacity then some (0, n)
  else (enlarge need 33 (if n.capacity ≠ 0 then n.capacity else 64)).map fun ncap =>
    match memory with
    | none => (-1, n)
    | some fresh => (0, {n with
        data := fun k => if k < n.size then n.data k else fresh k, capacity := ncap})

/-! ## Open files -/

structure File where
  node : Node
  -- the offset of each handle
  offset : Nat → Nat
  -- what it should contain, for the statements only
  contents : Contents

inductive Whence where
  | set | cur | fromEnd | other

def tmpfsOpen (f : File) (h : Nat) (trunc : Bool) : File where
  node := if trunc then {f.node with size := 0} else f.node
  offset := Function.update f.offset h 0
  contents := if trunc then f.contents.resize 0 else f.contents

def tmpfsRead (f : File) (h count : Nat) : List Byte × File :=
  let off := f.offset h
  if off ≥ f.node.size then ([], f)
  else
    let r := if (off + count) % 2 ^ 32 > f.node.size then f.node.size - off else count
    ((List.range r).map fun i => f.node.data (off + i),
      {f with offset := Function.update f.offset h ((off + r) % 2 ^ 32)})

def tmpfsWrite (f : File) (h : Nat) (buf : List Byte) (memory : Memory) : Option (Int × File) :=
  let off := f.offset h
  if buf.length = 0 then some (0, f)
  else (nodeReserve f.node ((off + buf.length) % 2 ^ 32) memory).map fun (ret, n) =>
    if ret < 0 then (-1, {f with node := n})
    else
      let next := (off + buf.length) % 2 ^ 32
      let n := {n with data := n.data.write off buf}
      let n := if next > n.size then {n with size := next} else n
      (buf.length, ⟨n, Function.update f.offset h next, f.contents.write off buf⟩)

def tmpfsSeek (f : File) (h : Nat) (offset : BitVec 32) (whence : Whence) : Int × File :=
  let pos : Option (BitVec 32) := match whence with
    | .set => some offset
    | .cur => some (BitVec.ofNat 32 (f.offset h) + offset)
    | .fromEnd => some (BitVec.ofNat 32 f.node.size + offset)
    | .other => none
  match pos with
  | none => (-1, f)
  | some pos =>
    if pos.toInt < 0 then (-1, f) else (0, {f with offset := Function.update f.offset h pos.toNat})

def tmpfsTruncate (f : File) (length : Nat) (memory : Memory) : Option (Int × File) :=
  let n := f.node
  if length > n.size then
    (nodeReserve n length memory).map fun (ret, n) =>
      if ret < 0 then (-1, {f with node := n})
      else
        let zeros := List.replicate (length - n.size) 0
        (0, {f with
          node := {n with data := n.data.write n.size zeros, size := length}
          contents := f.contents.resize length})
  else some (0, {f with node := {n with size := length}, contents := f.contents.resize length})

/-! ## Runs -/

inductive Action where
  | openFile (h : Nat) (trunc : Bool)
  | read (h count : Nat)
  | write (h : Nat) (buf : List Byte) (memory : Memory)
  | seek (h : Nat) (offset : BitVec 32) (whence : Whence)
  | truncate (length : Nat) (memory : Memory)

def step (f : File) : Action → Option File
  | .openFile h trunc => some (tmpfsOpen f h trunc)
  | .read h count => some (tmpfsRead f h count).2
  | .write h buf memory => (tmpfsWrite f h buf memory).map Prod.snd
  | .seek h offset whence => some (tmpfsSeek f h offset whence).2
  | .truncate length memory => (tmpfsTruncate f length memory).map Prod.snd

def new : File := ⟨⟨0, 0, fun _ => 0⟩, fun _ => 0, .empty⟩

structure ReadsRight (f : File) : Prop where
  size : f.node.size = f.contents.size
  enough : ∀ h count, min count (f.node.size - f.offset h) ≤ (tmpfsRead f h count).1.length
  bytes : ∀ h count i, f.offset h + i < f.node.size → i < (tmpfsRead f h count).1.length →
    (tmpfsRead f h count).1.getD i 0 = f.contents.byte (f.offset h + i)

/-- A write ends below 2^32, and the bytes between the end of the file and the written
ones are zero in the buffer that it uses. -/
def Clean (f : File) : Action → Prop
  | .write h buf memory => f.offset h + buf.length < 2 ^ 32 ∧
      ∀ k, f.node.size ≤ k → k < f.offset h →
        if f.offset h + buf.length ≤ f.node.capacity then f.node.data k = 0
        else ∀ fresh ∈ memory, fresh k = 0
  | _ => True

/-! ## The buffer -/

structure Sound (f : File) : Prop where
  size : f.node.size = f.contents.size
  room : f.node.size ≤ f.node.capacity
  held : f.contents.Held f.node.data

variable {f : File}

theorem enlargeEnough {need fuel ncap result : Nat} (done : enlarge need fuel ncap = some result) :
    need ≤ result := by
  induction fuel generalizing ncap with
  | zero => cases done
  | succ fuel ih =>
    unfold enlarge at done
    split at done
    · exact ih done
    · cases done
      omega

structure Reserved (n n' : Node) (need : Nat) (memory : Memory) : Prop where
  size : n'.size = n.size
  room : need ≤ n'.capacity
  wide : n.capacity ≤ n'.capacity
  kept : ∀ k < n.size, n'.data k = n.data k
  behind : ∀ k, n.size ≤ k →
    if need ≤ n.capacity then n'.data k = n.data k else ∃ fresh ∈ memory, n'.data k = fresh k

theorem reserveSpec {n n' : Node} {need : Nat} {memory : Memory} {ret : Int}
    (done : nodeReserve n need memory = some (ret, n')) :
    ret < 0 ∧ n' = n ∨ ¬ret < 0 ∧ Reserved n n' need memory := by
  unfold nodeReserve at done
  split at done <;> rename_i fits
  · cases done
    exact .inr ⟨by decide, rfl, fits, Nat.le_refl _, fun _ _ => rfl, fun _ _ => by
      rw [if_pos fits]⟩
  · obtain ⟨ncap, large, same⟩ := Option.map_eq_some_iff.mp done
    have enough := enlargeEnough large
    cases memory with
    | none =>
      cases same
      exact .inl ⟨by decide, rfl⟩
    | some fresh =>
      cases same
      refine .inr ⟨by decide, rfl, enough, Nat.le_trans (Nat.le_of_not_le fits) enough, fun k below => if_pos below,
        fun k behind => ?_⟩
      rw [if_neg fits]
      exact ⟨fresh, rfl, if_neg (Nat.not_lt.mpr behind)⟩

/-! ## Calls -/

theorem newSound : Sound new := ⟨rfl, Nat.le_refl _, fun _ => nofun⟩

theorem Sound.moved (sound : Sound f) (offset : Nat → Nat) : Sound {f with offset := offset} :=
  ⟨sound.size, sound.room, sound.held⟩

theorem Sound.cut (sound : Sound f) {length : Nat} (less : length ≤ f.node.size)
    (offset : Nat → Nat) :
    Sound ⟨{f.node with size := length}, offset, f.contents.resize length⟩ := by
  refine ⟨rfl, Nat.le_trans less sound.room, sound.held.resize (fun k old new => ?_) fun _ _ _ => rfl⟩
  have size := sound.size
  omega

theorem openSound (sound : Sound f) (h : Nat) (trunc : Bool) : Sound (tmpfsOpen f h trunc) := by
  unfold tmpfsOpen
  cases trunc with
  | false => exact sound.moved _
  | true => exact sound.cut (Nat.zero_le _) _

theorem readSound (sound : Sound f) (h count : Nat) : Sound (tmpfsRead f h count).2 := by
  unfold tmpfsRead
  dsimp only
  split
  · exact sound
  · exact sound.moved _

theorem seekSound (sound : Sound f) (h : Nat) (offset : BitVec 32) (whence : Whence) :
    Sound (tmpfsSeek f h offset whence).2 := by
  unfold tmpfsSeek
  dsimp only
  split
  · exact sound
  split
  · exact sound
  · exact sound.moved _

theorem truncateSound (sound : Sound f) {length : Nat} {memory : Memory} {ret : Int} {f' : File}
    (done : tmpfsTruncate f length memory = some (ret, f')) : Sound f' := by
  have size := sound.size
  unfold tmpfsTruncate at done
  dsimp only at done
  split at done <;> rename_i grows
  · obtain ⟨⟨ok, n⟩, reserved, same⟩ := Option.map_eq_some_iff.mp done
    dsimp only at same
    rcases reserveSpec reserved with ⟨failed, kept⟩ | ⟨fine, spec⟩
    · rw [if_pos failed, kept] at same
      cases same
      exact sound
    · rw [if_neg fine] at same
      cases same
      refine ⟨rfl, spec.room, sound.held.resize (fun k old new => ?_) fun k old _ => ?_⟩
      · dsimp only
        unfold Buf.write
        rw [spec.size, List.length_replicate, if_pos (by omega), List.getD_eq_getElem?_getD,
          List.getElem?_replicate]
        split <;> rfl
      · dsimp only
        rw [spec.size, Buf.writeByte _ (.inl (by omega)), spec.kept k (by omega)]
  · cases done
    exact sound.cut (Nat.le_of_not_lt grows) _

theorem writeSound (sound : Sound f) {h : Nat} {buf : List Byte} {memory : Memory} {ret : Int}
    {f' : File} (clean : Clean f (.write h buf memory))
    (done : tmpfsWrite f h buf memory = some (ret, f')) : Sound f' := by
  obtain ⟨below, gap⟩ := clean
  have size := sound.size
  have room := sound.room
  unfold tmpfsWrite at done
  dsimp only at done
  rw [Nat.mod_eq_of_lt below] at done
  split at done <;> rename_i some'
  · cases done
    exact sound
  obtain ⟨⟨ok, n⟩, reserved, same⟩ := Option.map_eq_some_iff.mp done
  dsimp only at same
  rcases reserveSpec reserved with ⟨failed, kept⟩ | ⟨fine, spec⟩
  · rw [if_pos failed, kept] at same
    cases same
    exact sound
  rw [if_neg fine] at same
  cases same
  have wide := spec.wide
  have enough := spec.room
  have held : (f.contents.write (f.offset h) buf).Held (n.data.write (f.offset h) buf) := by
    refine sound.held.write (fun k old new => ?_) (fun k low high => ?_) fun k old apart => ?_
    · rw [Buf.writeByte _ (.inl new)]
      have behind := spec.behind k (by omega)
      have zero := gap k (by omega) new
      by_cases fits : f.offset h + buf.length ≤ f.node.capacity
      · rw [if_pos fits] at behind zero
        exact behind.trans zero
      · rw [if_neg fits] at behind zero
        obtain ⟨fresh, given, byte⟩ := behind
        exact byte.trans (zero fresh given)
    · exact if_pos ⟨low, high⟩
    · rw [Buf.writeByte _ apart]
      exact spec.kept k (by omega)
  have grown : (f.contents.write (f.offset h) buf).size =
      max f.node.size (f.offset h + buf.length) := by
    rw [size]
    rfl
  by_cases longer : f.offset h + buf.length > n.size
  · rw [if_pos longer]
    rw [spec.size] at longer
    exact ⟨by dsimp only; omega, enough, held⟩
  · rw [if_neg longer]
    rw [spec.size] at longer
    refine ⟨?_, ?_, held⟩
    · dsimp only
      rw [spec.size]
      omega
    · dsimp only
      rw [spec.size]
      omega

theorem stepSound (f : File) (a : Action) (f' : File) (sound : Sound f) (clean : Clean f a)
    (taken : step f a = some f') : Sound f' := by
  cases a with
  | openFile h trunc =>
    cases taken
    exact openSound sound h trunc
  | read h count =>
    cases taken
    exact readSound sound h count
  | write h buf memory =>
    obtain ⟨⟨ret, mid⟩, done, rfl⟩ := Option.map_eq_some_iff.mp taken
    exact writeSound sound clean done
  | seek h offset whence =>
    cases taken
    exact seekSound sound h offset whence
  | truncate length memory =>
    obtain ⟨⟨ret, mid⟩, done, rfl⟩ := Option.map_eq_some_iff.mp taken
    exact truncateSound sound done

theorem Sound.readsRight (sound : Sound f) : ReadsRight f := by
  refine ⟨sound.size, fun h count => ?_, fun h count i inside short => ?_⟩
  · unfold tmpfsRead
    dsimp only
    split
    · dsimp only [List.length_nil]
      omega
    · dsimp only
      rw [List.length_map, List.length_range]
      split <;> omega
  · have held := sound.held (f.offset h + i) (by rw [← sound.size]; exact inside)
    unfold tmpfsRead at short ⊢
    dsimp only at short ⊢
    rw [if_neg (by omega)] at short ⊢
    dsimp only at short ⊢
    rw [List.length_map, List.length_range] at short
    rw [List.getD_eq_getElem?_getD, List.getElem?_map, List.getElem?_range short]
    exact held

/-- In every run whose writes are all clean, every position below the size reads as the
byte last written there, or zero. -/
theorem tmpfsReadsRight {acts : List Action} {final : File}
    (clean : Run.Meets step Clean new acts) (ran : Run.run step new acts = some final) :
    ReadsRight final :=
  (Run.invariantMeets stepSound newSound clean ran).readsRight

def holes : List Action :=
  [.openFile 1 false, .seek 1 5 .set, .write 1 [7, 8] (some fun _ => 0),
    .truncate 6 none, .truncate 10 none, .seek 1 0 .fromEnd, .write 1 [9] none]

theorem holesRead : ∃ final, Run.run step new holes = some final ∧ ReadsRight final := by
  have clean : Run.Meets step Clean new holes := by
    refine ⟨trivial, fun _ taken => ?_⟩
    cases taken
    refine ⟨trivial, fun _ taken => ?_⟩
    cases taken
    refine ⟨⟨by decide, fun k _ _ => ?_⟩, fun _ taken => ?_⟩
    · intro fresh given
      cases given
      rfl
    cases taken
    refine ⟨trivial, fun _ taken => ?_⟩
    cases taken
    refine ⟨trivial, fun _ taken => ?_⟩
    cases taken
    refine ⟨trivial, fun _ taken => ?_⟩
    cases taken
    refine ⟨⟨by decide, fun k old new => ?_⟩, fun _ _ => trivial⟩
    exact absurd new (Nat.not_lt.mpr old)
  exact ⟨_, rfl, tmpfsReadsRight clean rfl⟩

/-- A write behind the end shows old memory, and after a cut the old bytes. -/
theorem gapNotZero :
    (∃ final, Run.run step new [.seek 1 2 .set, .write 1 [7] (some fun _ => 0xAA)] = some final ∧
      ¬ReadsRight final) ∧
    ∃ final, Run.run step new [.write 1 [1, 2, 3] (some fun _ => 0), .truncate 0 none,
      .write 1 [7] none] = some final ∧ ¬ReadsRight final := by
  refine ⟨⟨_, rfl, fun right => ?_⟩, ⟨_, rfl, fun right => ?_⟩⟩
  · exact absurd (right.bytes 2 1 0 (by decide) (by decide)) (by decide)
  · exact absurd (right.bytes 2 1 0 (by decide) (by decide)) (by decide)

end Scepter.Tmpfs
