import Scepter.Crt.MallocRuns

/-! The bytes that programs keep in their blocks: no call stores to the data of a block
that is in use, and realloc carries them over. -/
namespace Scepter.Malloc
open Blocks Run

variable {abi : Abi}

/-! ## realloc -/

structure Carried (abi : Abi) (s : State) (e : Live) (n q : Nat) (h : Heap) : Prop where
  held : q ≠ 0 → ∀ i < min e.size n, h.mem (q + i) = s.heap.mem (e.ptr + i)
  others : ∀ f ∈ s.live, f ≠ e → ∀ i < f.size, h.mem (f.ptr + i) = s.heap.mem (f.ptr + i)
  failed : q = 0 → n ≠ 0 → Sound abi ⟨h, s.live⟩ ∧
    ∀ i < e.size, h.mem (e.ptr + i) = s.heap.mem (e.ptr + i)

/-- malloc gave the pointer, and where the block has to be moved, the new one does not wrap. -/
def Resizable (abi : Abi) (s : State) (p n : Nat) (enough : Bool) : Prop :=
  Own abi s p ∧
  (Moves abi s.heap p (align8 abi n) → Grows abi s.heap enough (align8 abi n))
instance (abi s p n enough) : Decidable (Resizable abi s p n enough) := by
  unfold Resizable
  infer_instance

theorem reallocCarries (start s : State) (acts : List Action) (e : Live) (n : Nat) (enough : Bool)
    (fresh : Fresh start) (calm : Meets (step abi) (Calm abi) start acts)
    (ran : run (step abi) start acts = some s) (member : e ∈ s.live) (small : n < abi.word)
    (resizable : Resizable abi s e.ptr n enough) :
    ∃ q h, realloc abi s.heap enough e.ptr n = some (q, h) ∧ Carried abi s e n q h := by
  obtain ⟨blocks, good⟩ := runGood fresh calm ran
  have own := resizable.1 e member rfl
  by_cases zero : n = 0
  · obtain ⟨h, -, out, -, kept⟩ := freeSpec good member own
    obtain ⟨b, inB, -, -, low, -⟩ := good.held e member
    have pos := (blockBelow good.shape inB).1
    have nonzero : e.ptr ≠ 0 := by omega
    refine ⟨0, h, by simp only [realloc, if_neg nonzero, if_pos zero, out, Option.map_some],
      fun none => absurd rfl none, fun f inF _ => ?_, fun _ asked => absurd zero asked⟩
    exact ownBytes good inF inF (dataLive good kept)
  · obtain ⟨q, h, blocks', out, failed, -, moved⟩ :=
      reallocSpec good member own small zero resizable.2
    refine ⟨q, h, out, moved.held, fun f inF other => ?_, fun none _ =>
      ⟨goodSound (s := ⟨h, s.live⟩) (failed none),
        ownBytes good member member (moved.failed none)⟩⟩
    exact ownBytes good inF ((List.mem_erase_of_ne other).mpr inF) moved.others

def tenBytes : State :=
  (run (step i386) program [.malloc 10 true, .store 0x08100010 [1, 2, 3]]).getD program

theorem tenCarried : ∃ q h, realloc i386 tenBytes.heap true 0x08100010 100 = some (q, h) ∧
    Carried i386 tenBytes ⟨0x08100010, 10, 0x08100000⟩ 100 q h :=
  @reallocCarries i386 program tenBytes [.malloc 10 true, .store 0x08100010 [1, 2, 3]]
    ⟨0x08100010, 10, 0x08100000⟩ 100 true ⟨by decide, by decide, by decide, rfl⟩
    (by decide +kernel) rfl (by decide +kernel) (by decide) (by decide +kernel)

def alignedByte : State :=
  (run (step i386) program [.posixMemalign 16 32 true, .store 0x08100020 [7]]).getD program

/-- 16 bytes before an aligned pointer is no header, and the 0 found there is taken for the
size of the block. -/
theorem alignedLost : ⟨0x08100020, 32, 0x08100000⟩ ∈ alignedByte.live ∧
    alignedByte.heap.mem 0x08100020 = 7 ∧
    (realloc i386 alignedByte.heap true 0x08100020 64).map (fun r => (r.1, r.2.mem r.1)) =
      some (0x08100058, 0) ∧
    ∀ q h, realloc i386 alignedByte.heap true 0x08100020 64 = some (q, h) →
      ¬ Carried i386 alignedByte ⟨0x08100020, 32, 0x08100000⟩ 64 q h := by
  have byte : alignedByte.heap.mem 0x08100020 = 7 := by decide +kernel
  have moved : (realloc i386 alignedByte.heap true 0x08100020 64).map
      (fun r => (r.1, r.2.mem r.1)) = some (0x08100058, 0) := by decide +kernel
  refine ⟨by decide +kernel, byte, moved, fun q h out carried => ?_⟩
  rw [out] at moved
  obtain ⟨rfl, zero⟩ := Prod.mk.injEq .. ▸ Option.some.inj moved
  have kept := carried.held (by decide) 0 (by decide)
  simp only [Nat.add_zero, byte] at kept
  exact absurd (kept.symm.trans zero) (by decide)

/-! ## What posix_memalign gives -/

def Slotted (abi : Abi) (s : State) : Prop :=
  ∀ e ∈ s.live, e.ptr ≠ e.block + BLOCK_SIZE abi →
    s.heap.mem.load (e.ptr - abi.ptr) abi.ptr = e.block + BLOCK_SIZE abi

theorem alignedRoom {h : Heap} {blocks : List Block} {live : List Live} {e : Live}
    (good : Good abi h blocks live) (member : e ∈ live)
    (aligned : e.ptr ≠ e.block + BLOCK_SIZE abi) :
    e.block + BLOCK_SIZE abi + 8 ≤ e.ptr ∧ abi.ptr ≤ 8 := by
  obtain ⟨b, inB, addr, -, low, -, multiple⟩ := good.held e member
  have bounds := blockBelow good.shape inB
  have hdr := blockSizeAligned abi
  have known := abi.known
  omega

theorem slotsKept {s : State} {h : Heap} {blocks : List Block} {old new : List Live}
    (good : Good abi s.heap blocks s.live) (slotted : Slotted abi s) (sub : ∀ e ∈ old, e ∈ s.live)
    (kept : LiveKept abi old s.heap.mem h.mem)
    (others : ∀ e ∈ new, e ∈ old ∨ e.ptr = e.block + BLOCK_SIZE abi) : Slotted abi ⟨h, new⟩ := by
  intro e inNew aligned
  have inOld := (others e inNew).resolve_right aligned
  have room := alignedRoom good (sub e inOld) aligned
  rw [← slotted e (sub e inOld) aligned]
  exact Buf.loadCongr fun x low high => kept e inOld x (by omega) (by omega)

theorem handedOwn {blocks : List Block} {live live' : List Live} {p size n : Nat}
    (given : p ≠ 0 → Given abi blocks live p n) :
    ∀ e ∈ handedOut abi live' p size, e ∈ live' ∨ e.ptr = e.block + BLOCK_SIZE abi := by
  intro e inNew
  unfold handedOut at inNew
  split at inNew
  · exact Or.inl inNew
  rename_i some'
  rcases List.mem_cons.mp inNew with rfl | old
  · obtain ⟨b, -, addr, -⟩ := given some'
    exact Or.inr (by simp only; omega)
  · exact Or.inl old

theorem stepSlots {s s' : State} {blocks : List Block} {a : Action}
    (good : Good abi s.heap blocks s.live) (slotted : Slotted abi s) (calm : Calm abi s a)
    (stepped : step abi s a = some s') : Slotted abi s' := by
  have allowed := stepAllowed stepped
  have all : ∀ e ∈ s.live, e ∈ s.live := fun _ member => member
  cases a with
  | malloc size enough =>
    obtain ⟨p, h', blocks', out, -, given, same⟩ := mallocSpec good calm
    simp only [step, if_pos (show size < abi.word from allowed), out, Option.map_some,
      Option.some.injEq] at stepped
    rw [← stepped]
    exact slotsKept good slotted all (dataLive good same) (handedOwn given)
  | calloc nmemb size enough =>
    obtain ⟨p, h', blocks', out, -, given, kept⟩ := callocSpec good calm
    simp only [step, if_pos (show nmemb < abi.word ∧ size < abi.word from allowed), out,
      Option.map_some, Option.some.injEq] at stepped
    rw [← stepped]
    exact slotsKept good slotted all kept (handedOwn given)
  | realloc p size enough =>
    obtain ⟨small, known⟩ := allowed
    simp only [step, if_pos small] at stepped
    by_cases null : p = 0
    · obtain ⟨q, h', blocks', out, -, given, same⟩ := mallocSpec good (calm.1 null)
      simp only [if_pos null, realloc, if_true, out, Option.map_some, Option.some.injEq] at stepped
      rw [← stepped]
      exact slotsKept good slotted all (dataLive good same) (handedOwn given)
    obtain ⟨own, fits⟩ := calm.2 null
    obtain ⟨e, member, rfl, found⟩ := liveFound (known.resolve_left null)
    have sub : ∀ f ∈ s.live.erase e, f ∈ s.live := fun _ => List.mem_of_mem_erase
    rw [if_neg null, found] at stepped
    by_cases zero : size = 0
    · obtain ⟨h', -, out, -, kept⟩ := freeSpec good member (own e member rfl)
      simp only [realloc, if_neg null, if_pos zero, out, Option.map_some, Option.some.injEq] at stepped
      rw [← stepped]
      exact slotsKept good slotted sub (fun f inF => dataLive good kept f (sub f inF))
        fun _ => Or.inl
    obtain ⟨q, h', blocks', out, -, given, moved⟩ :=
      reallocSpec good member (own e member rfl) small zero fun _ => (fits zero).2
    simp only [out, Option.map_some, if_neg zero, Option.some.injEq] at stepped
    split at stepped <;> rw [← stepped]
    · refine slotsKept good slotted sub moved.others fun f inF => ?_
      by_cases same : f = e
      · exact Or.inr (same ▸ own e member rfl)
      · exact Or.inl ((List.mem_erase_of_ne same).mpr inF)
    · exact slotsKept good slotted sub moved.others
        (handedOwn fun nonzero => (given nonzero (fits zero).1).2)
  | posixMemalign alignment size enough =>
    obtain ⟨err, addr, h', blocks', out, -, kept, given⟩ := memalignSpec 1 good calm
    simp only [step, if_pos (show alignment < abi.word ∧ size < abi.word from allowed), out,
      Option.map_some, Option.some.injEq] at stepped
    have before : Slotted abi ⟨h', s.live⟩ :=
      slotsKept good slotted all kept fun _ => Or.inl
    split at stepped <;> rw [← stepped]
    · rename_i fine
      intro f inF aligned
      rcases List.mem_cons.mp inF with rfl | old
      · obtain ⟨b, inB, addrB, -⟩ := (given fine).1.held _ List.mem_cons_self
        have pos := (blockBelow (given fine).1.shape inB).1
        simp only at addrB ⊢
        omega
      · exact before f old aligned
    · exact before
  | free p =>
    simp only [step] at stepped
    by_cases null : p = 0
    · simp only [if_pos null, free, if_true, Option.map_some, Option.some.injEq] at stepped
      rwa [← stepped]
    obtain ⟨e, member, rfl, found⟩ := liveFound (allowed.resolve_left null)
    obtain ⟨h', -, out, -, same⟩ := freeSpec good member (calm e member rfl)
    simp only [if_neg null, found, out, Option.map_some, Option.some.injEq] at stepped
    rw [← stepped]
    exact slotsKept good slotted (fun _ => List.mem_of_mem_erase)
      (fun f inF => dataLive good same f (List.mem_of_mem_erase inF)) fun _ => Or.inl
  | store addr bytes =>
    obtain ⟨e, member, low, high⟩ := allowed
    have inside : (s.live.any fun e => e.ptr ≤ addr && addr + bytes.length ≤ e.ptr + e.size) =
        true := List.any_eq_true.mpr ⟨e, member, by simp [low, high]⟩
    simp only [step, inside, if_true, Option.some.injEq] at stepped
    rw [← stepped]
    intro f inF aligned
    have room := alignedRoom good inF aligned
    rw [← slotted f inF aligned]
    refine Buf.loadCongr fun x lowX highX => Buf.writeByte _ ?_
    by_cases same : f = e
    · subst same
      omega
    have other := (erasedBlock good.distinct member ((List.mem_erase_of_ne same).mpr inF)).2
    have apart := heldApart good member inF other
    obtain ⟨b, -, addrB, -, lowB, -⟩ := good.held e member
    omega

theorem memalignOff {s t : State} {blocks : List Block} {alignment size : Nat} {enough : Bool}
    (good : Good abi s.heap blocks s.live) (calm : Calm abi s (.posixMemalign alignment size enough))
    (stepped : step abi s (.posixMemalign alignment size enough) = some t) :
    ∀ f ∈ t.live, f ∈ s.live ∨ f.ptr ≠ f.block + BLOCK_SIZE abi := by
  have allowed : alignment < abi.word ∧ size < abi.word := stepAllowed stepped
  obtain ⟨err, addr, h', blocks', out, -, -, given⟩ := memalignSpec 1 good calm
  simp only [step, if_pos allowed, out, Option.map_some, Option.some.injEq] at stepped
  split at stepped <;> rw [← stepped]
  · rename_i fine
    intro f inF
    rcases List.mem_cons.mp inF with rfl | old
    · exact Or.inr (given fine).2
    · exact Or.inl old
  · exact fun _ => Or.inl

/-! ## The headers that free and realloc take -/

def freedAt (abi : Abi) (h : Heap) (p : Nat) : Nat := rawOf abi h p - BLOCK_SIZE abi

def freeBlock (abi : Abi) (h : Heap) (b : Nat) : Option Heap :=
  joinPrev abi {h with mem := joinNext abi (h.mem.store (b + isFreeAt abi) 1 4) b} b

def resizedAt (abi : Abi) (p : Nat) : Nat := p - BLOCK_SIZE abi

theorem headerTakenIff (start s : State) (acts : List Action) (e : Live) (fresh : Fresh start)
    (calm : Meets (step abi) (Calm abi) start acts) (ran : run (step abi) start acts = some s)
    (member : e ∈ s.live) :
    free abi s.heap e.ptr = freeBlock abi s.heap (freedAt abi s.heap e.ptr) ∧
    (freedAt abi s.heap e.ptr = e.block ↔ e.ptr = e.block + BLOCK_SIZE abi) ∧
    (resizedAt abi e.ptr = e.block ↔ e.ptr = e.block + BLOCK_SIZE abi) ∧
    ∀ alignment size enough t, Calm abi s (.posixMemalign alignment size enough) →
      step abi s (.posixMemalign alignment size enough) = some t →
      ∀ f ∈ t.live, f ∈ s.live ∨ f.ptr ≠ f.block + BLOCK_SIZE abi := by
  have reached : ∃ blocks, Good abi s.heap blocks s.live ∧ Slotted abi s := by
    refine invariantMeets (P := fun t => ∃ blocks, Good abi t.heap blocks t.live ∧ Slotted abi t) ?_
      ⟨[], freshGood fresh, fun e inLive => ?_⟩ calm ran
    · rintro t a t' ⟨blocks, good, slotted⟩ calmA stepped
      obtain ⟨t'', blocks', out, kept⟩ := stepGood good calmA (stepAllowed stepped)
      cases Option.some.inj (stepped.symm.trans out)
      exact ⟨blocks', kept, stepSlots good slotted calmA stepped⟩
    · rw [fresh.live] at inLive
      cases inLive
  obtain ⟨blocks, good, slotted⟩ := reached
  obtain ⟨b, inB, addr, busy, low, -⟩ := good.held e member
  have pos := (blockBelow good.shape inB).1
  refine ⟨if_neg (by omega), and_assoc.mp ⟨?_, fun alignment size enough t => memalignOff good⟩⟩
  unfold freedAt resizedAt
  by_cases own : e.ptr = e.block + BLOCK_SIZE abi
  · obtain ⟨pre, post, rfl⟩ := List.append_of_mem inB
    have header := (linkedAround.mp good.shape.linked).2.1
    have raw := rawOfBusy header busy good.shape.fits
    rw [own, ← addr, raw]
    simp
  · have room := alignedRoom good member own
    have hdr := blockSizePos abi
    simp only [own, iff_false, rawOf, slotted e member own]
    constructor
    · split <;> omega
    · omega

def alignedOnce : State :=
  (run (step i386) program [.posixMemalign 16 32 true]).getD program

theorem alignedOnceTaken :
    free i386 alignedOnce.heap 0x08100020 =
      freeBlock i386 alignedOnce.heap (freedAt i386 alignedOnce.heap 0x08100020) ∧
    (freedAt i386 alignedOnce.heap 0x08100020 = 0x08100000 ↔
      0x08100020 = 0x08100000 + BLOCK_SIZE i386) ∧
    (resizedAt i386 0x08100020 = 0x08100000 ↔ 0x08100020 = 0x08100000 + BLOCK_SIZE i386) := by
  have taken := @headerTakenIff i386 program alignedOnce [.posixMemalign 16 32 true]
    ⟨0x08100020, 32, 0x08100000⟩ ⟨by decide, by decide, by decide, rfl⟩ (by decide +kernel) rfl
    (by decide +kernel)
  exact ⟨taken.1, taken.2.1, taken.2.2.1⟩

/-- free takes 16 bytes before the pointer for the header: the block stays in use, and the
word that leads back to it is gone. -/
theorem alignedNotFreed : ⟨0x08100020, 32, 0x08100000⟩ ∈ alignedOnce.live ∧
    freedAt i386 alignedOnce.heap 0x08100020 = 0x08100010 ∧
    alignedOnce.heap.mem.load 0x0810001C 4 = 0x08100010 ∧
    (free i386 alignedOnce.heap 0x08100020).map (fun h =>
      (h.mem.load (0x08100000 + isFreeAt i386) 4, h.mem.load 0x0810001C 4)) = some (0, 1) := by
  decide +kernel

/-! ## The bytes of a block over a run -/

def Spares (e : Live) : Action → Prop
  | .realloc p _ _ | .free p => p ≠ e.ptr
  | .store addr bytes => addr + bytes.length ≤ e.ptr ∨ e.ptr + e.size ≤ addr
  | .malloc .. | .calloc .. | .posixMemalign .. => True
instance (e a) : Decidable (Spares e a) := match a with
  | .realloc p _ _ | .free p => inferInstanceAs (Decidable (¬p = e.ptr))
  | .store addr bytes => inferInstanceAs
    (Decidable (addr + bytes.length ≤ e.ptr ∨ e.ptr + e.size ≤ addr))
  | .malloc .. | .calloc .. | .posixMemalign .. => isTrue trivial

def Keeps (s t : State) (e : Live) : Prop :=
  e ∈ t.live ∧ ∀ i < e.size, t.heap.mem (e.ptr + i) = s.heap.mem (e.ptr + i)

theorem handedMem {live : List Live} {p size : Nat} {e : Live} (old : e ∈ live) :
    e ∈ handedOut abi live p size := by
  unfold handedOut
  split
  · exact old
  · exact List.mem_cons_of_mem _ old

theorem stepSpared {s t : State} {blocks : List Block} {a : Action} {e : Live}
    (good : Good abi s.heap blocks s.live) (calm : Calm abi s a) (member : e ∈ s.live)
    (spares : Spares e a) (stepped : step abi s a = some t) : Keeps s t e := by
  have allowed := stepAllowed stepped
  cases a with
  | malloc size enough =>
    obtain ⟨p, h', blocks', out, -, -, same⟩ := mallocSpec good calm
    simp only [step, if_pos (show size < abi.word from allowed), out, Option.map_some,
      Option.some.injEq] at stepped
    rw [← stepped]
    exact ⟨handedMem member, ownBytes good member member (dataLive good same)⟩
  | calloc nmemb size enough =>
    obtain ⟨p, h', blocks', out, -, -, kept⟩ := callocSpec good calm
    simp only [step, if_pos (show nmemb < abi.word ∧ size < abi.word from allowed), out,
      Option.map_some, Option.some.injEq] at stepped
    rw [← stepped]
    exact ⟨handedMem member, ownBytes good member member kept⟩
  | realloc p size enough =>
    obtain ⟨small, known⟩ := allowed
    simp only [step, if_pos small] at stepped
    by_cases null : p = 0
    · obtain ⟨q, h', blocks', out, -, -, same⟩ := mallocSpec good (calm.1 null)
      simp only [if_pos null, realloc, if_true, out, Option.map_some, Option.some.injEq] at stepped
      rw [← stepped]
      exact ⟨handedMem member, ownBytes good member member (dataLive good same)⟩
    obtain ⟨own, fits⟩ := calm.2 null
    obtain ⟨f, inF, rfl, found⟩ := liveFound (known.resolve_left null)
    have left : e ∈ s.live.erase f :=
      (List.mem_erase_of_ne fun same => spares (congrArg Live.ptr same.symm)).mpr member
    rw [if_neg null, found] at stepped
    by_cases zero : size = 0
    · obtain ⟨h', -, out, -, kept⟩ := freeSpec good inF (own f inF rfl)
      simp only [realloc, if_neg null, if_pos zero, out, Option.map_some, Option.some.injEq] at stepped
      rw [← stepped]
      exact ⟨left, ownBytes good member member (dataLive good kept)⟩
    obtain ⟨q, h', blocks', out, -, -, moved⟩ :=
      reallocSpec good inF (own f inF rfl) small zero fun _ => (fits zero).2
    simp only [out, Option.map_some, if_neg zero, Option.some.injEq] at stepped
    have bytes := ownBytes good member left moved.others
    split at stepped <;> rw [← stepped]
    · exact ⟨member, bytes⟩
    · exact ⟨handedMem left, bytes⟩
  | posixMemalign alignment size enough =>
    obtain ⟨err, addr, h', blocks', out, -, kept, -⟩ := memalignSpec 1 good calm
    simp only [step, if_pos (show alignment < abi.word ∧ size < abi.word from allowed), out,
      Option.map_some, Option.some.injEq] at stepped
    have bytes := ownBytes good member member kept
    split at stepped <;> rw [← stepped]
    · exact ⟨List.mem_cons_of_mem _ member, bytes⟩
    · exact ⟨member, bytes⟩
  | free p =>
    simp only [step] at stepped
    by_cases null : p = 0
    · simp only [if_pos null, free, if_true, Option.map_some, Option.some.injEq] at stepped
      rw [← stepped]
      exact ⟨member, fun _ _ => rfl⟩
    obtain ⟨f, inF, rfl, found⟩ := liveFound (allowed.resolve_left null)
    obtain ⟨h', -, out, -, same⟩ := freeSpec good inF (calm f inF rfl)
    simp only [if_neg null, found, out, Option.map_some, Option.some.injEq] at stepped
    rw [← stepped]
    exact ⟨(List.mem_erase_of_ne fun same => spares (congrArg Live.ptr same.symm)).mpr member,
      ownBytes good member member (dataLive good same)⟩
  | store addr bytes =>
    simp only [step] at stepped
    split at stepped
    · cases stepped
      exact ⟨member, fun i less => Buf.writeByte _ (by unfold Spares at spares; omega)⟩
    · cases stepped

theorem blockKeepsBytes (start s t : State) (acts more : List Action) (e : Live)
    (fresh : Fresh start) (calm : Meets (step abi) (Calm abi) start acts)
    (ran : run (step abi) start acts = some s) (member : e ∈ s.live)
    (spared : Meets (step abi) (fun s a => Calm abi s a ∧ Spares e a) s more)
    (ranOn : run (step abi) s more = some t) : Keeps s t e := by
  obtain ⟨blocks, good⟩ := runGood fresh calm ran
  refine (invariantMeets (P := fun m => (∃ blocks, Good abi m.heap blocks m.live) ∧ Keeps s m e)
    ?_ ⟨⟨blocks, good⟩, member, fun _ _ => rfl⟩ spared ranOn).2
  rintro m a m' ⟨⟨blocks, good⟩, inM, bytes⟩ ⟨calmA, spares⟩ stepped
  obtain ⟨m'', blocks', out, after⟩ := stepGood good calmA (stepAllowed stepped)
  cases Option.some.inj (stepped.symm.trans out)
  obtain ⟨inM', bytes'⟩ := stepSpared good calmA inM spares stepped
  exact ⟨⟨blocks', after⟩, inM', fun i less => (bytes' i less).trans (bytes i less)⟩

theorem tenKept : ∃ t, run (step i386) tenBytes [.malloc 20 true, .free 0x08100030] = some t ∧
    Keeps tenBytes t ⟨0x08100010, 10, 0x08100000⟩ := by
  obtain ⟨t, ran⟩ := Option.isSome_iff_exists.mp
    (show (run (step i386) tenBytes [.malloc 20 true, .free 0x08100030]).isSome by decide +kernel)
  exact ⟨t, ran, blockKeepsBytes program tenBytes t
    [.malloc 10 true, .store 0x08100010 [1, 2, 3]] [.malloc 20 true, .free 0x08100030]
    ⟨0x08100010, 10, 0x08100000⟩ ⟨by decide, by decide, by decide, rfl⟩ (by decide +kernel) rfl
    (by decide +kernel) (by decide +kernel) ran⟩

end Scepter.Malloc
