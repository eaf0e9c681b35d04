import Scepter.Mm.FileMaps
import Scepter.Mm.Regions

/-! A page of a file mapping holds the bytes of its file when the number still
stands for that file at the fault, and a write-back keeps to the file when the page
lies inside it. -/
namespace Scepter.FileMaps
open Mm (Arch PAGE_SIZE x86_64)
open Regions (Vma covers grows pageDown)
open Descriptors (Task findFdEntry runningTask)

/-! ## What a step should do -/

def pageOff (d : Made) (a : Nat) : Nat := d.offset + (a - d.base)

def Holds (page : Page) (file : File) (off : Nat) : Prop :=
  ∀ k < PAGE_SIZE, page k = file.byteAt (off + k)

def flusher : Action → Option Nat
  | .exit t _ => some t
  | .munmap t _ _ _ => some t
  | .fault t _ _ _ _ _ => some t
  | _ => none

structure Brought where
  task : Nat
  mapping : Mapping
  a : Nat

def brought (s : State) : Action → Option Brought
  | .fault t addr write room _ _ =>
    (handled (s.mm t) addr write room).map fun m => ⟨t, m, pageDown addr⟩
  | _ => none

structure Right (s : State) (a : Action) (s' : State) : Prop where
  faulted : ∀ b ∈ brought s a, ∀ d ∈ b.mapping.made, ∃ page,
    (s'.mm b.task).pages b.a = some page ∧ Holds page (s.files d.inode) (pageOff d b.a)
  sizes : ∀ t ∈ flusher a, ∀ inode, (s'.files inode).size = (s.files inode).size
  written : ∀ t ∈ flusher a, ∀ inode, s'.files inode ≠ s.files inode →
    ∃ m ∈ (s.mm t).maps, m.vma.vmShared = true ∧ ∃ d ∈ m.made, d.inode = inode

/-! ## When nothing goes wrong -/

def readsFrom (inode : Nat) : Option Opened → Bool
  | some (.regular i true _) => i == inode
  | _ => false

/-- A read at `off` that the driver ends after `got` bytes finds all there is. From
2^31 on there is no read, and from 2^32 on the offset starts again. -/
def Served (size off got : Nat) : Prop :=
  off < 2 ^ 31 ∧ (PAGE_SIZE ≤ got ∨ size ≤ off + got) ∨
    size ≤ off ∧ (2 ^ 31 ≤ off % 2 ^ 32 ∨ size ≤ off % 2 ^ 32)
instance (size off got) : Decidable (Served size off got) := by unfold Served; infer_instance

def Readable (s : State) (task : Task) (m : Mapping) (a : Nat) (answer : Answer) : Prop :=
  ∀ d ∈ m.made, readsFrom d.inode (named s task m.vma.vmFd) = true ∧
    Served (s.files d.inode).size (pageOff d a) answer.got
instance (s task m a answer) : Decidable (Readable s task m a answer) := by
  unfold Readable
  infer_instance

def Contained (s : State) (t : Nat) (task : Task) (puts : Nat → Nat) (m : Mapping) (a : Nat) :
    Prop :=
  match (s.mm t).pages a, named s task m.vma.vmFd with
  | some _, some (.regular inode _ true) =>
    let off := fileOff m.vma a
    2 ^ 31 ≤ off ∨ puts a = 0 ∨ m.made.map Made.inode = some inode ∧
      (puts a < PAGE_SIZE ∨ off + PAGE_SIZE ≤ (s.files inode).size)
  | _, _ => True
instance (s t task puts m a) : Decidable (Contained s t task puts m a) := by
  unfold Contained
  split <;> infer_instance

def Flushes (s : State) (t : Nat) (task : Task) (puts : Nat → Nat) (gone : Vma → Bool) : Prop :=
  ∀ m ∈ (s.mm t).maps, gone m.vma = true → flushed m.vma = true →
    ∀ a ∈ pagesOf m.vma, Contained s t task puts m a
instance (s t task puts gone) : Decidable (Flushes s t task puts gone) := by
  unfold Flushes
  infer_instance

def isMmap (v : Vma) : Bool := v.vmType == .mmap

def spans (addr length : Nat) (v : Vma) : Bool :=
  pageDown addr = v.vmStart && pageDown ((addr + length + 0xFFF) % 2 ^ 32) = v.vmEnd

/-- At a fault that finds a page for a file mapping, the number stands for an open
file of the file that was mapped, it may be read, and the read is served. A page that
is written back goes to the file that was mapped and lies inside it. -/
def Undisturbed (s : State) : Action → Prop
  | .munmap t addr length puts =>
    ∀ task ∈ runningTask s.fds t, Flushes s t task puts (spans addr length)
  | .exit t puts => ∀ task ∈ runningTask s.fds t, Flushes s t task puts isMmap
  | .fault t addr write room answer puts => ∀ task ∈ runningTask s.fds t,
    match handled (s.mm t) addr write room with
    | some m => Readable s task m (pageDown addr) answer
    | none => Flushes s t task puts isMmap
  | _ => True
instance (s a) : Decidable (Undisturbed s a) := by
  unfold Undisturbed
  split
  · infer_instance
  · infer_instance
  · refine @Option.decidableForallMem _ _ (fun task => ?_) _
    split <;> infer_instance
  · infer_instance

variable {arch : Arch} {s s' : State} {t : Nat} {task : Task} {m : Mapping} {a : Nat}

/-! ## Where a mapping is from -/

structure Faithful (m : Mapping) (d : Made) : Prop where
  base : m.vma.vmStart = d.base
  aligned : PAGE_SIZE ∣ d.base
  offset : m.vma.vmFileOff = d.offset
  number : 0 ≤ m.vma.vmFd
  type : m.vma.vmType = .mmap
  memory : m.vma.vmFlags.io = false
  fixed : m.vma.vmFlags.growsdown = false

def AllFaithful (maps : List Mapping) : Prop := ∀ m ∈ maps, ∀ d ∈ m.made, Faithful m d

def Good (s : State) : Prop := ∀ t, AllFaithful (s.mm t).maps

theorem searchFromDvd {vmas : List Vma} {length fuel candidate : Nat}
    (aligned : PAGE_SIZE ∣ candidate) :
    PAGE_SIZE ∣ Regions.searchFrom vmas length fuel candidate := by
  induction fuel generalizing candidate with
  | zero => exact Nat.dvd_zero _
  | succ fuel ih =>
    have next : PAGE_SIZE ∣ (candidate + PAGE_SIZE) % 2 ^ 32 := by
      unfold PAGE_SIZE at *
      omega
    unfold Regions.searchFrom
    dsimp only
    split
    · split
      · exact ih next
      · exact aligned
    · exact Nat.dvd_zero _

theorem freeRegionDvd (vmas : List Vma) (length hint : Nat) :
    PAGE_SIZE ∣ Regions.vmaFindFreeRegion vmas length hint := by
  refine searchFromDvd ?_
  have base : PAGE_SIZE ∣ Regions.MMAP_BASE := by decide
  unfold Regions.searchStart
  split
  · exact base
  · split
    · exact Regions.pageUpDvd 32 hint
    · exact base

theorem setMmSelf (mm : MmStruct) : (setMm s t mm).mm t = mm := Function.update_self ..

theorem setMmOther {u : Nat} (mm : MmStruct) (differ : u ≠ t) : (setMm s t mm).mm u = s.mm u :=
  Function.update_of_ne differ ..

theorem setMmGood {mm : MmStruct} (good : Good s) (here : AllFaithful mm.maps) :
    Good (setMm s t mm) := by
  intro u
  by_cases same : u = t
  · cases same
    rw [setMmSelf]
    exact here
  · rw [setMmOther mm same]
    exact good u

/-! ## Writing back -/

structure Frame (s s' : State) : Prop where
  fds : s'.fds = s.fds
  opened : s'.opened = s.opened
  maps : ∀ t, (s'.mm t).maps = (s.mm t).maps
  pages : ∀ t a page, (s'.mm t).pages a = some page → (s.mm t).pages a = some page

structure Flushed (P : Nat → Prop) (s s' : State) : Prop where
  sizes : ∀ inode, (s'.files inode).size = (s.files inode).size
  others : ∀ inode, s'.files inode ≠ s.files inode → P inode

theorem frameRefl (s : State) : Frame s s := ⟨rfl, rfl, fun _ => rfl, fun _ _ _ here => here⟩

theorem frameTrans {s₁ s₂ s₃ : State} (first : Frame s₁ s₂) (second : Frame s₂ s₃) :
    Frame s₁ s₃ where
  fds := second.fds.trans first.fds
  opened := second.opened.trans first.opened
  maps t := (second.maps t).trans (first.maps t)
  pages t a page here := first.pages t a page (second.pages t a page here)

theorem flushedRefl (P : Nat → Prop) (s : State) : Flushed P s s :=
  ⟨fun _ => rfl, fun _ differ => absurd rfl differ⟩

theorem flushedTrans {P : Nat → Prop} {s₁ s₂ s₃ : State} (first : Flushed P s₁ s₂)
    (second : Flushed P s₂ s₃) : Flushed P s₁ s₃ where
  sizes inode := (second.sizes inode).trans (first.sizes inode)
  others inode differ := by
    by_cases same : s₂.files inode = s₁.files inode
    · exact second.others inode (same ▸ differ)
    · exact first.others inode same

theorem foldFrame {α : Type} {f : State → α → State} (each : ∀ s x, Frame s (f s x))
    (list : List α) (s : State) : Frame s (list.foldl f s) := by
  induction list generalizing s with
  | nil => exact frameRefl s
  | cons x rest ih => exact frameTrans (each s x) (ih (f s x))

theorem foldFlushed {α : Type} {P : Nat → Prop} {f : State → α → State} {list : List α}
    {s₀ : State} (frame : ∀ s x, Frame s (f s x))
    (each : ∀ x ∈ list, ∀ s, Frame s₀ s → Flushed P s₀ s → Flushed P s₀ (f s x))
    (same : Frame s₀ s) (before : Flushed P s₀ s) : Flushed P s₀ (list.foldl f s) := by
  induction list generalizing s with
  | nil => exact before
  | cons x rest ih =>
    refine ih (fun y member => each y (List.mem_cons_of_mem x member)) ?_ ?_
    · exact frameTrans same (frame s x)
    · exact each x List.mem_cons_self s same before

theorem writeNothing (file : File) (off : Nat) (page : Page) : file.write off page 0 = file := by
  have bytes : (file.write off page 0).bytes = file.bytes := by
    funext k
    exact if_neg (by omega)
  calc file.write off page 0
      = ⟨file.size, (file.write off page 0).bytes⟩ := rfl
    _ = file := by rw [bytes]

theorem writeInside {file : File} {off put : Nat} (page : Page)
    (inside : put < PAGE_SIZE ∨ off + PAGE_SIZE ≤ file.size) :
    (file.write off page (min put PAGE_SIZE)).size = file.size := by
  unfold File.write
  dsimp only
  split
  · rfl
  · rename_i whole
    rcases inside with short | inside
    · omega
    · exact Nat.max_eq_left (by omega)

theorem namedSame {s s' : State} (same : Frame s s') (task : Task) (fd : Int) :
    named s' task fd = named s task fd := by
  unfold named
  rw [same.opened]

theorem setFileFlushed {P : Nat → Prop} {inode : Nat} {file : File} (allowed : P inode)
    (size : file.size = (s.files inode).size) :
    Flushed P s {s with files := Function.update s.files inode file} where
  sizes other := by
    dsimp only
    by_cases same : other = inode
    · cases same
      rw [Function.update_self]
      exact size
    · rw [Function.update_of_ne same]
  others other differ := by
    by_cases same : other = inode
    · exact same ▸ allowed
    · exact absurd (Function.update_of_ne same ..) differ

theorem writePageFrame (puts : Nat → Nat) (v : Vma) (s : State) (a : Nat) :
    Frame s (writePage t task puts v s a) := by
  unfold writePage
  split
  · exact frameRefl s
  · unfold fsPwrite
    split
    · split
      · exact frameRefl s
      · exact ⟨rfl, rfl, fun _ => rfl, fun _ _ _ here => here⟩
    · exact frameRefl s

theorem writePageFlushed {P : Nat → Prop} {puts : Nat → Nat} {s₀ : State}
    (contained : Contained s₀ t task puts m a) (allowed : ∀ d ∈ m.made, P d.inode)
    (same : Frame s₀ s) (before : Flushed P s₀ s) :
    Flushed P s₀ (writePage t task puts m.vma s a) := by
  unfold writePage
  split <;> rename_i held
  · exact before
  · rename_i page
    unfold Contained at contained
    rw [same.pages t a page held, ← namedSame same] at contained
    unfold fsPwrite
    split <;> rename_i found
    · rename_i inode readable
      rw [found] at contained
      split <;> rename_i far
      · exact before
      · refine flushedTrans before ?_
        rcases contained with beyond | none | ⟨own, inside⟩
        · omega
        · dsimp only
          rw [none, Nat.zero_min, writeNothing, Function.update_eq_self]
          exact flushedRefl P s
        · obtain ⟨d, made, rfl⟩ := Option.map_eq_some_iff.mp own
          rw [← before.sizes d.inode] at inside
          exact setFileFlushed (allowed d made) (writeInside page inside)
    · exact before

theorem writeBackFrame (puts : Nat → Nat) (v : Vma) (s : State) :
    Frame s (writeBack t task puts v s) :=
  foldFrame (writePageFrame puts v) (pagesOf v) s

theorem writeBackFlushed {P : Nat → Prop} {puts : Nat → Nat} {s₀ : State}
    (contained : ∀ a ∈ pagesOf m.vma, Contained s₀ t task puts m a)
    (allowed : ∀ d ∈ m.made, P d.inode) (same : Frame s₀ s) (before : Flushed P s₀ s) :
    Flushed P s₀ (writeBack t task puts m.vma s) :=
  foldFlushed (writePageFrame puts m.vma)
    (fun a member _ => writePageFlushed (contained a member) allowed) same before

def SharedFile (s : State) (t : Nat) (inode : Nat) : Prop :=
  ∃ m ∈ (s.mm t).maps, m.vma.vmShared = true ∧ ∃ d ∈ m.made, d.inode = inode

theorem sharedFile (member : m ∈ (s.mm t).maps) (flushes : flushed m.vma = true) :
    ∀ d ∈ m.made, SharedFile s t d.inode := by
  intro d made
  unfold flushed at flushes
  simp only [Bool.and_eq_true] at flushes
  exact ⟨m, member, flushes.1.2, d, made, rfl⟩

theorem exitFrame (puts : Nat → Nat) (s : State) : Frame s (mmWritebackShared t task puts s) := by
  refine foldFrame (fun s m => ?_) _ s
  split
  · exact writeBackFrame puts m.vma s
  · exact frameRefl s

theorem exitFlushed {puts : Nat → Nat} (flushes : Flushes s t task puts isMmap) :
    Flushed (SharedFile s t) s (mmWritebackShared t task puts s) := by
  refine foldFlushed (fun s m => ?_) (fun m member s' same before => ?_) (frameRefl s)
    (flushedRefl _ s)
  · split
    · exact writeBackFrame puts m.vma s
    · exact frameRefl s
  · split <;> rename_i chosen
    · rw [Bool.and_eq_true] at chosen
      exact writeBackFlushed (flushes m member chosen.1 chosen.2) (sharedFile member chosen.2)
        same before
    · exact before

theorem unmapFrame (s : State) (t start stop : Nat) : Frame s (unmapUserRange s t start stop) where
  fds := rfl
  opened := rfl
  maps u := by
    unfold unmapUserRange
    by_cases same : u = t
    · cases same
      rw [setMmSelf]
    · rw [setMmOther _ same]
  pages u a page here := by
    unfold unmapUserRange at here
    by_cases same : u = t
    · cases same
      rw [setMmSelf] at here
      dsimp only at here
      split at here
      · cases here
      · exact here
    · rwa [setMmOther _ same] at here

theorem unmapFlushed {P : Nat → Prop} {s₀ : State} (before : Flushed P s₀ s) (t start stop : Nat) :
    Flushed P s₀ (unmapUserRange s t start stop) := ⟨before.sizes, before.others⟩

theorem munmapFrame (task : Task) (puts : Nat → Nat) (start stop : Nat) (maps : List Mapping) (s : State) :
    Frame s (munmapFrom t task puts start stop maps s).2 ∧
      (munmapFrom t task puts start stop maps s).1.Sublist maps := by
  induction maps generalizing s with
  | nil => exact ⟨frameRefl s, List.Sublist.refl _⟩
  | cons m rest ih =>
    unfold munmapFrom
    dsimp only
    split
    · split
      · obtain ⟨frame, fewer⟩ := ih (unmapUserRange
          (if flushed m.vma = true then writeBack t task puts m.vma s else s) t m.vma.vmStart
          m.vma.vmEnd)
        refine ⟨frameTrans (frameTrans ?_ (unmapFrame _ t _ _)) frame, fewer.cons m⟩
        split
        · exact writeBackFrame puts m.vma s
        · exact frameRefl s
      · exact ⟨frameRefl s, List.Sublist.refl _⟩
    · obtain ⟨frame, fewer⟩ := ih s
      exact ⟨frame, fewer.cons_cons m⟩

theorem munmapFlushed {P : Nat → Prop} {puts : Nat → Nat} {start stop : Nat} {s₀ : State}
    {maps : List Mapping}
    (contained : ∀ m ∈ maps, start = m.vma.vmStart → stop = m.vma.vmEnd → flushed m.vma = true →
      (∀ a ∈ pagesOf m.vma, Contained s₀ t task puts m a) ∧ ∀ d ∈ m.made, P d.inode)
    (same : Frame s₀ s) (before : Flushed P s₀ s) :
    Flushed P s₀ (munmapFrom t task puts start stop maps s).2 := by
  induction maps generalizing s with
  | nil => exact before
  | cons m rest ih =>
    have others := fun m' member => contained m' (List.mem_cons_of_mem m member)
    unfold munmapFrom
    dsimp only
    split
    · split <;> rename_i whole
      · refine ih others (frameTrans (frameTrans same ?_) (unmapFrame _ t _ _)) ?_
        · split
          · exact writeBackFrame puts m.vma s
          · exact frameRefl s
        · refine unmapFlushed ?_ t _ _
          split <;> rename_i flushes
          · obtain ⟨each, allowed⟩ := contained m List.mem_cons_self whole.1 whole.2 flushes
            exact writeBackFlushed each allowed same before
          · exact before
      · exact before
    · exact ih others same before

theorem sysMunmapFlushed {puts : Nat → Nat} {addr length : Nat}
    (flushes : Flushes s t task puts (spans addr length)) :
    Flushed (SharedFile s t) s (sysMunmap s t task puts addr length) := by
  have walked : Flushed (SharedFile s t) s (munmapFrom t task puts (pageDown addr)
      (pageDown ((addr + length + 0xFFF) % 2 ^ 32)) (s.mm t).maps s).2 := by
    refine munmapFlushed (fun m member start stop flushes' => ?_) (frameRefl s) (flushedRefl _ s)
    have whole : spans addr length m.vma = true := by
      unfold spans
      rw [decide_eq_true start, decide_eq_true stop]
      rfl
    exact ⟨flushes m member whole flushes', sharedFile member flushes'⟩
  exact ⟨walked.sizes, walked.others⟩

theorem doExitFlushed {puts : Nat → Nat} (flushes : Flushes s t task puts isMmap) :
    Flushed (SharedFile s t) s (doExit s t task puts) := by
  have written := exitFlushed flushes
  exact ⟨written.sizes, written.others⟩

/-! ## What each call leaves of the mappings -/

theorem frameGood (good : Good s) (same : Frame s s') : Good s' := by
  intro u m member d made
  rw [same.maps] at member
  exact good u m member d made

theorem munmapGood (good : Good s) (task : Task) (puts : Nat → Nat) (addr length : Nat) :
    Good (sysMunmap s t task puts addr length) := by
  obtain ⟨frame, fewer⟩ := munmapFrame (t := t) task puts (pageDown addr)
    (pageDown ((addr + length + 0xFFF) % 2 ^ 32)) (s.mm t).maps s
  unfold sysMunmap
  dsimp only
  exact setMmGood (frameGood good frame) fun m member => good t m (fewer.subset member)

theorem doExitGood (good : Good s) (task : Task) (puts : Nat → Nat) :
    Good (doExit s t task puts) := by
  have written : Good (mmWritebackShared t task puts s) := frameGood good (exitFrame puts s)
  exact setMmGood (s := {mmWritebackShared t task puts s with fds := _}) written
    fun m member => absurd member List.not_mem_nil

theorem mmapGood (good : Good s) (arch : Arch) (task : Task) (addr length prot flags : Nat)
    (fd : Int) (offset : Nat) (created : Bool) :
    Good (sysMmap arch s t task addr length prot flags fd offset created) := by
  have aligned := freeRegionDvd ((s.mm t).maps.map Mapping.vma) length addr
  unfold sysMmap
  dsimp only
  split
  · exact good
  · split <;> rename_i valid
    · exact good
    · split
      · exact good
      · refine setMmGood good fun m member => ?_
        rcases Keyed.insertMem.mp member with rfl | old
        · intro d made
          split at made
          · cases made
          · rename_i file _
            cases made
            have number : 0 ≤ fd := by
              rw [file] at valid
              simp only [Bool.not_false, Bool.true_and, Bool.or_eq_true, decide_eq_true_eq,
                not_or, Int.not_lt] at valid
              exact valid.1
            refine ⟨Regions.pageDownAligned aligned, aligned, rfl, ?_, rfl, rfl, rfl⟩
            simp only [file, Bool.false_eq_true, if_false]
            exact number
          · cases made
        · exact good t m old

theorem copyFaithful {d : Made} (faithful : Faithful m d) (arch : Arch) :
    Faithful (copyMapping arch m) d where
  base := by
    have aligned : PAGE_SIZE ∣ m.vma.vmStart := faithful.base ▸ faithful.aligned
    exact (Regions.pageDownAligned aligned).trans faithful.base
  aligned := faithful.aligned
  offset := faithful.offset
  number := faithful.number
  type := faithful.type
  memory := faithful.memory
  fixed := faithful.fixed

theorem forkFaithful {mm : MmStruct} (all : AllFaithful mm.maps) (arch : Arch) :
    AllFaithful (forkMm arch mm).maps := by
  intro m member d made
  have copied : m ∈ mm.maps.map (copyMapping arch) := by
    have perm := @Keyed.insertAllPerm _ (fun m : Mapping => m.vma.vmStart) []
      (mm.maps.map (copyMapping arch))
    simpa using perm.subset member
  obtain ⟨parent, inside, rfl⟩ := List.mem_map.mp copied
  exact copyFaithful (all parent inside d made) arch

theorem imageFaithful (image : List Vma) : AllFaithful (imageMm image).maps := by
  intro m member d made
  obtain ⟨v, _, rfl⟩ := List.mem_map.mp member
  cases made

theorem growFaithful {d : Made} (faithful : Faithful m d) (addr : Nat) : grow addr m.vma = m.vma := by
  unfold grow grows
  rw [faithful.fixed]
  rfl

theorem updateFaithful {maps : List Mapping} (all : AllFaithful maps) (addr : Nat) :
    AllFaithful (Keyed.update (fun m => covers addr m.vma)
      (fun m => {m with vma := grow addr m.vma}) maps) := by
  induction maps with
  | nil => exact all
  | cons m rest ih =>
    have tail := ih fun m' member => all m' (List.mem_cons_of_mem m member)
    unfold Keyed.update
    split
    · intro m' member d made
      rcases List.mem_cons.mp member with rfl | later
      · have faithful := all m List.mem_cons_self d made
        rw [growFaithful faithful addr]
        exact faithful
      · exact all m' (List.mem_cons_of_mem m later) d made
    · intro m' member d made
      rcases List.mem_cons.mp member with rfl | later
      · exact all m' List.mem_cons_self d made
      · exact tail m' later d made

theorem bootGood (nofile : Option Int) (files : Nat → File) : Good (boot nofile files) :=
  fun _ _ member => absurd member List.not_mem_nil

theorem stepGood (s : State) (act : Action) (s' : State) (good : Good s)
    (stepped : step arch s act = some s') : Good s' := by
  unfold step at stepped
  cases act with
  | call b what =>
    dsimp only at stepped
    split at stepped
    · obtain ⟨fds, _, rfl⟩ := Option.map_eq_some_iff.mp stepped
      exact good
    · cases stepped
  | fork t failsAfter =>
    obtain ⟨task, _, rfl⟩ := Option.map_eq_some_iff.mp stepped
    dsimp only
    split
    · exact setMmGood (s := {s with fds := _}) good (forkFaithful (good t) arch)
    · exact good
  | exec t image =>
    obtain ⟨task, _, rfl⟩ := Option.map_eq_some_iff.mp stepped
    exact setMmGood (s := {s with fds := _}) good (imageFaithful image)
  | exit t puts =>
    obtain ⟨task, _, rfl⟩ := Option.map_eq_some_iff.mp stepped
    exact doExitGood good task puts
  | mmap t addr length prot flags fd offset created =>
    obtain ⟨task, _, rfl⟩ := Option.map_eq_some_iff.mp stepped
    exact mmapGood good arch task addr length prot flags fd offset created
  | munmap t addr length puts =>
    obtain ⟨task, _, rfl⟩ := Option.map_eq_some_iff.mp stepped
    exact munmapGood good task puts addr length
  | fault t addr write room answer puts =>
    obtain ⟨task, _, rfl⟩ := Option.map_eq_some_iff.mp stepped
    dsimp only
    split
    · exact doExitGood good task puts
    · exact setMmGood good (updateFaithful (good t) addr)
  | store t addr byte =>
    dsimp only at stepped
    split at stepped
    · split at stepped
      · cases stepped
        exact setMmGood good (good t)
      · cases stepped
    · cases stepped
  | change inode file =>
    cases stepped
    exact good

/-! ## A page that is brought in -/

theorem readsFromIff {inode : Nat} {what : Option Opened} (reads : readsFrom inode what = true) :
    ∃ writable, what = some (.regular inode true writable) := by
  unfold readsFrom at reads
  split at reads
  · rename_i i writable
    exact ⟨writable, by rw [eq_of_beq reads]⟩
  · cases reads

theorem beyondEnd {file : File} {k : Nat} (end' : file.size ≤ k) : file.byteAt k = 0 :=
  if_neg (Nat.not_lt.mpr end')

theorem preadHolds {d : Made} {fd : Int} {off : Nat} {answer : Answer}
    (reads : readsFrom d.inode (named s task fd) = true)
    (served : Served (s.files d.inode).size off answer.got) :
    Holds (fsPread s task fd (off % 2 ^ 32) answer) (s.files d.inode) off := by
  obtain ⟨writable, found⟩ := readsFromIff reads
  intro k below
  unfold fsPread
  rw [found]
  dsimp only
  rcases served with ⟨near, whole⟩ | ⟨past, empty⟩
  · rw [Nat.mod_eq_of_lt (by omega), if_neg (by omega)]
    split <;> rename_i got
    · rfl
    · refine (beyondEnd ?_).symm
      omega
  · rw [beyondEnd (k := off + k) (by omega)]
    split
    · rfl
    · dsimp only
      split
      · exact beyondEnd (by omega)
      · rfl

theorem allocateHolds {d : Made} {answer : Answer} (good : Good s) (member : m ∈ (s.mm t).maps)
    (made : d ∈ m.made) (readable : Readable s task m a answer) :
    Holds (allocatePage s task m.vma a answer) (s.files d.inode) (pageOff d a) := by
  have faithful := good t m member d made
  obtain ⟨reads, served⟩ := readable d made
  have regular : (decide (m.vma.vmFd ≥ 0) && m.vma.vmType == .mmap) = true := by
    rw [faithful.type, decide_eq_true faithful.number]
    rfl
  have off : fileOff m.vma a = pageOff d a % 2 ^ 32 := by
    unfold fileOff pageOff
    rw [faithful.offset, faithful.base]
  unfold allocatePage
  rw [faithful.memory, if_neg Bool.false_ne_true, if_pos regular, off]
  exact preadHolds reads served

theorem handledMem {mm : MmStruct} {addr : Nat} {write room : Bool}
    (found : handled mm addr write room = some m) : m ∈ mm.maps := by
  unfold handled at found
  split at found
  · cases found
  · rename_i m' search
    have inside := List.mem_of_find?_eq_some search
    split at found
    · cases found
    · split at found
      · cases found
      · cases found
        exact inside

theorem quietRight {act : Action} (none' : brought s act = none) (still : flusher act = none) :
    Right s act s' := by
  refine ⟨fun b found => ?_, fun t found => ?_, fun t found => ?_⟩
  · cases none'.symm.trans found
  · cases still.symm.trans found
  · cases still.symm.trans found

theorem flushRight {act : Action} (none' : brought s act = none) (mine : flusher act = some t)
    (written : Flushed (SharedFile s t) s s') : Right s act s' := by
  refine ⟨fun b found => ?_, fun u found => ?_, fun u found => ?_⟩
  · cases none'.symm.trans found
  · exact written.sizes
  · cases mine.symm.trans found
    exact written.others

theorem stepRight (good : Good s) {act : Action} (undisturbed : Undisturbed s act)
    (stepped : step arch s act = some s') : Right s act s' := by
  cases act with
  | exit t puts =>
    obtain ⟨task, running, rfl⟩ := Option.map_eq_some_iff.mp stepped
    exact flushRight rfl rfl (doExitFlushed (undisturbed task running))
  | munmap t addr length puts =>
    obtain ⟨task, running, rfl⟩ := Option.map_eq_some_iff.mp stepped
    exact flushRight rfl rfl (sysMunmapFlushed (undisturbed task running))
  | fault t addr write room answer puts =>
    obtain ⟨task, running, rfl⟩ := Option.map_eq_some_iff.mp stepped
    have clear := undisturbed task running
    dsimp only
    cases found : handled (s.mm t) addr write room with
    | none =>
      rw [found] at clear
      exact flushRight (by simp only [brought, found, Option.map_none]) rfl (doExitFlushed clear)
    | some m =>
      rw [found] at clear
      dsimp only
      refine ⟨fun b same d made => ?_, fun _ _ _ => rfl, fun _ _ _ differ => absurd rfl differ⟩
      simp only [brought, found, Option.map_some] at same
      cases same
      have inside := handledMem found
      refine ⟨_, ?_, allocateHolds good inside made clear⟩
      rw [setMmSelf, growFaithful (good t m inside d made)]
      exact Function.update_self ..
  | _ => exact quietRight rfl rfl

def twoFiles (inode : Nat) : File :=
  if inode = 7 then ⟨0x3000, fun k => UInt8.ofNat (k / PAGE_SIZE + 1)⟩ else ⟨5, fun _ => 9⟩

def openFile (inode : Nat) : Action := .call (.openFile 0 true true false) (.regular inode true true)

def noBytes : Answer := ⟨PAGE_SIZE, zeroPage⟩

def allPut : Nat → Nat := fun _ => PAGE_SIZE

def sharedActs : List Action :=
  [openFile 7, .mmap 0 0 0x1000 3 1 3 0x1000 true, .fork 0 none, .call (.close 0 3) (.special none),
    .fault 1 0x40000000 true true noBytes allPut, .store 1 0x40000010 5]

def reusedActs : List Action :=
  [openFile 7, openFile 8, .mmap 0 0 0x1000 3 2 3 0 true, .call (.close 0 3) (.special none),
    .call (.dup2 0 4 3 false true) (.special none)]

def lateFault : Action := .fault 0 0x40000000 false true noBytes allPut

def smallActs : List Action :=
  [openFile 8, .mmap 0 0 0x1000 3 1 3 0 true, .fault 0 0x40000000 true true noBytes allPut,
    .store 0 0x40000000 1]

def unmapSmall : Action := .munmap 0 0x40000000 0x1000 allPut

end Scepter.FileMaps
