import Scepter.Fs.Ext2.Dirents
import Scepter.Fs.Ext2.Unlink

/-! What a directory lists and what ext2_lookup finds in it. The blocks of a directory are
leaves of its tree; a hole lists nothing. -/
namespace Scepter.Ext2

open Block Prog

def fileNode (geo : Geometry) (s : FsInfo × Inode) (b : Nat) : Nat :=
  match position geo b with
  | some (slot, path) => (treeOf geo s).nodeAt slot path
  | none => 0

def dirBuf (geo : Geometry) (s : FsInfo × Inode) (b : Nat) : Buf :=
  blockAt geo s.1.dev (fileNode geo s b)

def dirRow (geo : Geometry) (s : FsInfo × Inode) (b : Nat) : List DirSlot :=
  if fileNode geo s b = 0 then [] else rowOf geo (dirBuf geo s b)

def listing (geo : Geometry) (s : FsInfo × Inode) (bs : List Nat) : List (List Byte × Nat) :=
  bs.flatMap fun b => Slot.contents (dirRow geo s b)

def names (geo : Geometry) (s : FsInfo × Inode) : List (List Byte × Nat) :=
  listing geo s (dirBlocks geo s.2)

structure DirFormed (geo : Geometry) (s : FsInfo × Inode) : Prop where
  sane : Sane geo s
  isDir : ext2IsDir s.2.iMode = true
  blocks : ∀ b ∈ dirBlocks geo s.2, fileNode geo s b ≠ 0 → BlockFormed geo (dirBuf geo s b)

def LookupIs (geo : Geometry) (s : FsInfo × Inode) (name : List Byte) (r : Option Nat) : Prop :=
  ∀ coming, NoneShort coming →
    ((ext2Lookup geo s.2 name (s.1.facing coming)).1 = none ∨
      (ext2Lookup geo s.2 name (s.1.facing coming)).1 = r) ∧
    ((∀ transfer ∈ coming, transfer = .whole) →
      (ext2Lookup geo s.2 name (s.1.facing coming)).1 = r)

variable {geo : Geometry}

theorem formedSame {a b : Buf} (large : 8 ≤ geo.blockSize) (formed : BlockFormed geo a)
    (same : ∀ o < geo.blockSize, b o = a o) :
    BlockFormed geo b ∧ rowOf geo b = rowOf geo a := by
  have fills := formed.fills
  have packed : Packed b 0 (rowOf geo a) :=
    formed.packed.congr fun o _ high => same o (by omega)
  exact ⟨blockFormed large packed fills, rowOfPacked large packed fills⟩

theorem missesLookup {name : List Byte} {row : List DirSlot}
    (misses : ∀ s ∈ row, holds name s = false) : (Slot.contents row).lookup name = none := by
  rw [List.lookup_eq_none_iff]
  intro e member
  obtain ⟨s, inRow, held⟩ := List.mem_filterMap.mp member
  have differs := misses s inRow
  unfold holds at differs
  rw [held] at differs
  rw [bne_iff_ne]
  rintro rfl
  exact absurd differs (by simp)

theorem seekLookup {buf : Buf} {name : List Byte} {at_ : Nat} {prev : Option Nat}
    {row : List DirSlot} (packed : Packed buf 0 row)
    (found : Slot.seek (holds name) 0 none row = some (at_, prev)) :
    (Slot.contents row).lookup name = some (direntIno buf at_) := by
  obtain ⟨pre, s, post, rfl, misses, hit, rfl, -⟩ := Slot.seekSome found
  obtain ⟨slot, -, -⟩ := (packedAppend.mp packed).2
  rw [Slot.contentsAppend, List.lookup_append, missesLookup misses, Option.none_or]
  unfold holds at hit
  cases held : s.held with
  | none =>
    rw [held] at hit
    cases hit
  | some e =>
    rw [held] at hit
    obtain ⟨n, _⟩ := s
    cases held
    have used : e.2 = direntIno buf (0 + Slot.total pre) := by
      have held := congrArg Slot.held slot
      unfold slotAt at held
      dsimp only at held
      split at held
      · cases held
      · cases held
        rfl
    obtain ⟨_, ino⟩ := e
    rw [Slot.contentsHeld, List.lookup_cons, ← used]
    have same : (name == _) = true := (Bool.beq_comm).trans hit
    rw [same]

section scanning

variable (sound : geo.Sound)
include sound

theorem blockLarge : 1024 ≤ geo.blockSize ∧ geo.blockSize < 2 ^ 16 := by
  rcases sound.blockSize with size | size | size <;> omega

omit sound in
theorem blocksBound (geo : Geometry) (size : Nat) : blocksOf geo size ≤ (2 ^ 32 - 1) / geo.blockSize := by
  unfold blocksOf u32
  exact Nat.div_le_div_right (by omega)

theorem dirBlockPlaced {dir : Inode} {b : Nat} (member : b ∈ dirBlocks geo dir) :
    position geo b ≠ none := by
  have low := List.mem_range.mp member
  have count := blocksBound geo dir.iSize
  unfold position
  rcases sound.blockSize with size | size | size <;> rw [size] at count ⊢ <;> dsimp only <;>
    split_ifs <;> first | exact Option.some_ne_none _ | omega

theorem bmapNode {fs m t : FsInfo} {dir : Inode} {b : Nat} {r : Option Nat}
    (sane : Sane geo (fs, dir)) (reads : Keeping geo (fun _ => False) fs m)
    (placed : position geo b ≠ none) (ran : ext2Bmap geo dir b m = (r, t)) :
    Keeping geo (fun _ => False) fs t ∧
      (r = some (fileNode geo (fs, dir) b) ∨ (r = none ∧ ¬ m.dev.Reliable)) := by
  refine ⟨trans_of (Keeping geo _) reads (leavesOf (bmapKeeping sound dir b m) ran), ?_⟩
  obtain ⟨sane', tree, -⟩ := sane.read sound reads
  rcases at_ : position geo b with _ | ⟨slot, path⟩
  · exact absurd at_ placed
  obtain ⟨pos, -⟩ := positionPos sound at_
  rw [bmapDescend, at_] at ran
  obtain ⟨result, succeeds⟩ := descendNode sound dir slot path.reverse [] Buf.zero
    sane'.coherent.unbroken (fun i member => pos.2.2 i (by simpa using member)) ran
  rw [List.reverse_reverse, List.append_nil, tree] at result
  have node : fileNode geo (fs, dir) b = (treeOf geo (fs, dir)).nodeAt slot path := by
    unfold fileNode
    rw [at_]
  rw [node]
  rcases result with failed | mapped
  · refine .inr ⟨failed, fun reliable => succeeds reliable (fun mid onWay there => ?_) failed⟩
    rw [List.reverse_reverse, List.append_nil] at onWay
    exact (sane'.data slot mid (posSuffix pos onWay) there).inside
  · exact .inl mapped

theorem fileNodeData {s : FsInfo × Inode} {b : Nat} (sane : Sane geo s)
    (mapped : fileNode geo s b ≠ 0) : DataBlock geo s.1 (fileNode geo s b) := by
  unfold fileNode at mapped ⊢
  rcases at_ : position geo b with _ | ⟨slot, path⟩
  · rw [at_] at mapped
    exact absurd rfl mapped
  · rw [at_] at mapped
    exact sane.data slot path (positionPos sound at_).1 mapped

end scanning

inductive Scanned {α : Type} (geo : Geometry) (s : FsInfo × Inode) (p : DirSlot → Bool)
    (found : Nat → Buf → Nat → Option Nat → Prog FsInfo α) (none_ : Prog FsInfo α)
    (bs : List Nat) (m : FsInfo) : Option α × FsInfo → Prop
  | failed {t : FsInfo} (broken : ¬ m.dev.Reliable) : Scanned geo s p found none_ bs m (none, t)
  | hit {pre post : List Nat} {b at_ : Nat} {prev : Option Nat} {buf : Buf} {t : FsInfo}
      (split : bs = pre ++ b :: post) (misses : ∀ x ∈ pre, ∀ slot ∈ dirRow geo s x, p slot = false)
      (mapped : fileNode geo s b ≠ 0) (same : ∀ o < geo.blockSize, buf o = dirBuf geo s b o)
      (seek : Slot.seek p 0 none (dirRow geo s b) = some (at_, prev))
      (reads : Keeping geo (fun _ => False) s.1 t) :
      Scanned geo s p found none_ bs m (found (fileNode geo s b) buf at_ prev t)
  | missed {t : FsInfo} (misses : ∀ x ∈ bs, ∀ slot ∈ dirRow geo s x, p slot = false)
      (reads : Keeping geo (fun _ => False) s.1 t) : Scanned geo s p found none_ bs m (none_ t)

theorem Scanned.further {α : Type} {s : FsInfo × Inode} {p : DirSlot → Bool}
    {found : Nat → Buf → Nat → Option Nat → Prog FsInfo α} {none_ : Prog FsInfo α}
    {bs : List Nat} {b : Nat} {m n : FsInfo} {r : Option α × FsInfo}
    (scanned : Scanned geo s p found none_ bs n r)
    (misses : ∀ slot ∈ dirRow geo s b, p slot = false)
    (reliable : m.dev.Reliable → n.dev.Reliable) : Scanned geo s p found none_ (b :: bs) m r := by
  have all {xs : List Nat} (rest : ∀ x ∈ xs, ∀ slot ∈ dirRow geo s x, p slot = false) :
      ∀ x ∈ b :: xs, ∀ slot ∈ dirRow geo s x, p slot = false := by
    intro x member
    rcases List.mem_cons.mp member with rfl | member
    · exact misses
    · exact rest x member
  cases scanned with
  | failed broken => exact .failed fun whole => broken (reliable whole)
  | hit split rest mapped same seek reads =>
    exact .hit (congrArg (b :: ·) split) (all rest) mapped same seek reads
  | missed rest reads => exact .missed (all rest) reads

section lookup

variable (sound : geo.Sound)
include sound

theorem scanOutcome {α : Type} {fs m : FsInfo} {dir : Inode} (hit : Buf → Nat → Bool)
    {p : DirSlot → Bool} (agree : ∀ buf off, hit buf off = p (slotAt buf off))
    (found : Nat → Buf → Nat → Option Nat → Prog FsInfo α) (none_ : Prog FsInfo α)
    (sane : Sane geo (fs, dir)) (bs : List Nat) (buf : Buf)
    (placed : ∀ b ∈ bs, position geo b ≠ none)
    (formed : ∀ b ∈ bs, fileNode geo (fs, dir) b ≠ 0 → BlockFormed geo (dirBuf geo (fs, dir) b))
    (reads : Keeping geo (fun _ => False) fs m) :
    Scanned geo (fs, dir) p found none_ bs m (scanBlocksOf geo dir hit found none_ bs buf m) := by
  obtain ⟨large, -⟩ := blockLarge sound
  induction bs generalizing buf m with
  | nil => exact .missed (fun _ member => absurd member List.not_mem_nil) reads
  | cons b rest ih =>
    have placed' : ∀ b ∈ rest, position geo b ≠ none :=
      fun x member => placed x (List.mem_cons_of_mem b member)
    have formed' : ∀ x ∈ rest, fileNode geo (fs, dir) x ≠ 0 →
        BlockFormed geo (dirBuf geo (fs, dir) x) :=
      fun x member => formed x (List.mem_cons_of_mem b member)
    unfold scanBlocksOf
    rcases ran : ext2Bmap geo dir b m with ⟨r, n⟩
    obtain ⟨reads', mapped | ⟨rfl, broken⟩⟩ := bmapNode sound sane reads (placed b (by simp)) ran
    · subst mapped
      have still := ((leavesOf (bmapKeeping sound dir b m) ran) (reads sane.coherent).1).2.2
      rw [bindOf ran]
      by_cases hole : fileNode geo (fs, dir) b = 0
      · rw [if_pos hole]
        refine (ih buf placed' formed' reads').further ?_ still.reliable
        unfold dirRow
        rw [if_pos hole]
        exact fun _ member => absurd member List.not_mem_nil
      rw [if_neg hole]
      obtain ⟨sane', -, blocks, -⟩ := sane.read sound reads'
      have data := fileNodeData sound sane hole
      have row : dirRow geo (fs, dir) b = rowOf geo (dirBuf geo (fs, dir) b) := if_neg hole
      rcases readBlockCases sound (fileNode geo (fs, dir) b) buf sane'.coherent.unbroken with
        ⟨d, read, _, outside⟩ | ⟨d, read, writes, _⟩
      · rw [bindFails read]
        refine .failed fun whole => ?_
        have := outside (still.reliable whole)
        have := data.inside
        omega
      · have reads'' : Keeping geo (fun _ => False) fs { n with dev := d } :=
          trans_of (Keeping geo _) reads' (leavesOf (readKeeping sound _) read)
        rw [bindOf read]
        rw [blocks]
        have same : ∀ o < geo.blockSize,
            Buf.overlay geo.blockSize (blockAt geo fs.dev (fileNode geo (fs, dir) b)) buf o =
              dirBuf geo (fs, dir) b o := fun o small => if_pos small
        generalize Buf.overlay geo.blockSize (blockAt geo fs.dev (fileNode geo (fs, dir) b)) buf =
          buf' at same ⊢
        obtain ⟨formedB, rowB⟩ := formedSame (by omega) (formed b (by simp) hole) same
        rw [scanFormed (by omega) formedB (agree buf'), rowB, ← row]
        cases sought : Slot.seek p 0 none (dirRow geo (fs, dir) b) with
        | none =>
          refine (ih buf' placed' formed' reads'').further (Slot.seekNone.mp sought) fun whole => ?_
          exact (writes (fun _ => False)).reliable (still.reliable whole)
        | some place =>
          exact .hit (show b :: rest = [] ++ b :: rest from rfl)
            (fun _ member => absurd member List.not_mem_nil) hole same sought reads''
    · rw [bindFails ran]
      exact .failed broken

omit sound in
theorem Sane.facing {s : FsInfo × Inode} (sane : Sane geo s) {coming : List Transfer}
    (noneShort : NoneShort coming) : Sane geo (s.1.facing coming, s.2) where
  coherent := ⟨noneShort, sane.coherent.resident, sane.coherent.clean⟩
  reservedUsed := sane.reservedUsed
  distinct := sane.distinct
  data slot path pos present := by
    have data := sane.data slot path pos present
    exact ⟨data.low, data.inside, data.notMetadata, data.used⟩

omit sound in
theorem DirFormed.facing {s : FsInfo × Inode} (formed : DirFormed geo s) {coming : List Transfer}
    (noneShort : NoneShort coming) : DirFormed geo (s.1.facing coming, s.2) :=
  ⟨formed.sane.facing noneShort, formed.isDir, formed.blocks⟩

omit sound in
theorem listingAppend (s : FsInfo × Inode) (as bs : List Nat) :
    listing geo s (as ++ bs) = listing geo s as ++ listing geo s bs := List.flatMap_append

omit sound in
theorem listingMisses {s : FsInfo × Inode} {name : List Byte} {bs : List Nat}
    (misses : ∀ x ∈ bs, ∀ slot ∈ dirRow geo s x, holds name slot = false) :
    (listing geo s bs).lookup name = none := by
  induction bs with
  | nil => rfl
  | cons b rest ih =>
    show (Slot.contents (dirRow geo s b) ++ listing geo s rest).lookup name = none
    rw [List.lookup_append, missesLookup (misses b List.mem_cons_self),
      ih fun x member => misses x (List.mem_cons_of_mem b member), Option.none_or]

theorem scannedRow {s : FsInfo × Inode} {b : Nat} {buf : Buf}
    (formed : BlockFormed geo (dirBuf geo s b)) (mapped : fileNode geo s b ≠ 0)
    (same : ∀ o < geo.blockSize, buf o = dirBuf geo s b o) :
    BlockFormed geo buf ∧ dirRow geo s b = rowOf geo buf := by
  obtain ⟨large, -⟩ := blockLarge sound
  obtain ⟨formedB, rowB⟩ := formedSame (by omega) formed same
  exact ⟨formedB, (if_neg mapped).trans rowB.symm⟩

theorem scannedLookup {s : FsInfo × Inode} {name : List Byte} {pre : List Nat} (post : List Nat)
    {b at_ : Nat} {prev : Option Nat} {buf : Buf} (formed : BlockFormed geo (dirBuf geo s b))
    (misses : ∀ x ∈ pre, ∀ slot ∈ dirRow geo s x, holds name slot = false)
    (mapped : fileNode geo s b ≠ 0) (same : ∀ o < geo.blockSize, buf o = dirBuf geo s b o)
    (seek : Slot.seek (holds name) 0 none (dirRow geo s b) = some (at_, prev)) :
    (listing geo s (pre ++ b :: post)).lookup name = some (direntIno buf at_) := by
  obtain ⟨formedB, row⟩ := scannedRow sound formed mapped same
  have here : (Slot.contents (dirRow geo s b)).lookup name = some (direntIno buf at_) := by
    rw [row] at seek ⊢
    exact seekLookup formedB.packed seek
  rw [listingAppend, List.lookup_append, listingMisses misses, Option.none_or]
  show (Slot.contents (dirRow geo s b) ++ listing geo s post).lookup name = _
  rw [List.lookup_append, here, Option.some_or]

theorem lookupIff {s : FsInfo × Inode} (formed : DirFormed geo s) {name : List Byte}
    (fits : 1 ≤ name.length ∧ name.length ≤ 255) (r : Option Nat) :
    LookupIs geo s name r ↔ r = (names geo s).lookup name := by
  obtain ⟨fs, dir⟩ := s
  have outcome {coming : List Transfer} (noneShort : NoneShort coming) :
      ((ext2Lookup geo dir name (fs.facing coming)).1 = none ∧ ¬ (fs.facing coming).dev.Reliable) ∨
        (ext2Lookup geo dir name (fs.facing coming)).1 = (names geo (fs, dir)).lookup name := by
    have formed' := formed.facing noneShort
    have run : ext2Lookup geo dir name (fs.facing coming) =
        scanBlocksOf geo dir (fun buf => named buf name)
          (fun _ buf off _ => pure (direntIno buf off)) fail (dirBlocks geo dir) Buf.zero
          (fs.facing coming) := by
      unfold ext2Lookup
      rw [if_neg (by rw [formed.isDir]; nofun), if_neg (by omega)]
    have scanned := scanOutcome sound (fun buf => named buf name) (fun buf => namedHolds name)
      (fun _ buf off _ => pure (direntIno buf off)) fail formed'.sane (dirBlocks geo dir) Buf.zero
      (fun b => dirBlockPlaced sound) formed'.blocks (refl_of (Keeping geo _) _)
    rw [← run] at scanned
    generalize ext2Lookup geo dir name (fs.facing coming) = result at scanned ⊢
    cases scanned with
    | failed broken => exact .inl ⟨rfl, broken⟩
    | @hit pre post b at_ prev buf t split misses mapped same seek reads =>
      have inDir : b ∈ dirBlocks geo dir := split ▸ by simp
      have found := scannedLookup sound post (formed'.blocks b inDir mapped) misses mapped
        same seek
      rw [← split] at found
      exact .inr found.symm
    | missed misses reads => exact .inr (listingMisses misses).symm
  constructor
  · intro is
    have yields := (is [] noneShortNil).2 fun _ h => nomatch h
    rcases outcome noneShortNil with ⟨_, broken⟩ | found
    · exact absurd (fun _ h => nomatch h) broken
    · rw [← yields, found]
  · rintro rfl coming noneShort
    rcases outcome noneShort with ⟨none_, broken⟩ | found
    · exact ⟨.inl none_, fun whole => absurd whole broken⟩
    · exact ⟨.inr found, fun _ => found⟩

omit sound in
theorem lookupRefused {s : FsInfo × Inode} {name : List Byte}
    (long : ¬ (1 ≤ name.length ∧ name.length ≤ 255)) (r : Option Nat) :
    LookupIs geo s name r ↔ r = none := by
  have refused (coming : List Transfer) :
      (ext2Lookup geo s.2 name (s.1.facing coming)).1 = none := by
    unfold ext2Lookup
    split
    · rfl
    · rw [if_pos (by omega)]
      rfl
  constructor
  · intro is
    exact ((is [] noneShortNil).2 fun _ h => nomatch h).symm.trans (refused [])
  · rintro rfl coming _
    exact ⟨.inl (refused coming), fun _ => refused coming⟩

end lookup

end Scepter.Ext2
