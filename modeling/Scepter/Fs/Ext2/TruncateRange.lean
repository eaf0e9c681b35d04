import Scepter.Fs.Ext2.Truncate

/-! Cutting a file back to its first `new` blocks with ext2_truncate_blocks: which blocks of
the tree go, and what the tree is afterwards. -/
namespace Scepter.Ext2

open Block Prog

/-- ext2_free_range looks at the block: some of its file blocks lie in [new, old). The roots
in i_block[12..14] are looked at wherever `new` lies. -/
def Visits (geo : Geometry) (new old slot : Nat) (path : List Nat) : Prop :=
  firstBlock geo slot path < old ∧
    (path = [] ∧ 12 ≤ slot ∨
      new < firstBlock geo slot path + (geo.blockSize / 4) ^ (depth slot - path.length))

def Goes (geo : Geometry) (T : PtrTree) (new old slot : Nat) : Nat → List Nat → Prop
  | 0, path => Visits geo new old slot path
  | n + 1, path => Visits geo new old slot path ∧ ∀ i < geo.blockSize / 4,
      T.nodeAt slot (i :: path) = 0 ∨ Goes geo T new old slot n (i :: path)

def Gone (geo : Geometry) (T : PtrTree) (new old slot : Nat) (path : List Nat) : Prop :=
  T.nodeAt slot path ≠ 0 ∧ Goes geo T new old slot (depth slot - path.length) path

def GoneBelow (geo : Geometry) (T : PtrTree) (new old slot : Nat) (up : List Nat) (b : Nat) :
    Prop :=
  ∃ path, up <:+ path ∧ Pos geo slot path ∧ Gone geo T new old slot path ∧ T.nodeAt slot path = b

open Classical in
noncomputable def leftAt (geo : Geometry) (T : PtrTree) (new old slot : Nat) (path : List Nat) :
    Nat :=
  if Gone geo T new old slot path then 0 else T.nodeAt slot path

/-- The blocks satisfying `R` are free now, the other marks are as they were, and besides
the filesystem's own tables only blocks satisfying `A` were written. -/
structure Drops (geo : Geometry) (R A : Nat → Prop) (s t : FsInfo) : Prop where
  coherent : Coherent geo t
  writes : WritesBlocks geo (fun b => geo.System b ∨ A b) s.dev t.dev
  freed : ∀ b, geo.sFirstDataBlock ≤ b → b < geo.sBlocksCount → R b → allocated geo t b = false
  kept : ∀ b, geo.sFirstDataBlock ≤ b → b < geo.sBlocksCount → ¬ R b →
    allocated geo t b = allocated geo s b

def Written (geo : Geometry) (T : PtrTree) (slot : Nat) (up : List Nat) (s : FsInfo) : Prop :=
  ∀ path i, up <:+ path → Pos geo slot (i :: path) → T.nodeAt slot path ≠ 0 →
    (blockAt geo s.dev (T.nodeAt slot path)).getU32 (4 * i) = T.nodeAt slot (i :: path)

def Settled (geo : Geometry) (T : PtrTree) (new old slot : Nat) (up : List Nat) (t : FsInfo) :
    Prop :=
  ∀ path i, up <:+ path → Pos geo slot (i :: path) → leftAt geo T new old slot path ≠ 0 →
    (blockAt geo t.dev (T.nodeAt slot path)).getU32 (4 * i) = leftAt geo T new old slot (i :: path)

structure Trimmed (geo : Geometry) (T : PtrTree) (new old slot : Nat) (up : List Nat)
    (s t : FsInfo) : Prop where
  drops : Drops geo (GoneBelow geo T new old slot up) (T.Under (Pos geo) slot up) s t
  settled : Settled geo T new old slot up t

variable {geo : Geometry} {T : PtrTree} {new old slot : Nat} {up path : List Nat}
  {R R' A A' : Nat → Prop} {s m t : FsInfo}

theorem Drops.nothing (coherent : Coherent geo s) (none_ : ∀ b, ¬ R b) : Drops geo R A s s :=
  ⟨coherent, writesNothing _ _, fun b _ _ h => absurd h (none_ b), fun _ _ _ _ => rfl⟩

theorem Drops.change (drops : Drops geo R A s t) (same : ∀ b, R' b ↔ R b)
    (sub : ∀ b, A b → A' b) : Drops geo R' A' s t where
  coherent := drops.coherent
  writes := drops.writes.mono fun _ => Or.imp_right (sub _)
  freed b low inside h := drops.freed b low inside ((same b).mp h)
  kept b low inside h := drops.kept b low inside fun r => h ((same b).mpr r)

theorem Drops.next (one : Drops geo R A s m) (two : Drops geo R' A' m t) :
    Drops geo (fun b => R b ∨ R' b) (fun b => A b ∨ A' b) s t where
  coherent := two.coherent
  writes := (one.writes.mono fun _ => Or.imp_right .inl).trans
    (two.writes.mono fun _ => Or.imp_right .inr)
  freed b low inside h := by
    by_cases later : R' b
    · exact two.freed b low inside later
    · rw [two.kept b low inside later]
      exact one.freed b low inside (h.resolve_right later)
  kept b low inside h := by
    rw [not_or] at h
    rw [two.kept b low inside h.2, one.kept b low inside h.1]

/-! ## What goes -/

theorem Goes.visits {n : Nat} (goes : Goes geo T new old slot n path) :
    Visits geo new old slot path := by
  cases n with
  | zero => exact goes
  | succ n => exact goes.1

theorem leftOf (stays : ¬ Gone geo T new old slot path) :
    leftAt geo T new old slot path = T.nodeAt slot path := if_neg stays

theorem leftNone (goes : Gone geo T new old slot path) : leftAt geo T new old slot path = 0 :=
  if_pos goes

theorem leftZero : leftAt geo T new old slot path = 0 ↔
    T.nodeAt slot path = 0 ∨ Gone geo T new old slot path := by
  by_cases gone : Gone geo T new old slot path
  · simp only [leftNone gone, gone, or_true]
  · simp only [leftOf gone, gone, or_false]

theorem goneIndex {n : Nat} (level : up.length + (n + 1) = depth slot)
    (present : T.nodeAt slot up ≠ 0) :
    Gone geo T new old slot up ↔ Visits geo new old slot up ∧
      ∀ i < geo.blockSize / 4, leftAt geo T new old slot (i :: up) = 0 := by
  have here : depth slot - up.length = n + 1 := by omega
  have below (i : Nat) : depth slot - (i :: up).length = n := by
    rw [List.length_cons]
    omega
  unfold Gone
  rw [here, Goes, and_iff_right present]
  refine and_congr_right fun _ => forall₂_congr fun i _ => ?_
  rw [leftZero, Gone, below]
  tauto

theorem leftBelow {i : Nat} (pos : Pos geo slot (i :: up))
    (none_ : leftAt geo T new old slot up = 0) : leftAt geo T new old slot (i :: up) = 0 := by
  have longer := pos.2.1
  rw [List.length_cons] at longer
  by_cases present : T.nodeAt slot up = 0
  · exact leftZero.mpr (.inl (PtrTree.nodeBelow present i))
  · have gone := (leftZero.mp none_).resolve_left present
    obtain ⟨n, level⟩ : ∃ n, up.length + (n + 1) = depth slot :=
      ⟨depth slot - up.length - 1, by omega⟩
    exact ((goneIndex level present).mp gone).2 i (pos.2.2 i (by simp))

theorem firstBelow {i n : Nat} (level : up.length + (n + 1) = depth slot)
    (small : i < geo.blockSize / 4) :
    firstBlock geo slot up ≤ firstBlock geo slot (i :: up) ∧
      firstBlock geo slot (i :: up) + (geo.blockSize / 4) ^ n ≤
        firstBlock geo slot up + (geo.blockSize / 4) ^ (n + 1) := by
  have inside : i * (geo.blockSize / 4) ^ n + (geo.blockSize / 4) ^ n ≤
      (geo.blockSize / 4) ^ (n + 1) := by
    rw [Nat.pow_succ, Nat.mul_comm _ (geo.blockSize / 4), ← Nat.succ_mul]
    exact Nat.mul_le_mul_right _ small
  rw [firstBlockChild level]
  omega

theorem visitsAbove {i : Nat} (pos : Pos geo slot (i :: up))
    (visits : Visits geo new old slot (i :: up)) : Visits geo new old slot up := by
  have longer := pos.2.1
  rw [List.length_cons] at longer
  obtain ⟨n, level⟩ : ∃ n, up.length + (n + 1) = depth slot :=
    ⟨depth slot - up.length - 1, by omega⟩
  have range := @firstBelow geo slot up i n level (pos.2.2 i (by simp))
  obtain ⟨starts, ⟨⟨⟩, _⟩ | ends⟩ := visits
  rw [List.length_cons, show depth slot - (up.length + 1) = n by omega] at ends
  refine ⟨by omega, .inr ?_⟩
  rw [show depth slot - up.length = n + 1 by omega]
  omega

theorem staysBelow (skipped : T.nodeAt slot up = 0 ∨ ¬ Visits geo new old slot up)
    (onWay : up <:+ path) (pos : Pos geo slot path) : ¬ Gone geo T new old slot path := by
  rintro ⟨present, goes⟩
  obtain ⟨down, rfl⟩ := onWay
  rcases skipped with none_ | apart
  · exact present (PtrTree.nodeAppend none_ down)
  refine apart ?_
  have visits := goes.visits
  clear present goes
  induction down with
  | nil => exact visits
  | cons i down ih => exact ih (posUp _ _ _ pos) (visitsAbove pos visits)

theorem Trimmed.nothing (coherent : Coherent geo s) (written : Written geo T slot up s)
    (stays : ∀ path, up <:+ path → Pos geo slot path → ¬ Gone geo T new old slot path) :
    Trimmed geo T new old slot up s s where
  drops := .nothing coherent fun b ⟨path, below, pos, gone, _⟩ => stays path below pos gone
  settled path i below pos left := by
    rw [leftOf (stays path below (posUp _ _ _ pos))] at left
    rw [leftOf (stays _ (below.trans (List.suffix_cons _ _)) pos)]
    exact written path i below pos left

theorem Written.below {i : Nat} (written : Written geo T slot up s) :
    Written geo T slot (i :: up) s :=
  fun path j below => written path j ((List.suffix_cons _ _).trans below)

theorem goneCases (pos : Pos geo slot up) (b : Nat) : GoneBelow geo T new old slot up b ↔
    (∃ i < geo.blockSize / 4, GoneBelow geo T new old slot (i :: up) b) ∨
      Gone geo T new old slot up ∧ b = T.nodeAt slot up := by
  constructor
  · rintro ⟨path, ⟨down, rfl⟩, posPath, gone, rfl⟩
    rcases List.eq_nil_or_concat down with rfl | ⟨rest, i, rfl⟩
    · exact .inr ⟨gone, rfl⟩
    · have path : rest.concat i ++ up = rest ++ i :: up := by simp
      rw [path] at posPath gone ⊢
      exact .inl ⟨i, posPath.2.2 i (by simp), rest ++ i :: up, ⟨rest, rfl⟩, posPath, gone, rfl⟩
  · rintro (⟨i, _, path, below, posPath, gone, same⟩ | ⟨gone, rfl⟩)
    · exact ⟨path, (List.suffix_cons _ _).trans below, posPath, gone, same⟩
    · exact ⟨up, List.suffix_refl _, pos, gone, rfl⟩

/-! ## The entries of an index block -/

structure EntriesTrimmed (geo : Geometry) (T : PtrTree) (new old slot : Nat) (up : List Nat)
    (rest : List Nat) (s t : FsInfo) (buf buf' : Buf) (wrote wrote' left left' : Bool) : Prop where
  drops : Drops geo (fun b => ∃ i ∈ rest, GoneBelow geo T new old slot (i :: up) b)
    (fun b => ∃ i ∈ rest, T.Under (Pos geo) slot (i :: up) b) s t
  settled : ∀ i ∈ rest, Settled geo T new old slot (i :: up) t
  entries : ∀ i ∈ rest, buf'.getU32 (4 * i) = leftAt geo T new old slot (i :: up)
  others : ∀ i, i ∉ rest → buf'.getU32 (4 * i) = buf.getU32 (4 * i)
  left_ : left' = true ↔ left = true ∨ ∃ i ∈ rest, leftAt geo T new old slot (i :: up) ≠ 0
  untouched : wrote' = false → wrote = false ∧ buf' = buf

section ranges

variable (sound : geo.Sound)
include sound

theorem Written.kept (proper : Proper geo T) (written : Written geo T slot up s)
    (drops : Drops geo R A s t) (apart : ∀ b, T.Under (Pos geo) slot up b → ¬ A b) :
    Written geo T slot up t := by
  intro path i below pos present
  have under : T.Under (Pos geo) slot up (T.nodeAt slot path) :=
    ⟨path, below, posUp _ _ _ pos, present, rfl⟩
  rw [blockKept sound drops.writes, written path i below pos present]
  rintro (system | here)
  · exact (proper.placed slot up _ under).notMetadata (.inl system)
  · exact apart _ under here

theorem Settled.kept (proper : Proper geo T) (settled : Settled geo T new old slot up s)
    (drops : Drops geo R A s t) (apart : ∀ b, T.Under (Pos geo) slot up b → ¬ A b) :
    Settled geo T new old slot up t := by
  intro path i below pos left
  have present : T.nodeAt slot path ≠ 0 := fun none_ => left (leftZero.mpr (.inl none_))
  have under : T.Under (Pos geo) slot up (T.nodeAt slot path) :=
    ⟨path, below, posUp _ _ _ pos, present, rfl⟩
  rw [blockKept sound drops.writes, settled path i below pos left]
  rintro (system | here)
  · exact (proper.placed slot up _ under).notMetadata (.inl system)
  · exact apart _ under here

theorem EntriesTrimmed.cons (proper : Proper geo T) {i : Nat} {rest : List Nat}
    (once : i ∉ rest) {buf buf₁ buf' : Buf} {wrote wrote₁ wrote' left left' : Bool}
    (one : Trimmed geo T new old slot (i :: up) s m)
    (entry : buf₁.getU32 (4 * i) = leftAt geo T new old slot (i :: up))
    (others : ∀ j, j ≠ i → buf₁.getU32 (4 * j) = buf.getU32 (4 * j))
    (untouched : wrote₁ = false → wrote = false ∧ buf₁ = buf)
    (two : EntriesTrimmed geo T new old slot up rest m t buf₁ buf' wrote₁ wrote'
      (left || leftAt geo T new old slot (i :: up) != 0) left') :
    EntriesTrimmed geo T new old slot up (i :: rest) s t buf buf' wrote wrote' left left' where
  drops := by
    refine (one.drops.next two.drops).change (fun b => ?_) fun b => ?_
    · rw [List.exists_mem_cons_iff]
    · rw [List.exists_mem_cons_iff]
      exact id
  settled j member := by
    rcases List.mem_cons.mp member with rfl | member
    · refine one.settled.kept sound proper two.drops ?_
      rintro b under ⟨k, inRest, here⟩
      exact once (proper.distinct.siblings under here ▸ inRest)
    · exact two.settled j member
  entries j member := by
    rcases List.mem_cons.mp member with rfl | member
    · rw [two.others j once, entry]
    · exact two.entries j member
  others j outside := by
    rw [List.mem_cons, not_or] at outside
    rw [two.others j outside.2, others j outside.1]
  left_ := by
    rw [two.left_, List.exists_mem_cons_iff, Bool.or_eq_true, bne_iff_ne, or_assoc]
  untouched nothing := by
    obtain ⟨before, same⟩ := two.untouched nothing
    obtain ⟨first, same'⟩ := untouched before
    exact ⟨first, same.trans same'⟩

theorem entriesTrimmed (proper : Proper geo T) {n stop : Nat}
    (level : up.length + (n + 1) = depth slot)
    (cut : ∀ o < (geo.blockSize / 4) ^ (n + 1), o < stop ↔ firstBlock geo slot up + o < old)
    (some_ : new - firstBlock geo slot up < stop)
    (child : ∀ {i stop v : Nat} {s t : FsInfo}, Pos geo slot (i :: up) →
      T.nodeAt slot (i :: up) ≠ 0 → Visits geo new old slot (i :: up) →
      (∀ o < (geo.blockSize / 4) ^ n, o < stop ↔ firstBlock geo slot (i :: up) + o < old) →
      new - firstBlock geo slot (i :: up) < stop →
      Coherent geo s → Written geo T slot (i :: up) s →
      ext2FreeRange geo n (T.nodeAt slot (i :: up)) (new - firstBlock geo slot (i :: up)) stop s =
        (some v, t) →
      v = leftAt geo T new old slot (i :: up) ∧ Trimmed geo T new old slot (i :: up) s t)
    (rest : List Nat) (once : rest.Nodup) (posAll : ∀ i ∈ rest, Pos geo slot (i :: up))
    {buf buf' : Buf} {wrote wrote' left left' : Bool} {s t : FsInfo}
    (coherent : Coherent geo s) (written : ∀ i ∈ rest, Written geo T slot (i :: up) s)
    (entries : ∀ i ∈ rest, buf.getU32 (4 * i) = T.nodeAt slot (i :: up))
    (ran : freeEntries (ext2FreeRange geo n) ((geo.blockSize / 4) ^ n)
      (new - firstBlock geo slot up) stop rest buf wrote left s =
        (some (buf', wrote', left'), t)) :
    EntriesTrimmed geo T new old slot up rest s t buf buf' wrote wrote' left left' := by
  induction rest generalizing buf wrote left s with
  | nil =>
    cases ran
    have none_ {p : Nat → Prop} : ∀ i ∈ ([] : List Nat), p i := List.forall_mem_nil _
    exact ⟨.nothing coherent fun b gone => gone.elim fun i both => absurd both.1 List.not_mem_nil,
      none_, none_, fun _ _ => rfl, by simp, fun h => ⟨h, rfl⟩⟩
  | cons i rest ih =>
    obtain ⟨apart, once⟩ := List.nodup_cons.mp once
    have pos := posAll i (by simp)
    have small : i < geo.blockSize / 4 := pos.2.2 i (by simp)
    have base : firstBlock geo slot (i :: up) = _ := firstBlockChild level
    have within := (@firstBelow geo slot up i n level small).2
    have visitsIff : Visits geo new old slot (i :: up) ↔ firstBlock geo slot (i :: up) < old ∧
        new < firstBlock geo slot (i :: up) + (geo.blockSize / 4) ^ n := by
      unfold Visits
      rw [List.length_cons, show depth slot - (up.length + 1) = n by omega]
      simp
    have width : 0 < (geo.blockSize / 4) ^ n := Nat.pow_pos (ptrsPos sound).1
    have cutHere (o) := cut (i * (geo.blockSize / 4) ^ n + o)
    unfold freeEntries at ran
    dsimp only at ran
    rw [entries i (by simp)] at ran
    generalize (geo.blockSize / 4) ^ (n + 1) = whole at *
    generalize (geo.blockSize / 4) ^ n = perChild at *
    have rest_ {m : FsInfo} {buf₁ : Buf} {wrote₁ : Bool}
        (one : Trimmed geo T new old slot (i :: up) s m)
        (others : ∀ j, j ≠ i → buf₁.getU32 (4 * j) = buf.getU32 (4 * j))
        (ran : freeEntries (ext2FreeRange geo n) perChild (new - firstBlock geo slot up) stop rest
          buf₁ wrote₁ (left || leftAt geo T new old slot (i :: up) != 0) m =
            (some (buf', wrote', left'), t)) :
        EntriesTrimmed geo T new old slot up rest m t buf₁ buf' wrote₁ wrote'
          (left || leftAt geo T new old slot (i :: up) != 0) left' := by
      have differ {j} (member : j ∈ rest) : j ≠ i := fun same => apart (same ▸ member)
      refine ih once (fun j member => posAll j (by simp [member])) one.drops.coherent
        (fun j member => ?_) (fun j member => ?_) ran
      · refine (written j (by simp [member])).kept sound proper one.drops fun b under here => ?_
        exact differ member (proper.distinct.siblings under here)
      · rw [others j (differ member), entries j (by simp [member])]
    split at ran
    · next visited =>
      obtain ⟨present, ends, starts⟩ := visited
      have cs : (if i * perChild < new - firstBlock geo slot up then
          new - firstBlock geo slot up - i * perChild else 0) =
            new - firstBlock geo slot (i :: up) := by
        rw [base]
        split <;> omega
      have cutChild : ∀ o < perChild,
          o < (if i * perChild + perChild < stop then perChild else stop - i * perChild) ↔
            firstBlock geo slot (i :: up) + o < old := by
        intro o below
        rw [base, Nat.add_assoc, ← cutHere o (by omega)]
        split <;> omega
      have someChild : new - firstBlock geo slot (i :: up) <
          if i * perChild + perChild < stop then perChild else stop - i * perChild := by
        rw [base]
        split <;> omega
      have visits : Visits geo new old slot (i :: up) := by
        have low := (cutChild 0 width).mp (by split <;> omega)
        exact visitsIff.mpr ⟨low, by omega⟩
      rw [cs] at ran
      generalize (if _ < stop then perChild else _) = ce at ran cutChild someChild
      obtain ⟨v, m, freed, ran⟩ := bindSome.mp ran
      obtain ⟨rfl, one⟩ := child pos present visits cutChild someChild coherent
        (written i (by simp)) freed
      have others (j) (differ : j ≠ i) :
          (buf.setU32 (4 * i) (leftAt geo T new old slot (i :: up))).getU32 (4 * j) =
            buf.getU32 (4 * j) := Buf.getU32SetApart _ _ (by omega)
      refine .cons sound proper apart one ?_ others ?_ (rest_ one others ran)
      rotate_left
      · exact fun absurd' => Bool.noConfusion absurd'
      have bound : leftAt geo T new old slot (i :: up) < 2 ^ 32 := by
        unfold leftAt
        split
        · decide
        · rw [← entries i (by simp)]
          exact Buf.getU32Lt _ _
      exact Buf.getU32Set _ bound
    · next skipped =>
      have skip : T.nodeAt slot (i :: up) = 0 ∨ ¬ Visits geo new old slot (i :: up) := by
        by_contra both
        rw [not_or, not_not, visitsIff] at both
        have starts := (cutHere 0 (by omega)).mpr (by omega)
        exact skipped ⟨both.1, by omega, by omega⟩
      have stays (path) (onWay : i :: up <:+ path) (pos : Pos geo slot path) :=
        staysBelow skip onWay pos
      have one : Trimmed geo T new old slot (i :: up) s s :=
        .nothing coherent (written i (by simp)) stays
      have here := leftOf (stays _ (List.suffix_refl _) pos)
      rw [← here] at ran
      refine .cons sound proper apart one ?_ (fun _ _ => rfl) (fun h => ⟨h, rfl⟩)
        (rest_ one (fun _ _ => rfl) ran)
      rw [here, entries i (by simp)]

theorem finishTrimmed (proper : Proper geo T) {n : Nat} (level : up.length + (n + 1) = depth slot)
    (pos : Pos geo slot up) (present : T.nodeAt slot up ≠ 0) (visits : Visits geo new old slot up)
    {buf buf' : Buf} {wrote left : Bool} {v : Nat}
    (read : ∀ i < geo.blockSize / 4,
      (blockAt geo m.dev (T.nodeAt slot up)).getU32 (4 * i) = buf.getU32 (4 * i))
    (entries : EntriesTrimmed geo T new old slot up (List.range (geo.blockSize / 4)) s m buf buf'
      false wrote false left)
    (ran : ((if wrote then ext2WriteBlock geo (T.nodeAt slot up) buf' else pure ()) >>=
      fun _ => if left then pure (T.nodeAt slot up)
        else ext2FreeBlock geo (T.nodeAt slot up) >>= fun _ => pure 0) m = (some v, t)) :
    v = leftAt geo T new old slot up ∧ Trimmed geo T new old slot up s t := by
  have here : T.Under (Pos geo) slot up (T.nodeAt slot up) :=
    ⟨up, List.suffix_refl _, pos, present, rfl⟩
  have placed := proper.placed slot up _ here
  obtain ⟨_, p, wrote_, ran⟩ := bindSome.mp ran
  -- the block holds what is left, whether or not it was written
  have back : Drops geo (fun _ => False) (· = T.nodeAt slot up) m p ∧
      ∀ i < geo.blockSize / 4, (blockAt geo p.dev (T.nodeAt slot up)).getU32 (4 * i) =
        leftAt geo T new old slot (i :: up) := by
    have coherent' := entries.drops.coherent
    split at wrote_
    · rcases writeBlockCases sound (T.nodeAt slot up) buf' coherent'.unbroken with
        ⟨d, failed, _⟩ | ⟨d, done, writes, _, data⟩
      · rw [failed] at wrote_
        cases wrote_
      rw [done] at wrote_
      cases wrote_
      have apart (kind group) (real : geo.Real group) :
          geo.bgBitmap kind group ≠ T.nodeAt slot up := fun same =>
        placed.notMetadata (.inl (.inl ⟨group, kind, sound.realInside real, real, same.symm⟩))
      obtain ⟨coherent'', same⟩ := writeApart sound coherent' writes apart
      refine ⟨⟨coherent'', writes.mono fun _ => .inr, fun _ _ _ h => h.elim,
        fun b low inside _ => same.allocated sound low inside⟩, fun i small => ?_⟩
      rw [data, overEntry sound small]
      exact entries.entries i (List.mem_range.mpr small)
    · next none_ =>
      cases wrote_
      refine ⟨.nothing coherent' fun _ => id, fun i small => ?_⟩
      rw [Bool.not_eq_true] at none_
      rw [read i small, ← (entries.untouched none_).2]
      exact entries.entries i (List.mem_range.mpr small)
  obtain ⟨back, holds⟩ := back
  have upTo := entries.drops.next back
  have settledChild {q : FsInfo} {R A : Nat → Prop} (drops : Drops geo R A p q)
      (apart : ∀ b, T.Under (Pos geo) slot up b → ¬ A b) {i : Nat}
      (small : i < geo.blockSize / 4) : Settled geo T new old slot (i :: up) q := by
    refine ((entries.settled i (List.mem_range.mpr small)).kept sound proper back ?_).kept sound
      proper drops fun b under => apart b (under.above (List.suffix_cons _ _))
    rintro b under rfl
    exact notBelowItself proper.distinct pos present under
  have settled {q : FsInfo} {R A : Nat → Prop} (drops : Drops geo R A p q)
      (apart : ∀ b, T.Under (Pos geo) slot up b → ¬ A b) : Settled geo T new old slot up q := by
    rintro path i ⟨down, rfl⟩ posPath stays
    rcases List.eq_nil_or_concat down with rfl | ⟨rest, j, rfl⟩
    · rw [List.nil_append]
      have same : blockAt geo q.dev (T.nodeAt slot up) = blockAt geo p.dev (T.nodeAt slot up) := by
        refine blockKept sound drops.writes ?_
        rintro (system | written)
        · exact placed.notMetadata (.inl system)
        · exact apart _ here written
      rw [same]
      exact holds i (posPath.2.2 i (by simp))
    · have shape : rest.concat j ++ up = rest ++ j :: up := by simp
      rw [shape] at posPath stays ⊢
      exact settledChild drops apart (posPath.2.2 j (by simp)) _ i ⟨rest, rfl⟩ posPath stays
  have gone : Gone geo T new old slot up ↔ left = false := by
    rw [goneIndex level present, and_iff_right visits, ← Bool.not_eq_true, entries.left_]
    simp
  have below (b : Nat) : (∃ i < geo.blockSize / 4, GoneBelow geo T new old slot (i :: up) b) ↔
      ∃ i ∈ List.range (geo.blockSize / 4), GoneBelow geo T new old slot (i :: up) b := by
    simp only [List.mem_range]
  have sub (b : Nat) : ((∃ i ∈ List.range (geo.blockSize / 4), T.Under (Pos geo) slot (i :: up) b) ∨
      b = T.nodeAt slot up) → T.Under (Pos geo) slot up b := by
    rintro (⟨i, _, under⟩ | rfl)
    · exact under.above (List.suffix_cons _ _)
    · exact here
  split at ran
  · next some_ =>
    cases ran
    have stays : ¬ Gone geo T new old slot up := by
      rw [gone, some_]
      decide
    refine ⟨(leftOf stays).symm, upTo.change (fun b => ?_) sub, ?_⟩
    · rw [goneCases pos, below]
      simp only [stays, false_and]
    · exact settled (.nothing (A := fun _ => False) back.coherent fun _ => id) fun _ _ => id
  · next none_ =>
    rw [Bool.not_eq_true] at none_
    have gone := gone.mpr none_
    obtain ⟨_, q, freed, ran⟩ := bindSome.mp ran
    cases ran
    obtain ⟨coherent', writes, ⟨⟨⟩, _⟩ | ⟨_, _, low, _, marks⟩⟩ :=
      freeBlockCases sound back.coherent freed
    have last : Drops geo (· = T.nodeAt slot up) (fun _ => False) p t := by
      refine ⟨coherent', writes.mono fun _ => .inl, ?_, ?_⟩
      · rintro b lowB insideB rfl
        rw [marks.allocated sound low lowB insideB, if_pos rfl]
      · intro b lowB insideB other
        rw [marks.allocated sound low lowB insideB, if_neg other]
    refine ⟨(leftNone gone).symm, (upTo.next last).change (fun b => ?_) fun b h => ?_,
      settled last fun _ _ => id⟩
    · rw [goneCases pos, below, and_iff_right gone, or_false]
    · exact sub b (h.resolve_right id)

theorem rangeTrimmed (proper : Proper geo T) (n : Nat) {stop v : Nat} {up : List Nat}
    {s t : FsInfo} (pos : Pos geo slot up) (level : up.length + n = depth slot)
    (present : T.nodeAt slot up ≠ 0) (visits : Visits geo new old slot up)
    (cut : ∀ o < (geo.blockSize / 4) ^ n, o < stop ↔ firstBlock geo slot up + o < old)
    (some_ : new - firstBlock geo slot up < stop) (coherent : Coherent geo s)
    (written : Written geo T slot up s)
    (ran : ext2FreeRange geo n (T.nodeAt slot up) (new - firstBlock geo slot up) stop s =
      (some v, t)) :
    v = leftAt geo T new old slot up ∧ Trimmed geo T new old slot up s t := by
  induction n generalizing stop up s t v with
  | zero =>
    have here : T.Under (Pos geo) slot up (T.nodeAt slot up) :=
      ⟨up, List.suffix_refl _, pos, present, rfl⟩
    have covered : new - firstBlock geo slot up = 0 := by
      obtain ⟨_, ⟨rfl, index⟩ | ends⟩ := visits
      · rw [depth, List.length_nil] at level
        omega
      · rw [show depth slot - up.length = 0 by omega, Nat.pow_zero] at ends
        omega
    have gone : Gone geo T new old slot up := by
      refine ⟨present, ?_⟩
      rw [show depth slot - up.length = 0 by omega]
      exact visits
    unfold ext2FreeRange at ran
    rw [if_neg (by omega), if_pos covered] at ran
    obtain ⟨_, m, freed, ran⟩ := bindSome.mp ran
    cases ran
    obtain ⟨coherent', writes, ⟨⟨⟩, _⟩ | ⟨_, _, low, _, marks⟩⟩ :=
      freeBlockCases sound coherent freed
    have only (path) (below : up <:+ path) (posPath : Pos geo slot path) : path = up := by
      refine (below.eq_of_length_le ?_).symm
      have := posPath.2.1
      omega
    refine ⟨(leftNone gone).symm, ⟨coherent', writes.mono fun _ => .inl, ?_, ?_⟩, ?_⟩
    · rintro b lowB insideB ⟨path, below, posPath, _, rfl⟩
      rw [only path below posPath, marks.allocated sound low ?_ ?_, if_pos rfl]
      · rwa [only path below posPath] at lowB
      · rwa [only path below posPath] at insideB
    · intro b lowB insideB other
      rw [marks.allocated sound low lowB insideB, if_neg]
      rintro rfl
      exact other ⟨up, List.suffix_refl _, pos, gone, rfl⟩
    · intro path i below posPath _
      have longer := posPath.2.1
      rw [List.length_cons, only path below (posUp _ _ _ posPath)] at longer
      omega
  | succ n ih =>
    unfold ext2FreeRange at ran
    dsimp only at ran
    rw [if_neg (by omega)] at ran
    obtain ⟨buf, m, read, ran⟩ := bindSome.mp ran
    obtain ⟨⟨buf', wrote, left⟩, p, loop, ran⟩ := bindSome.mp ran
    rcases readBlockCases sound (T.nodeAt slot up) Buf.zero coherent.unbroken with
      ⟨d, failed, _⟩ | ⟨d, done, writes, _⟩
    · rw [failed] at read
      cases read
    rw [done] at read
    cases read
    have reads : Drops geo (fun _ => False) (fun _ => False) s { s with dev := d } := by
      obtain ⟨coherent', same⟩ := writeApart sound coherent (writes fun _ => False) fun _ _ _ => id
      exact ⟨coherent', writes _, fun _ _ _ h => h.elim,
        fun b low inside _ => same.allocated sound low inside⟩
    have posAll : ∀ i ∈ List.range (geo.blockSize / 4), Pos geo slot (i :: up) := by
      intro i member
      refine ⟨pos.1, by rw [List.length_cons]; omega, fun j inPath => ?_⟩
      rcases List.mem_cons.mp inPath with rfl | above
      · exact List.mem_range.mp member
      · exact pos.2.2 j above
    have entry {i} (small : i < geo.blockSize / 4) :
        (Buf.overlay geo.blockSize (blockAt geo s.dev (T.nodeAt slot up)) Buf.zero).getU32 (4 * i) =
          T.nodeAt slot (i :: up) := by
      rw [overEntry sound small]
      exact written up i (List.suffix_refl _) (posAll i (List.mem_range.mpr small)) present
    have entries := entriesTrimmed sound proper level cut some_
      (fun posHere there visitsHere cutHere someHere =>
        ih posHere (by rw [List.length_cons]; omega) there visitsHere cutHere someHere)
      _ List.nodup_range posAll reads.coherent
      (fun i _ => (written.kept sound proper reads fun _ _ => id).below)
      (fun i member => entry (List.mem_range.mp member)) loop
    have whole : EntriesTrimmed geo T new old slot up (List.range (geo.blockSize / 4)) s p _ buf'
        false wrote false left :=
      { entries with
        drops := (reads.next entries.drops).change (fun b => by simp only [false_or])
          fun b h => h.resolve_left id }
    refine finishTrimmed sound proper level pos present visits (fun i small => ?_) whole
      (by cases wrote <;> exact ran)
    have same : blockAt geo p.dev (T.nodeAt slot up) = blockAt geo s.dev (T.nodeAt slot up) := by
      refine blockKept sound whole.drops.writes ?_
      rintro (system | ⟨i, _, under⟩)
      · refine (proper.placed slot up _ ?_).notMetadata (.inl system)
        exact ⟨up, List.suffix_refl _, pos, present, rfl⟩
      · exact notBelowItself proper.distinct pos present under
    rw [same, overEntry sound small]

end ranges

/-! ## The slots of i_block -/

structure CutBack (geo : Geometry) (T : PtrTree) (new old : Nat) (D : Nat → Prop)
    (s t : FsInfo × Inode) : Prop where
  drops : Drops geo (fun b => ∃ slot, D slot ∧ GoneBelow geo T new old slot [] b)
    (fun b => ∃ slot, D slot ∧ T.Under (Pos geo) slot [] b) s.1 t.1
  done : ∀ slot, D slot → t.2.iBlock slot = leftAt geo T new old slot []
  settled : ∀ slot, D slot → Settled geo T new old slot [] t.1
  todo : ∀ slot, ¬ D slot → t.2.iBlock slot = T.nodeAt slot []
  written : ∀ slot, ¬ D slot → Written geo T slot [] t.1

section slots

variable {D : Nat → Prop} {s m t : FsInfo × Inode}

theorem freeRangeNone (n start stop : Nat) (fs : FsInfo) :
    ext2FreeRange geo n 0 start stop fs = (some 0, fs) := by
  cases n <;> exact congrFun (if_pos (.inl rfl)) fs

theorem firstRoot : firstBlock geo slot [] = slotBase geo slot := by
  simp [firstBlock, pathIndex]

variable (sound : geo.Sound)
include sound

theorem CutBack.next (proper : Proper geo T) (sofar : CutBack geo T new old D s m)
    (fresh : ¬ D slot) (trimmed : Trimmed geo T new old slot [] m.1 t.1)
    (root : t.2.iBlock slot = leftAt geo T new old slot [])
    (others : ∀ k, k ≠ slot → t.2.iBlock k = m.2.iBlock k) :
    CutBack geo T new old (fun k => D k ∨ k = slot) s t where
  drops := by
    refine (sofar.drops.next trimmed.drops).change (fun b => ?_) fun b => ?_
    · simp only [or_and_right, exists_or, exists_eq_left]
    · simp only [or_and_right, exists_or, exists_eq_left]
      exact id
  done k here := by
    rcases here with before | rfl
    · rw [others k fun same => fresh (same ▸ before), sofar.done k before]
    · exact root
  settled k here := by
    rcases here with before | rfl
    · refine (sofar.settled k before).kept sound proper trimmed.drops fun b under there => ?_
      exact fresh ((proper.distinct.meets under there).1 ▸ before)
    · exact trimmed.settled
  todo k outside := by
    rw [not_or] at outside
    rw [others k outside.2, sofar.todo k outside.1]
  written k outside := by
    rw [not_or] at outside
    refine (sofar.written k outside.1).kept sound proper trimmed.drops fun b under there => ?_
    exact outside.2 (proper.distinct.meets under there).1

theorem CutBack.skip (proper : Proper geo T) (sofar : CutBack geo T new old D s m)
    (low : slot < 15) (fresh : ¬ D slot)
    (skipped : T.nodeAt slot [] = 0 ∨ ¬ Visits geo new old slot []) :
    CutBack geo T new old (fun k => D k ∨ k = slot) s m := by
  have stays (path) (onWay : [] <:+ path) (pos : Pos geo slot path) :=
    staysBelow skipped onWay pos
  refine sofar.next sound proper fresh
    (.nothing sofar.drops.coherent (sofar.written slot fresh) stays) ?_ fun _ _ => rfl
  rw [sofar.todo slot fresh, leftOf]
  exact stays [] (List.suffix_refl _) ⟨low, Nat.zero_le _, fun _ h => (nomatch h)⟩

theorem rangeCut (proper : Proper geo T) {stop : Nat} (low : slot < 15)
    (visits : Visits geo new old slot [])
    (cut : ∀ o < (geo.blockSize / 4) ^ depth slot, o < stop ↔ slotBase geo slot + o < old)
    (some_ : new - slotBase geo slot < stop) (sofar : CutBack geo T new old D s m)
    (fresh : ¬ D slot)
    (ran : (onFst (ext2FreeRange geo (depth slot) (m.2.iBlock slot) (new - slotBase geo slot)
      stop) >>= fun v => modify fun s => (s.1, s.2.setIBlock slot v)) m = (some (), t)) :
    CutBack geo T new old (fun k => D k ∨ k = slot) s t := by
  obtain ⟨fs, inode⟩ := m
  have pos : Pos geo slot [] := ⟨low, Nat.zero_le _, fun _ h => (nomatch h)⟩
  have root : inode.iBlock slot = T.nodeAt slot [] := sofar.todo slot fresh
  obtain ⟨v, n, freed, ran⟩ := bindSome.mp ran
  rw [onFstRun] at freed
  rcases range : ext2FreeRange geo (depth slot) (inode.iBlock slot) (new - slotBase geo slot)
    stop fs with ⟨o, fs'⟩
  rw [range] at freed
  cases freed
  cases ran
  have trimmed : v = leftAt geo T new old slot [] ∧ Trimmed geo T new old slot [] fs fs' := by
    rw [root] at range
    by_cases present : T.nodeAt slot [] = 0
    · rw [present, freeRangeNone] at range
      cases range
      refine ⟨(leftZero.mpr (.inl present)).symm, .nothing sofar.drops.coherent
        (sofar.written slot fresh) fun path onWay posPath => ?_⟩
      exact staysBelow (.inl present) onWay posPath
    · rw [← firstRoot] at range some_ cut
      exact rangeTrimmed sound proper (depth slot) pos (by simp) present visits cut some_
        sofar.drops.coherent (sofar.written slot fresh) range
  obtain ⟨rfl, trimmed⟩ := trimmed
  refine sofar.next sound proper fresh trimmed ?_ fun k other => Buf.getU32SetApart _ _ (by omega)
  have bound : leftAt geo T new old slot [] < 2 ^ 32 := by
    unfold leftAt
    split
    · decide
    · rw [← root]
      exact Buf.getU32Lt _ _
  exact Buf.getU32Set _ bound

theorem directCut (proper : Proper geo T) (starts : new ≤ slot) (ends : slot < min old 12)
    (sofar : CutBack geo T new old D s m) (fresh : ¬ D slot)
    (ran : truncateDirect geo slot m = (some (), t)) :
    CutBack geo T new old (fun k => D k ∨ k = slot) s t := by
  have level : depth slot = 0 := by unfold depth; omega
  have base : slotBase geo slot = slot := if_pos (by omega)
  have cut : ∀ o < (geo.blockSize / 4) ^ depth slot, o < 1 ↔ slotBase geo slot + o < old := by
    intro o small
    rw [level, Nat.pow_zero] at small
    rw [base]
    omega
  refine rangeCut sound proper (by omega) ?_ cut ?_ sofar fresh ?_
  · refine ⟨by rw [firstRoot, base]; omega, .inr ?_⟩
    rw [firstRoot, base, level]
    show new < slot + 1
    omega
  · rw [base]
    omega
  · rw [level, base, show new - slot = 0 by omega]
    exact ran

theorem directsCut (proper : Proper geo T) (xs : List Nat) (once : xs.Nodup)
    (bounds : ∀ i ∈ xs, new ≤ i ∧ i < min old 12) (sofar : CutBack geo T new old D s m)
    (fresh : ∀ i ∈ xs, ¬ D i) (ran : xs.forM (truncateDirect geo) m = (some (), t)) :
    CutBack geo T new old (fun k => D k ∨ k ∈ xs) s t := by
  induction xs generalizing D m with
  | nil =>
    cases ran
    rw [show (fun k => D k ∨ k ∈ []) = D from funext fun _ => by simp]
    exact sofar
  | cons i rest ih =>
    obtain ⟨apart, once⟩ := List.nodup_cons.mp once
    obtain ⟨starts, ends⟩ := bounds i (by simp)
    obtain ⟨_, n, first, ran⟩ := bindSome.mp
      (show (truncateDirect geo i >>= fun _ => rest.forM (truncateDirect geo)) m = _ from ran)
    have one := directCut sound proper starts ends sofar (fresh i (by simp)) first
    have two := ih once (fun j member => bounds j (by simp [member])) one (fun j member => ?_) ran
    · rw [show (fun k => D k ∨ k ∈ i :: rest) = fun k => (D k ∨ k = i) ∨ k ∈ rest from
        funext fun _ => by rw [List.mem_cons, or_assoc]]
      exact two
    · rw [not_or]
      exact ⟨fresh j (by simp [member]), fun same => apart (same ▸ member)⟩

theorem slotCut (proper : Proper geo T) (less : new < old) (index : 12 ≤ slot) (low : slot < 15)
    (sofar : CutBack geo T new old D s m) (fresh : ¬ D slot)
    (ran : truncateSlot geo slot (depth slot) (slotBase geo slot) new old m = (some (), t)) :
    CutBack geo T new old (fun k => D k ∨ k = slot) s t := by
  unfold truncateSlot at ran
  rw [getBind] at ran
  split at ran
  · next visited =>
    refine rangeCut sound proper low ⟨?_, .inl ⟨rfl, index⟩⟩ (fun o _ => ?_) ?_ sofar fresh ran
    · rw [firstRoot]
      exact visited.2
    · omega
    · omega
  · next skipped =>
    cases ran
    refine sofar.skip sound proper low fresh ?_
    rw [← sofar.todo slot fresh, or_iff_not_imp_left]
    rintro present ⟨starts, _⟩
    rw [firstRoot] at starts
    exact skipped ⟨present, starts⟩

theorem truncateCut (proper : Proper geo T) (less : new < old)
    (start : CutBack geo T new old (fun _ => False) s s)
    (ran : ext2TruncateBlocks geo new old s = (some (), t)) :
    CutBack geo T new old (fun slot => slot < 15) s t := by
  unfold ext2TruncateBlocks at ran
  rw [if_neg (by omega)] at ran
  generalize xs_ : List.range' new (min old 12 - new) = xs at ran
  have listed (i) : i ∈ xs ↔ new ≤ i ∧ i < min old 12 := by
    rw [← xs_, List.mem_range'_1]
    omega
  obtain ⟨_, a, direct, ran⟩ := bindSome.mp ran
  obtain ⟨_, b, single, ran⟩ := bindSome.mp ran
  obtain ⟨_, c, double, triple⟩ := bindSome.mp ran
  have one := directsCut sound proper xs (xs_ ▸ List.nodup_range') (fun i => (listed i).mp) start
    (fun _ _ => id) direct
  have two := slotCut sound proper less (Nat.le_refl 12) (by decide) one (by simp [listed]) single
  have three := slotCut sound proper less (Nat.le_succ 12) (by decide) two (by simp [listed]) double
  have four := slotCut sound proper less (show 12 ≤ 14 by decide) (by decide) three
    (by simp [listed]) triple
  -- the direct blocks outside [new, old) are not looked at
  have stays (slot) (outside : ¬ ((((False ∨ slot ∈ xs) ∨ slot = 12) ∨ slot = 13) ∨ slot = 14))
      (low : slot < 15) (path) (pos : Pos geo slot path) : ¬ Gone geo T new old slot path := by
    simp only [false_or, listed, not_or] at outside
    have base : slotBase geo slot = slot := if_pos (by omega)
    refine staysBelow (.inr ?_) List.nil_suffix pos
    rintro ⟨starts, ⟨_, index⟩ | ends⟩
    · omega
    rw [firstRoot, base] at starts ends
    rw [List.length_nil, show depth slot - 0 = 0 by unfold depth; omega, Nat.pow_zero] at ends
    omega
  have root (slot) (low : slot < 15) : Pos geo slot [] :=
    ⟨low, Nat.zero_le _, fun _ h => (nomatch h)⟩
  refine ⟨four.drops.change (fun b => ?_) fun b => ?_, fun slot low => ?_, fun slot low => ?_,
    fun slot high => ?_, fun slot high => ?_⟩
  · constructor
    · rintro ⟨slot, low, path, onWay, pos, gone, same⟩
      refine ⟨slot, ?_, path, onWay, pos, gone, same⟩
      by_contra outside
      exact stays slot outside low path pos gone
    · rintro ⟨slot, _, path, onWay, pos, gone, same⟩
      exact ⟨slot, pos.1, path, onWay, pos, gone, same⟩
  · rintro ⟨slot, _, path, onWay, pos, there⟩
    exact ⟨slot, pos.1, path, onWay, pos, there⟩
  · by_cases done : (((False ∨ slot ∈ xs) ∨ slot = 12) ∨ slot = 13) ∨ slot = 14
    · exact four.done slot done
    · rw [four.todo slot done, leftOf (stays slot done low [] (root slot low))]
  · by_cases done : (((False ∨ slot ∈ xs) ∨ slot = 12) ∨ slot = 13) ∨ slot = 14
    · exact four.settled slot done
    · exact (Trimmed.nothing four.drops.coherent (four.written slot done)
        fun path _ => stays slot done low path).settled
  · refine four.todo slot fun done => ?_
    simp only [false_or, listed] at done
    omega
  · intro path i _ pos
    exact absurd pos.1 high

omit sound in
theorem cutTree (cut : CutBack geo T new old (fun slot => slot < 15) s t) {path : List Nat}
    (pos : Pos geo slot path) :
    (treeOf geo t).nodeAt slot path = leftAt geo T new old slot path := by
  induction path with
  | nil => exact cut.done slot pos.1
  | cons i up ih =>
    have here := ih (posUp _ _ _ pos)
    rw [PtrTree.nodeAt, here]
    split
    · next none_ => exact (leftBelow pos none_).symm
    · next left =>
      have stays : ¬ Gone geo T new old slot up := fun gone => left (leftNone gone)
      rw [leftOf stays]
      exact cut.settled slot pos.1 up i List.nil_suffix pos left

end slots

structure Truncates (geo : Geometry) (new old : Nat) (s t : FsInfo × Inode) : Prop where
  sane : Sane geo t
  -- the marks: exactly the blocks that go are freed
  freed : ∀ slot path, Pos geo slot path → Gone geo (treeOf geo s) new old slot path →
    allocated geo t.1 ((treeOf geo s).nodeAt slot path) = false
  kept : ∀ b, geo.sFirstDataBlock ≤ b → b < geo.sBlocksCount →
    (∀ slot path, Pos geo slot path → Gone geo (treeOf geo s) new old slot path →
      (treeOf geo s).nodeAt slot path ≠ b) → allocated geo t.1 b = allocated geo s.1 b
  -- the pointers: exactly those to the blocks that go are cleared
  cleared : ∀ slot path, Pos geo slot path → Gone geo (treeOf geo s) new old slot path →
    (treeOf geo t).nodeAt slot path = 0
  others : ∀ slot path, Pos geo slot path → ¬ Gone geo (treeOf geo s) new old slot path →
    (treeOf geo t).nodeAt slot path = (treeOf geo s).nodeAt slot path
  -- a data block goes when its file block is cut off, an index block when it is looked at
  -- and maps nothing any more
  data : ∀ fileBlock slot path, position geo fileBlock = some (slot, path) →
    (Gone geo (treeOf geo s) new old slot path ↔
      (treeOf geo s).nodeAt slot path ≠ 0 ∧ new ≤ fileBlock ∧ fileBlock < old)
  index : ∀ slot path, Pos geo slot path → path.length < depth slot →
    (Gone geo (treeOf geo s) new old slot path ↔ (treeOf geo s).nodeAt slot path ≠ 0 ∧
      Visits geo new old slot path ∧
        ∀ i < geo.blockSize / 4, (treeOf geo t).nodeAt slot (i :: path) = 0)
  maps : ∀ fileBlock, ¬ (new ≤ fileBlock ∧ fileBlock < old) → ∀ v,
    Maps geo t fileBlock v ↔ Maps geo s fileBlock v

theorem goneData {fileBlock : Nat} (level : path.length = depth slot)
    (same : fileBlock = slotBase geo slot + pathIndex geo path) :
    Gone geo T new old slot path ↔
      T.nodeAt slot path ≠ 0 ∧ new ≤ fileBlock ∧ fileBlock < old := by
  have first : firstBlock geo slot path = fileBlock := by
    rw [firstBlock, level, Nat.sub_self, Nat.pow_zero, Nat.mul_one, same]
  unfold Gone
  rw [level, Nat.sub_self, Goes, Visits, first, level, Nat.sub_self, Nat.pow_zero]
  refine and_congr_right fun _ => ⟨?_, ?_⟩
  · rintro ⟨below, ⟨rfl, index⟩ | above⟩
    · rw [depth, List.length_nil] at level
      omega
    · exact ⟨by omega, below⟩
  · rintro ⟨above, below⟩
    exact ⟨below, .inr (by omega)⟩

theorem startCut {s : FsInfo × Inode} (coherent : Coherent geo s.1) :
    CutBack geo (treeOf geo s) new old (fun _ => False) s s where
  drops := .nothing coherent fun b ⟨_, h, _⟩ => h
  done _ h := h.elim
  settled _ h := h.elim
  todo _ _ := rfl
  written slot _ path i _ _ present := by
    rw [PtrTree.nodeAt, if_neg present]
    rfl

theorem cutSane {s t : FsInfo × Inode} (sane : Sane geo s)
    (cut : CutBack geo (treeOf geo s) new old (fun slot => slot < 15) s t) : Sane geo t := by
  have staying {slot path} (pos : Pos geo slot path) (left : (treeOf geo t).nodeAt slot path ≠ 0) :
      ¬ Gone geo (treeOf geo s) new old slot path ∧
        (treeOf geo t).nodeAt slot path = (treeOf geo s).nodeAt slot path ∧
        (treeOf geo s).nodeAt slot path ≠ 0 := by
    rw [cutTree cut pos] at left ⊢
    have stays : ¬ Gone geo (treeOf geo s) new old slot path := fun gone => left (leftNone gone)
    rw [leftOf stays] at left ⊢
    exact ⟨stays, rfl, left⟩
  refine ⟨cut.drops.coherent, ?_, ?_, ?_⟩
  · intro b low inside reserved
    rw [cut.drops.kept b low inside]
    · exact sane.reservedUsed b low inside reserved
    · rintro ⟨slot, _, path, _, pos, ⟨present, _⟩, rfl⟩
      rcases reserved with none_ | metadata
      · exact present none_
      · exact (sane.data slot path pos present).notMetadata metadata
  · intro slot path slot' path' pos pos' present same
    obtain ⟨_, here, was⟩ := staying pos present
    obtain ⟨_, there, _⟩ := staying pos' (same ▸ present)
    rw [here, there] at same
    exact sane.distinct slot path slot' path' pos pos' was same
  · intro slot path pos present
    obtain ⟨stays, here, was⟩ := staying pos present
    have data := sane.data slot path pos was
    rw [here]
    refine ⟨data.low, data.inside, data.notMetadata, ?_⟩
    rw [cut.drops.kept _ data.low data.inside]
    · exact data.used
    · rintro ⟨slot', _, path', _, pos', gone, same⟩
      obtain ⟨rfl, rfl⟩ := sane.distinct _ _ _ _ pos' pos gone.1 same
      exact stays gone

def emptyIndexFs : FsInfo :=
  { fullGroupFs with
    dev := ⟨fun s _ => if s = 10 ∨ s = 11 ∨ s / 2 = 100 then 0 else 0xFF, [], []⟩ }

def emptyIndex : FsInfo × Inode :=
  (emptyIndexFs, Inode.setIBlock (Inode.setIBlock Buf.zero 12 100) 1 101)

theorem emptyIndexBlock : blockAt bootBlockGeometry emptyIndexFs.dev 100 = Buf.zero := by
  funext o
  show (if o < 1024 then (if 100 * 2 + o / 512 = 10 ∨ 100 * 2 + o / 512 = 11 ∨
    (100 * 2 + o / 512) / 2 = 100 then (0 : Byte) else 0xFF) else 0) = 0
  split
  · rw [if_pos (by omega)]
  · rfl

theorem emptyIndexRoot (slot : Nat) : (treeOf bootBlockGeometry emptyIndex).nodeAt slot [] =
    if slot = 1 then 101 else if slot = 12 then 100 else 0 := by
  show (Inode.setIBlock (Inode.setIBlock Buf.zero 12 100) 1 101).iBlock slot = _
  rw [iBlockSet _ (by decide), iBlockSet _ (by decide),
    show Inode.iBlock Buf.zero slot = 0 from Buf.getU32Zero _]

theorem emptyIndexBelow {slot i : Nat} {up : List Nat} (pos : Pos bootBlockGeometry slot (i :: up)) :
    (treeOf bootBlockGeometry emptyIndex).nodeAt slot (i :: up) = 0 := by
  induction up generalizing i with
  | nil =>
    rw [PtrTree.nodeAt, emptyIndexRoot]
    have deep : slot ≠ 1 := by
      rintro rfl
      exact absurd pos.2.1 (Nat.not_succ_le_zero 0)
    rw [if_neg deep]
    by_cases index : slot = 12
    · rw [if_pos index, if_neg (by decide)]
      show (blockAt bootBlockGeometry emptyIndexFs.dev 100).getU32 (4 * i) = 0
      rw [emptyIndexBlock, Buf.getU32Zero]
    · rw [if_neg index, if_pos rfl]
  | cons j rest ih => exact PtrTree.nodeBelow (ih (posUp _ _ _ pos)) i

theorem emptyIndexNode {slot : Nat} {path : List Nat} (pos : Pos bootBlockGeometry slot path)
    (present : (treeOf bootBlockGeometry emptyIndex).nodeAt slot path ≠ 0) :
    path = [] ∧ (slot = 1 ∧ (treeOf bootBlockGeometry emptyIndex).nodeAt slot path = 101 ∨
      slot = 12 ∧ (treeOf bootBlockGeometry emptyIndex).nodeAt slot path = 100) := by
  cases path with
  | nil =>
    rw [emptyIndexRoot] at present ⊢
    refine ⟨rfl, ?_⟩
    split at present
    · next one => exact .inl ⟨one, if_pos one⟩
    · next other =>
      split at present
      · next index => exact .inr ⟨index, by rw [if_neg other, if_pos index]⟩
      · exact absurd rfl present
  | cons i up => exact absurd (emptyIndexBelow pos) present

theorem emptyIndexSane : Sane bootBlockGeometry emptyIndex where
  coherent := by
    refine ⟨noneShortNil, ?_, ?_⟩
    · intro group resident
      cases resident
      exact ⟨by decide, (bootBlockReal 0).mpr (by decide)⟩
    · intro group kind resident clean o small
      cases resident
      cases kind with
      | block => exact absurd clean (by decide)
      | inode =>
        have sectors : ¬ (4 * 2 + o / 512 = 10 ∨ 4 * 2 + o / 512 = 11 ∨
            (4 * 2 + o / 512) / 2 = 100) := by
          simp only [bootBlockGeometry] at small
          omega
        show (0xFF : Byte) = if o < 1024 then
          (if 4 * 2 + o / 512 = 10 ∨ 4 * 2 + o / 512 = 11 ∨ (4 * 2 + o / 512) / 2 = 100
            then 0 else 0xFF) else 0
        rw [if_pos (show o < 1024 from small), if_neg sectors]
  reservedUsed := by
    intro b low inside reserved
    have bound : b ≤ 8 := bootBlockReserved low reserved
    have positive : 1 ≤ b := low
    interval_cases b <;> rfl
  distinct slot path slot' path' pos pos' present same := by
    obtain ⟨rfl, ⟨rfl, here⟩ | ⟨rfl, here⟩⟩ := emptyIndexNode pos present
    all_goals
      obtain ⟨rfl, ⟨rfl, there⟩ | ⟨rfl, there⟩⟩ := emptyIndexNode pos' (same ▸ present)
    all_goals first
      | exact ⟨rfl, rfl⟩
      | (rw [here, there] at same; cases same)
  data slot path pos present := by
    have apart {b : Nat} (high : 100 ≤ b) : ¬ bootBlockGeometry.Metadata b := by
      rintro (system | ⟨ino, _, known, table⟩)
      · have := (bootBlockSystem system).2
        omega
      · simp only [bootBlockGeometry, Geometry.inodeBlock, Geometry.inodeGroup,
          Geometry.inodeIndex, u32] at known table
        omega
    obtain ⟨_, ⟨_, node⟩ | ⟨_, node⟩⟩ := emptyIndexNode pos present
    · rw [node]
      exact ⟨by decide, by decide, apart (by decide), rfl⟩
    · rw [node]
      exact ⟨by decide, by decide, apart (by decide), rfl⟩

end Scepter.Ext2
