import Scepter.Fs.Minix3.ZoneTree
import Mathlib.Algebra.Group.Nat.Defs

/-! The shrinking of a minix3 file (minix3_truncate_file of file.c), with its sizes of 32
bits and their rounding up to blocks. -/
namespace Scepter.Minix3.ZoneTree

open Prog

def u32 (n : Nat) : Nat := n % 2 ^ 32

section model
variable (geo : Geometry)

def minix3FreeZone (zone : Nat) : Prog State Unit :=
  if zone < geo.dataZoneStart ∨ geo.sZones ≤ zone then pure ()
  else modify fun s => {s with zmap := Function.update s.zmap (zone - geo.dataZoneStart) false}

def blocksOf (size : Nat) : Nat := u32 (size + geo.blockSize - 1) / geo.blockSize

def dblStart : Nat := DIRECT_ZONES + geo.ptrs

def dblEnd : Nat := dblStart geo + geo.ptrs * geo.ptrs

def freeDirect : List Nat → Prog State Unit
  | [] => pure ()
  | i :: rest => do
    let s ← get
    if s.iZone i = 0 then freeDirect rest
    else do
      minix3FreeZone geo (s.iZone i)
      setZone i 0
      freeDirect rest

def clearEntries : List Nat → (Nat → Nat) → Bool → Prog State ((Nat → Nat) × Bool)
  | [], zones, modified => pure (zones, modified)
  | i :: rest, zones, modified =>
    if zones i = 0 then clearEntries rest zones modified
    else do
      minix3FreeZone geo (zones i)
      clearEntries rest (Function.update zones i 0) true

def writeIf (modified : Bool) (zone : Nat) (zones : Nat → Nat) : Prog State Unit :=
  if modified then writeZone zone zones else pure ()

def allZero (zones : Nat → Nat) : Bool := (List.range geo.ptrs).all fun k => zones k = 0

def dropIndex (k : Nat) : Prog State Unit := do
  let s ← get
  minix3FreeZone geo (s.iZone k)
  setZone k 0

def truncateSingle (oldBlocks newBlocks : Nat) : Prog State Unit := do
  let s ← get
  if oldBlocks ≤ DIRECT_ZONES ∨ s.iZone 7 = 0 then pure ()
  else do
    let zones ← readZone (s.iZone 7)
    let start := max newBlocks DIRECT_ZONES
    let cleared ← clearEntries geo
      (List.range' (start - DIRECT_ZONES) (min oldBlocks (dblStart geo) - start)) zones false
    writeIf cleared.2 (s.iZone 7) cleared.1
    if newBlocks ≤ DIRECT_ZONES then dropIndex geo 7 else pure ()

def dropped (newBlocks i : Nat) : List Nat :=
  (List.range geo.ptrs).filter fun k => newBlocks ≤ dblStart geo + i * geo.ptrs + k

def clearTables (newBlocks : Nat) :
    List Nat → (Nat → Nat) → Bool → Prog State ((Nat → Nat) × Bool)
  | [], zones1, modified => pure (zones1, modified)
  | i :: rest, zones1, modified =>
    if zones1 i = 0 then clearTables newBlocks rest zones1 modified
    else do
      let zones2 ← readZone (zones1 i)
      let cleared ← clearEntries geo (dropped geo newBlocks i) zones2 false
      writeIf cleared.2 (zones1 i) cleared.1
      if allZero geo cleared.1 then do
        minix3FreeZone geo (zones1 i)
        clearTables newBlocks rest (Function.update zones1 i 0) true
      else clearTables newBlocks rest zones1 modified

def truncateDouble (oldBlocks newBlocks : Nat) : Prog State Unit := do
  let s ← get
  if s.iZone 8 = 0 ∨ oldBlocks ≤ dblStart geo ∨ dblEnd geo ≤ newBlocks then pure ()
  else do
    let zones1 ← readZone (s.iZone 8)
    let cleared ← clearTables geo newBlocks (List.range geo.ptrs) zones1 false
    if allZero geo cleared.1 then dropIndex geo 8
    else writeIf cleared.2 (s.iZone 8) cleared.1

def minix3TruncateFile (regular : Bool) (oldSize newSize : Nat) : Prog State Nat :=
  if !regular then fail
  else if oldSize ≤ newSize then pure newSize
  else do
    let oldBlocks := blocksOf geo oldSize
    let newBlocks := blocksOf geo newSize
    freeDirect geo (List.range' newBlocks (min oldBlocks DIRECT_ZONES - newBlocks))
    truncateSingle geo oldBlocks newBlocks
    truncateDouble geo oldBlocks newBlocks
    pure newSize

end model

variable {geo : Geometry} {s t m : State}

/-! ## Freed zones -/

def Frees (geo : Geometry) (F : Nat → Prop) (s t : State) : Prop :=
  ∀ bit, t.zmap bit = true ↔ s.zmap bit = true ∧ ¬F (bit + geo.dataZoneStart)

def Real (geo : Geometry) (zone : Nat) : Prop := geo.dataZoneStart ≤ zone ∧ zone < geo.sZones

theorem freesNone {F : Nat → Prop} (same : t.zmap = s.zmap) (none_ : ∀ z, ¬F z) : Frees geo F s t := by
  intro bit
  rw [same]
  simp [none_]

theorem Frees.trans {F G H : Nat → Prop} (one : Frees geo F s m) (two : Frees geo G m t)
    (both : ∀ z, H z ↔ F z ∨ G z) : Frees geo H s t := by
  intro bit
  rw [two, one, both]
  tauto

theorem freeZoneRun {zone : Nat} (real : Real geo zone) (s : State) :
    minix3FreeZone geo zone s = (some (),
      {s with zmap := Function.update s.zmap (zone - geo.dataZoneStart) false}) := by
  unfold minix3FreeZone
  rw [if_neg]
  · rfl
  · have := real
    unfold Real at this
    omega

theorem freeZoneFrees {zone : Nat} (real : Real geo zone)
    (zmap : t.zmap = Function.update s.zmap (zone - geo.dataZoneStart) false) :
    Frees geo (· = zone) s t := by
  intro bit
  have low := real.1
  rw [zmap, Function.update_apply]
  split
  · rename_i same
    have here : bit + geo.dataZoneStart = zone := by omega
    simp [here]
  · rename_i other
    have apart : bit + geo.dataZoneStart ≠ zone := by omega
    simp [apart]

structure SameZones (s t : State) : Prop where
  iZone : t.iZone = s.iZone
  disk : t.disk = s.disk

theorem clearEntriesSpec (list : List Nat) (zones : Nat → Nat) (modified : Bool)
    (nodup : list.Nodup) (real : ∀ i ∈ list, zones i ≠ 0 → Real geo (zones i)) (s : State) :
    ∃ modified' t, clearEntries geo list zones modified s =
        (some (fun i => if i ∈ list then 0 else zones i, modified'), t) ∧
      SameZones s t ∧ t.coming = s.coming ∧
      (modified' = false → modified = false ∧ ∀ i ∈ list, zones i = 0) ∧
      Frees geo (fun z => ∃ i ∈ list, z = zones i ∧ z ≠ 0) s t := by
  induction list generalizing zones modified s with
  | nil =>
    refine ⟨modified, s, ?_, ⟨rfl, rfl⟩, rfl, fun h => ⟨h, fun i member => (nomatch member)⟩,
      freesNone rfl ?_⟩
    · simp [clearEntries]
    · rintro z ⟨i, member, _⟩
      cases member
  | cons i rest ih =>
    obtain ⟨away, nodup'⟩ := List.nodup_cons.mp nodup
    rw [clearEntries]
    by_cases absent : zones i = 0
    · rw [if_pos absent]
      obtain ⟨modified', t, ran, same, coming, unmodified, frees⟩ :=
        ih zones modified nodup' (fun j member => real j (List.mem_cons_of_mem i member)) s
      refine ⟨modified', t, ?_, same, coming, ?_, ?_⟩
      · rw [ran]
        refine congrArg (fun f => (some (f, modified'), t)) (funext fun j => ?_)
        by_cases here : j = i
        · simp [here, absent]
        · simp [here]
      · intro untouched
        obtain ⟨before, zeros⟩ := unmodified untouched
        refine ⟨before, fun j member => ?_⟩
        rcases List.mem_cons.mp member with rfl | later
        · exact absent
        · exact zeros j later
      · intro bit
        rw [frees bit]
        simp [absent]
    · rw [if_neg absent]
      have real' := real i List.mem_cons_self absent
      have others : ∀ j ∈ rest, Function.update zones i 0 j = zones j := fun j member =>
        Function.update_of_ne (by rintro rfl; exact away member) _ _
      obtain ⟨modified', t, ran, same, coming, unmodified, frees⟩ :=
        ih (Function.update zones i 0) true nodup' (fun j member there => by
          rw [others j member] at there ⊢
          exact real j (List.mem_cons_of_mem i member) there)
          {s with zmap := Function.update s.zmap (zones i - geo.dataZoneStart) false}
      refine ⟨modified', t, ?_, ⟨same.iZone, same.disk⟩, coming, ?_, ?_⟩
      · rw [bindOf (freeZoneRun real' s), ran]
        refine congrArg (fun f => (some (f, modified'), t)) (funext fun j => ?_)
        by_cases here : j = i
        · simp [here]
        · simp [here]
      · exact fun untouched => absurd (unmodified untouched).1 (by decide)
      · refine (freeZoneFrees real' rfl).trans frees fun z => ?_
        constructor
        · rintro ⟨j, member, rfl, nonzero⟩
          rcases List.mem_cons.mp member with rfl | later
          · exact .inl rfl
          · exact .inr ⟨j, later, (others j later).symm, nonzero⟩
        · rintro (rfl | ⟨j, later, rfl, nonzero⟩)
          · exact ⟨i, List.mem_cons_self, rfl, absent⟩
          · exact ⟨j, List.mem_cons_of_mem i later, others j later, nonzero⟩

theorem freeDirectSpec (list : List Nat) (nodup : list.Nodup) (s : State)
    (real : ∀ i ∈ list, s.iZone i ≠ 0 → Real geo (s.iZone i)) :
    ∃ t, freeDirect geo list s = (some (), t) ∧ t.disk = s.disk ∧
      (∀ i, t.iZone i = if i ∈ list then 0 else s.iZone i) ∧
      Frees geo (fun z => ∃ i ∈ list, z = s.iZone i ∧ z ≠ 0) s t := by
  induction list generalizing s with
  | nil =>
    refine ⟨s, rfl, rfl, fun i => by simp, freesNone rfl ?_⟩
    rintro z ⟨i, member, _⟩
    cases member
  | cons i rest ih =>
    obtain ⟨away, nodup'⟩ := List.nodup_cons.mp nodup
    rw [freeDirect, getBind]
    by_cases absent : s.iZone i = 0
    · rw [if_pos absent]
      obtain ⟨t, ran, disk, iZone, frees⟩ :=
        ih nodup' s fun j member => real j (List.mem_cons_of_mem i member)
      refine ⟨t, ran, disk, fun j => ?_, fun bit => ?_⟩
      · rw [iZone]
        by_cases here : j = i
        · simp [here, absent]
        · simp [here]
      · rw [frees bit]
        simp [absent]
    · rw [if_neg absent]
      have real' := real i List.mem_cons_self absent
      have others : ∀ j ∈ rest, Function.update s.iZone i 0 j = s.iZone j := fun j member =>
        Function.update_of_ne (by rintro rfl; exact away member) _ _
      obtain ⟨t, ran, disk, iZone, frees⟩ := ih nodup'
        {s with
          iZone := Function.update s.iZone i 0
          zmap := Function.update s.zmap (s.iZone i - geo.dataZoneStart) false}
        (fun j member there => by
          dsimp only at there ⊢
          rw [others j member] at there ⊢
          exact real j (List.mem_cons_of_mem i member) there)
      refine ⟨t, ?_, disk, fun j => ?_, ?_⟩
      · rw [bindOf (freeZoneRun real' s)]
        exact ran
      · rw [iZone]
        dsimp only
        by_cases here : j = i
        · simp [here]
        · simp [here]
      · refine (freeZoneFrees real' rfl).trans frees fun z => ?_
        constructor
        · rintro ⟨j, member, rfl, nonzero⟩
          rcases List.mem_cons.mp member with rfl | later
          · exact .inl rfl
          · exact .inr ⟨j, later, (others j later).symm, nonzero⟩
        · rintro (rfl | ⟨j, later, rfl, nonzero⟩)
          · exact ⟨i, List.mem_cons_self, rfl, absent⟩
          · exact ⟨j, List.mem_cons_of_mem i later, others j later, nonzero⟩

theorem writeIfSpec {modified : Bool} {zone : Nat} {zones : Nat → Nat}
    (ran : writeIf modified zone zones s = (some (), t)) : t.iZone = s.iZone ∧ t.zmap = s.zmap ∧
      t.disk = if modified then Function.update s.disk zone zones else s.disk := by
  unfold writeIf at ran
  split at ran
  · rename_i written
    rw [if_pos written]
    cases writeCases ran
    exact ⟨rfl, rfl, rfl⟩
  · rename_i kept
    rw [if_neg kept]
    cases ran
    exact ⟨rfl, rfl, rfl⟩

theorem dropIndexRun {k : Nat} (real : Real geo (s.iZone k)) : dropIndex geo k s = (some (),
    {s with
      iZone := Function.update s.iZone k 0
      zmap := Function.update s.zmap (s.iZone k - geo.dataZoneStart) false}) := by
  unfold dropIndex
  rw [getBind, bindOf (freeZoneRun real s)]
  rfl

theorem clearedDisk {modified : Bool} {zone : Nat} {list : List Nat} {disk : Nat → Nat → Nat}
    (unmodified : modified = false → ∀ i ∈ list, s.disk zone i = 0)
    (is : disk = if modified then
      Function.update s.disk zone (fun i => if i ∈ list then 0 else s.disk zone i) else s.disk) :
    (∀ i ∈ list, disk zone i = 0) ∧
      ∀ n i, ¬(n = zone ∧ i ∈ list) → disk n i = s.disk n i := by
  rw [is]
  split
  · refine ⟨fun i member => by rw [Function.update_self, if_pos member], fun n i other => ?_⟩
    rw [Function.update_apply]
    by_cases here : n = zone
    · rw [if_pos here, if_neg fun member => other ⟨here, member⟩, here]
    · rw [if_neg here]
  · rename_i kept
    exact ⟨fun i member => unmodified (by simpa using kept) i member, fun _ _ _ => rfl⟩

/-! ## The single-indirect zone -/

def SingleDrops (geo : Geometry) (oldBlocks newBlocks k : Nat) : Prop :=
  newBlocks ≤ DIRECT_ZONES + k ∧ DIRECT_ZONES + k < oldBlocks ∧ k < geo.ptrs

theorem singleRange (oldBlocks newBlocks k : Nat) :
    k ∈ List.range' (max newBlocks DIRECT_ZONES - DIRECT_ZONES)
      (min oldBlocks (dblStart geo) - max newBlocks DIRECT_ZONES) ↔
      SingleDrops geo oldBlocks newBlocks k := by
  unfold SingleDrops dblStart DIRECT_ZONES
  rw [List.mem_range'_1]
  omega

structure Single (geo : Geometry) (oldBlocks newBlocks : Nat) (s t : State) : Prop where
  root : t.iZone 7 = if newBlocks ≤ DIRECT_ZONES ∧ DIRECT_ZONES < oldBlocks then 0 else s.iZone 7
  roots : ∀ k, k ≠ 7 → t.iZone k = s.iZone k
  clears : s.iZone 7 ≠ 0 → ∀ k, SingleDrops geo oldBlocks newBlocks k → t.disk (s.iZone 7) k = 0
  keeps : ∀ n k, ¬(n = s.iZone 7 ∧ s.iZone 7 ≠ 0 ∧ SingleDrops geo oldBlocks newBlocks k) →
    t.disk n k = s.disk n k
  frees : Frees geo (fun z => s.iZone 7 ≠ 0 ∧ z ≠ 0 ∧
    ((∃ k, SingleDrops geo oldBlocks newBlocks k ∧ z = s.disk (s.iZone 7) k) ∨
      (newBlocks ≤ DIRECT_ZONES ∧ DIRECT_ZONES < oldBlocks ∧ z = s.iZone 7))) s t

theorem singleSpec {oldBlocks newBlocks : Nat} (realRoot : s.iZone 7 ≠ 0 → Real geo (s.iZone 7))
    (real : s.iZone 7 ≠ 0 → ∀ k < geo.ptrs, s.disk (s.iZone 7) k ≠ 0 → Real geo (s.disk (s.iZone 7) k))
    (ran : truncateSingle geo oldBlocks newBlocks s = (some (), t)) :
    Single geo oldBlocks newBlocks s t := by
  unfold truncateSingle at ran
  rw [getBind] at ran
  by_cases skipped : oldBlocks ≤ DIRECT_ZONES ∨ s.iZone 7 = 0
  · rw [if_pos skipped] at ran
    cases ran
    have nothing : ∀ k, s.iZone 7 ≠ 0 → ¬SingleDrops geo oldBlocks newBlocks k := by
      rintro k there ⟨_, below, _⟩
      rcases skipped with few | absent
      · omega
      · exact there absent
    refine ⟨?_, fun _ _ => rfl, fun there k drops => absurd drops (nothing k there), fun _ _ _ => rfl,
      freesNone rfl ?_⟩
    · split
      · rename_i both
        rcases skipped with few | absent
        · omega
        · exact absent
      · rfl
    · rintro z ⟨there, _, ⟨k, drops, _⟩ | ⟨_, many, _⟩⟩
      · exact nothing k there drops
      · rcases skipped with few | absent
        · omega
        · exact there absent
  · rw [if_neg skipped] at ran
    rw [not_or] at skipped
    obtain ⟨many, there⟩ := skipped
    rw [Nat.not_le] at many
    obtain ⟨zones, m, read, ran⟩ := bindSome.mp ran
    obtain ⟨rfl, rfl⟩ := readCases read
    obtain ⟨modified, n, cleared, same, _, unmodified, frees⟩ := @clearEntriesSpec geo
      (List.range' (max newBlocks DIRECT_ZONES - DIRECT_ZONES)
        (min oldBlocks (dblStart geo) - max newBlocks DIRECT_ZONES)) (s.disk (s.iZone 7)) false
      List.nodup_range' (fun k member => real there k ((singleRange _ _ _).mp member).2.2)
      {s with coming := s.coming.tail}
    simp only [singleRange] at unmodified frees
    rw [bindOf cleared] at ran
    obtain ⟨⟨⟩, p, wrote, ran⟩ := bindSome.mp ran
    obtain ⟨iZone, zmap, disk⟩ := writeIfSpec wrote
    dsimp only at disk
    rw [same.disk] at disk
    rw [same.iZone] at iZone
    obtain ⟨clears, keeps⟩ := clearedDisk (fun h k member =>
      (unmodified h).2 k ((singleRange _ _ _).mp member)) disk
    simp only [singleRange] at clears keeps
    have freesData : Frees geo (fun z => ∃ k, SingleDrops geo oldBlocks newBlocks k ∧
        z = s.disk (s.iZone 7) k ∧ z ≠ 0) s p := by
      intro bit
      rw [zmap]
      exact frees bit
    by_cases direct : newBlocks ≤ DIRECT_ZONES
    · rw [if_pos direct, dropIndexRun (by rw [iZone]; exact realRoot there)] at ran
      cases ran
      refine ⟨?_, fun k other => ?_, fun _ k drops => ?_, fun n k other => ?_, ?_⟩
      · dsimp only
        rw [Function.update_self, if_pos ⟨direct, many⟩]
      · dsimp only
        rw [Function.update_of_ne other, iZone]
      · exact clears k drops
      · exact keeps n k fun h => other ⟨h.1, there, h.2⟩
      · refine freesData.trans (@freeZoneFrees geo p _ (p.iZone 7)
          (by rw [iZone]; exact realRoot there) rfl) fun z => ?_
        rw [iZone]
        constructor
        · rintro ⟨_, nonzero, ⟨k, drops, is⟩ | ⟨_, _, is⟩⟩
          · exact .inl ⟨k, drops, is, nonzero⟩
          · exact .inr is
        · rintro (⟨k, drops, is, nonzero⟩ | is)
          · exact ⟨there, nonzero, .inl ⟨k, drops, is⟩⟩
          · exact ⟨there, is ▸ there, .inr ⟨direct, many, is⟩⟩
    · rw [if_neg direct] at ran
      cases ran
      refine ⟨?_, fun k _ => congrFun iZone k, fun _ k drops => ?_, fun n k other => ?_, ?_⟩
      · rw [if_neg (fun h => direct h.1), iZone]
      · exact clears k drops
      · exact keeps n k fun h => other ⟨h.1, there, h.2⟩
      · intro bit
        rw [freesData bit]
        refine and_congr_right fun _ => not_congr ⟨?_, ?_⟩
        · rintro ⟨k, drops, is, nonzero⟩
          exact ⟨there, nonzero, .inl ⟨k, drops, is⟩⟩
        · rintro ⟨_, nonzero, ⟨k, drops, is⟩ | ⟨direct', _⟩⟩
          · exact ⟨k, drops, is, nonzero⟩
          · exact absurd direct' direct

/-! ## The zones below the double-indirect zone -/

def TableDrops (geo : Geometry) (newBlocks i k : Nat) : Prop :=
  k < geo.ptrs ∧ newBlocks ≤ dblStart geo + i * geo.ptrs + k

def Gone (geo : Geometry) (newBlocks : Nat) (s : State) (zone i : Nat) : Prop :=
  zone ≠ 0 ∧ ∀ k < geo.ptrs, dblStart geo + i * geo.ptrs + k < newBlocks → s.disk zone k = 0

theorem droppedIff (newBlocks i k : Nat) : k ∈ dropped geo newBlocks i ↔ TableDrops geo newBlocks i k := by
  unfold dropped TableDrops
  simp

theorem allZeroIff (zones : Nat → Nat) : allZero geo zones = true ↔ ∀ k < geo.ptrs, zones k = 0 := by
  unfold allZero
  simp

structure Tables (geo : Geometry) (newBlocks : Nat) (list : List Nat) (zones zones' : Nat → Nat)
    (s t : State) : Prop where
  iZone : t.iZone = s.iZone
  gone : ∀ i ∈ list, Gone geo newBlocks s (zones i) i → zones' i = 0
  kept : ∀ i, ¬(i ∈ list ∧ Gone geo newBlocks s (zones i) i) → zones' i = zones i
  clears : ∀ i ∈ list, zones i ≠ 0 → ∀ k, TableDrops geo newBlocks i k → t.disk (zones i) k = 0
  keeps : ∀ n k, ¬(∃ i ∈ list, zones i ≠ 0 ∧ n = zones i ∧ TableDrops geo newBlocks i k) →
    t.disk n k = s.disk n k
  frees : Frees geo (fun z => ∃ i ∈ list, zones i ≠ 0 ∧ z ≠ 0 ∧
    ((∃ k, TableDrops geo newBlocks i k ∧ z = s.disk (zones i) k) ∨
      (Gone geo newBlocks s (zones i) i ∧ z = zones i))) s t

section tables
variable {newBlocks i : Nat} {rest : List Nat} {zones zonesHere zones' : Nat → Nat}

theorem Tables.skip (absent : zones i = 0) (tail : Tables geo newBlocks rest zones zones' s t) :
    Tables geo newBlocks (i :: rest) zones zones' s t where
  iZone := tail.iZone
  gone := by
    intro j member gone
    rcases List.mem_cons.mp member with rfl | later
    · exact absurd absent gone.1
    · exact tail.gone j later gone
  kept := fun j other => tail.kept j fun h => other ⟨List.mem_cons_of_mem i h.1, h.2⟩
  clears := by
    intro j member there
    rcases List.mem_cons.mp member with rfl | later
    · exact absurd absent there
    · exact tail.clears j later there
  keeps := by
    intro n k other
    refine tail.keeps n k ?_
    rintro ⟨j, later, h⟩
    exact other ⟨j, List.mem_cons_of_mem i later, h⟩
  frees := by
    intro bit
    rw [tail.frees bit]
    refine and_congr_right fun _ => not_congr ⟨?_, ?_⟩
    · rintro ⟨j, later, h⟩
      exact ⟨j, List.mem_cons_of_mem i later, h⟩
    · rintro ⟨j, member, there, h⟩
      rcases List.mem_cons.mp member with rfl | later
      · exact absurd absent there
      · exact ⟨j, later, there, h⟩

theorem Tables.cons (away : i ∉ rest) (there : zones i ≠ 0)
    (apart : ∀ j ∈ rest, zones j ≠ zones i) (iZone : m.iZone = s.iZone)
    (clears : ∀ k, TableDrops geo newBlocks i k → m.disk (zones i) k = 0)
    (keeps : ∀ n k, ¬(n = zones i ∧ TableDrops geo newBlocks i k) → m.disk n k = s.disk n k)
    (frees : Frees geo (fun z => z ≠ 0 ∧
      ((∃ k, TableDrops geo newBlocks i k ∧ z = s.disk (zones i) k) ∨
        (Gone geo newBlocks s (zones i) i ∧ z = zones i))) s m)
    (goneHere : Gone geo newBlocks s (zones i) i → zonesHere i = 0)
    (keptHere : ¬Gone geo newBlocks s (zones i) i → zonesHere i = zones i)
    (others : ∀ j, j ≠ i → zonesHere j = zones j)
    (tail : Tables geo newBlocks rest zonesHere zones' m t) :
    Tables geo newBlocks (i :: rest) zones zones' s t := by
  have other : ∀ j ∈ rest, j ≠ i := by
    rintro j member rfl
    exact away member
  have same : ∀ j ∈ rest, ∀ k, m.disk (zones j) k = s.disk (zones j) k :=
    fun j member k => keeps _ k fun h => apart j member h.1
  have goneSame : ∀ j ∈ rest, Gone geo newBlocks m (zonesHere j) j ↔ Gone geo newBlocks s (zones j) j := by
    intro j member
    unfold Gone
    rw [others j (other j member)]
    simp only [same j member]
  have hereAfter : zones' i = zonesHere i := tail.kept i fun h => away h.1
  refine ⟨tail.iZone.trans iZone, ?_, ?_, ?_, ?_, ?_⟩
  · intro j member gone
    rcases List.mem_cons.mp member with rfl | later
    · exact hereAfter.trans (goneHere gone)
    · exact tail.gone j later ((goneSame j later).mpr gone)
  · intro j outside
    by_cases here : j = i
    · subst here
      exact hereAfter.trans (keptHere fun gone => outside ⟨List.mem_cons_self, gone⟩)
    · rw [tail.kept j fun h => outside ⟨List.mem_cons_of_mem i h.1, (goneSame j h.1).mp h.2⟩,
        others j here]
  · intro j member there' k drops
    rcases List.mem_cons.mp member with rfl | later
    · rw [tail.keeps]
      · exact clears k drops
      · rintro ⟨j', later, _, same', _⟩
        rw [others j' (other j' later)] at same'
        exact apart j' later same'.symm
    · have cleared := tail.clears j later
      rw [others j (other j later)] at cleared
      exact cleared there' k drops
  · intro n k outside
    rw [tail.keeps, keeps]
    · rintro ⟨rfl, drops⟩
      exact outside ⟨i, List.mem_cons_self, there, rfl, drops⟩
    · rintro ⟨j, later, there', same', drops⟩
      rw [others j (other j later)] at there' same'
      exact outside ⟨j, List.mem_cons_of_mem i later, there', same', drops⟩
  · refine frees.trans tail.frees fun z => ?_
    constructor
    · rintro ⟨j, member, there', nonzero, h⟩
      rcases List.mem_cons.mp member with rfl | later
      · exact .inl ⟨nonzero, h⟩
      · refine .inr ⟨j, later, ?_, nonzero, ?_⟩
        · rwa [others j (other j later)]
        · rw [goneSame j later, others j (other j later)]
          simpa only [same j later] using h
    · rintro (⟨nonzero, h⟩ | ⟨j, later, there', nonzero, h⟩)
      · exact ⟨i, List.mem_cons_self, there, nonzero, h⟩
      · rw [goneSame j later, others j (other j later)] at h
        rw [others j (other j later)] at there'
        refine ⟨j, List.mem_cons_of_mem i later, there', nonzero, ?_⟩
        simpa only [same j later] using h

theorem tablesSpec (list : List Nat) (nodup : list.Nodup) (zones : Nat → Nat) (modified : Bool)
    (distinct : ∀ i ∈ list, ∀ j ∈ list, zones i ≠ 0 → zones i = zones j → i = j)
    (realZone : ∀ i ∈ list, zones i ≠ 0 → Real geo (zones i)) (s : State)
    (real : ∀ i ∈ list, zones i ≠ 0 → ∀ k < geo.ptrs, s.disk (zones i) k ≠ 0 →
      Real geo (s.disk (zones i) k)) {modified' : Bool}
    (ran : clearTables geo newBlocks list zones modified s = (some (zones', modified'), t)) :
    Tables geo newBlocks list zones zones' s t ∧
      (modified' = false → modified = false ∧ ∀ i, zones' i = zones i) := by
  induction list generalizing zones modified s with
  | nil =>
    cases ran
    refine ⟨⟨rfl, fun i member => (nomatch member), fun _ _ => rfl, fun i member => (nomatch member),
      fun _ _ _ => rfl, freesNone rfl ?_⟩, fun h => ⟨h, fun _ => rfl⟩⟩
    rintro z ⟨i, member, _⟩
    cases member
  | cons i rest ih =>
    obtain ⟨away, nodup'⟩ := List.nodup_cons.mp nodup
    have later {j} (member : j ∈ rest) : j ∈ i :: rest := List.mem_cons_of_mem i member
    have other : ∀ j ∈ rest, j ≠ i := by
      rintro j member rfl
      exact away member
    rw [clearTables] at ran
    by_cases absent : zones i = 0
    · rw [if_pos absent] at ran
      obtain ⟨tables, unmodified⟩ := ih nodup' zones modified
        (fun j member j' member' => distinct j (later member) j' (later member'))
        (fun j member => realZone j (later member)) s
        (fun j member => real j (later member)) ran
      exact ⟨tables.skip absent, unmodified⟩
    · rw [if_neg absent] at ran
      have realHere := realZone i List.mem_cons_self absent
      have apart : ∀ j ∈ rest, zones j ≠ zones i := fun j member same =>
        other j member (distinct i List.mem_cons_self j (later member) absent same.symm).symm
      obtain ⟨zones2, m, read, ran⟩ := bindSome.mp ran
      obtain ⟨rfl, rfl⟩ := readCases read
      obtain ⟨written, n, cleared, same, _, unmodified, frees⟩ := @clearEntriesSpec geo
        (dropped geo newBlocks i) (s.disk (zones i)) false (List.nodup_range.filter _)
        (fun k member => real i List.mem_cons_self absent k ((droppedIff _ _ _).mp member).1)
        {s with coming := s.coming.tail}
      rw [bindOf cleared] at ran
      obtain ⟨⟨⟩, p, wrote, ran⟩ := bindSome.mp ran
      obtain ⟨iZone, zmap, disk⟩ := writeIfSpec wrote
      dsimp only at disk
      rw [same.disk] at disk
      rw [same.iZone] at iZone
      obtain ⟨clears, keeps⟩ := clearedDisk (fun h k member =>
        (unmodified h).2 k member) disk
      simp only [droppedIff] at clears keeps frees
      have freesData : Frees geo (fun z => ∃ k, TableDrops geo newBlocks i k ∧
          z = s.disk (zones i) k ∧ z ≠ 0) s p := by
        intro bit
        rw [zmap]
        exact frees bit
      have sameDisk : ∀ j ∈ rest, ∀ k, p.disk (zones j) k = s.disk (zones j) k :=
        fun j member k => keeps _ k fun h => apart j member h.1
      have gone : allZero geo (fun k => if k ∈ dropped geo newBlocks i then 0 else s.disk (zones i) k) =
          true ↔ Gone geo newBlocks s (zones i) i := by
        rw [allZeroIff]
        unfold Gone
        simp only [droppedIff, TableDrops]
        constructor
        · intro zeros
          refine ⟨absent, fun k below before => ?_⟩
          have zero := zeros k below
          rwa [if_neg (by omega)] at zero
        · rintro ⟨_, zeros⟩ k below
          split
          · rfl
          · exact zeros k below (by omega)
      by_cases empty : allZero geo (fun k => if k ∈ dropped geo newBlocks i then 0 else s.disk (zones i) k)
      · rw [if_pos empty, bindOf (freeZoneRun realHere p)] at ran
        have others : ∀ j, j ≠ i → Function.update zones i 0 j = zones j :=
          fun j differs => Function.update_of_ne differs _ _
        obtain ⟨tables, modified''⟩ := ih nodup' (Function.update zones i 0) true
          (fun j member j' member' => by
            rw [others j (other j member), others j' (other j' member')]
            exact distinct j (later member) j' (later member'))
          (fun j member => by
            rw [others j (other j member)]
            exact realZone j (later member)) _
          (fun j member => by
            rw [others j (other j member)]
            dsimp only
            simp only [sameDisk j member]
            exact real j (later member)) ran
        refine ⟨Tables.cons away absent apart ?_ (by exact clears) (by exact keeps) ?_
          (fun _ => Function.update_self _ _ _) (fun not => absurd (gone.mp empty) not) others tables, fun untouched => ?_⟩
        · exact iZone
        · refine freesData.trans (@freeZoneFrees geo p _ (zones i) realHere rfl) fun z => ?_
          constructor
          · rintro ⟨nonzero, ⟨k, drops, is⟩ | ⟨_, is⟩⟩
            · exact .inl ⟨k, drops, is, nonzero⟩
            · exact .inr is
          · rintro (⟨k, drops, is, nonzero⟩ | is)
            · exact ⟨nonzero, .inl ⟨k, drops, is⟩⟩
            · exact ⟨is ▸ absent, .inr ⟨gone.mp empty, is⟩⟩
        · exact absurd (modified'' untouched).1 (by decide)
      · rw [if_neg empty] at ran
        obtain ⟨tables, modified''⟩ := ih nodup' zones modified
          (fun j member j' member' => distinct j (later member) j' (later member'))
          (fun j member => realZone j (later member)) p
          (fun j member => by
            simp only [sameDisk j member]
            exact real j (later member)) ran
        refine ⟨Tables.cons away absent apart iZone clears keeps ?_
          (fun gone' => absurd (gone.mpr gone') empty) (fun _ => rfl) (fun _ _ => rfl) tables, modified''⟩
        intro bit
        rw [freesData bit]
        refine and_congr_right fun _ => not_congr ⟨?_, ?_⟩
        · rintro ⟨k, drops, is, nonzero⟩
          exact ⟨nonzero, .inl ⟨k, drops, is⟩⟩
        · rintro ⟨nonzero, ⟨k, drops, is⟩ | ⟨gone', _⟩⟩
          · exact ⟨k, drops, is, nonzero⟩
          · exact absurd (gone.mpr gone') empty

end tables

/-! ## The double-indirect zone -/

def Active (geo : Geometry) (s : State) (oldBlocks newBlocks : Nat) : Prop :=
  s.iZone 8 ≠ 0 ∧ dblStart geo < oldBlocks ∧ newBlocks < dblEnd geo

def AllGone (geo : Geometry) (newBlocks : Nat) (s : State) : Prop :=
  ∀ i < geo.ptrs, s.disk (s.iZone 8) i = 0 ∨ Gone geo newBlocks s (s.disk (s.iZone 8) i) i

structure Double (geo : Geometry) (oldBlocks newBlocks : Nat) (s t : State) : Prop where
  roots : ∀ k, k ≠ 8 → t.iZone k = s.iZone k
  drops : Active geo s oldBlocks newBlocks → ∀ i < geo.ptrs, ∀ k, TableDrops geo newBlocks i k →
    (treeOf t).nodeAt 8 [k, i] = 0
  keeps : ∀ i < geo.ptrs, ∀ k < geo.ptrs,
    ¬(Active geo s oldBlocks newBlocks ∧ TableDrops geo newBlocks i k) →
    (treeOf t).nodeAt 8 [k, i] = (treeOf s).nodeAt 8 [k, i]
  disk : ∀ n k, (∀ path, Pos geo 8 path → (treeOf s).nodeAt 8 path = n → n = 0) →
    n ≠ 0 → t.disk n k = s.disk n k
  frees : Frees geo (fun z => z ≠ 0 ∧ Active geo s oldBlocks newBlocks ∧
    ((∃ i < geo.ptrs, ∃ k, TableDrops geo newBlocks i k ∧ z = (treeOf s).nodeAt 8 [k, i]) ∨
      (∃ i < geo.ptrs, Gone geo newBlocks s (s.disk (s.iZone 8) i) i ∧ z = (treeOf s).nodeAt 8 [i]) ∨
      (AllGone geo newBlocks s ∧ z = s.iZone 8))) s t

theorem nodeOne (s : State) (there : s.iZone 8 ≠ 0) (i : Nat) :
    (treeOf s).nodeAt 8 [i] = s.disk (s.iZone 8) i := by
  rw [PtrTree.nodeAt, if_neg (by exact there)]
  rfl

theorem nodeTwo (s : State) (there : s.iZone 8 ≠ 0) {i : Nat} (there' : s.disk (s.iZone 8) i ≠ 0)
    (k : Nat) : (treeOf s).nodeAt 8 [k, i] = s.disk (s.disk (s.iZone 8) i) k := by
  rw [PtrTree.nodeAt, nodeOne s there, if_neg there']
  rfl

theorem nodeTwoNone (s : State) {i : Nat} (absent : s.iZone 8 = 0 ∨ s.disk (s.iZone 8) i = 0) (k : Nat) :
    (treeOf s).nodeAt 8 [k, i] = 0 := by
  refine PtrTree.nodeBelow ?_ k
  by_cases root : s.iZone 8 = 0
  · exact PtrTree.nodeBelow (show (treeOf s).nodeAt 8 [] = 0 from root) i
  · rw [nodeOne s root]
    exact absent.resolve_left root

theorem posOne {i : Nat} (below : i < geo.ptrs) : Pos geo 8 [i] :=
  ⟨Nat.le_refl 8, Nat.le_succ 1, by simpa using below⟩

theorem posTwo {i k : Nat} (below : i < geo.ptrs) (below' : k < geo.ptrs) : Pos geo 8 [k, i] :=
  ⟨Nat.le_refl 8, Nat.le_refl 2, by simp [below, below']⟩

theorem posRoot {slot : Nat} (low : slot ≤ 8) : Pos geo slot [] :=
  ⟨low, Nat.zero_le _, fun _ member => nomatch member⟩

theorem doubleSpec {oldBlocks newBlocks : Nat}
    (distinct : ∀ path path', Pos geo 8 path → Pos geo 8 path' → (treeOf s).nodeAt 8 path ≠ 0 →
      (treeOf s).nodeAt 8 path = (treeOf s).nodeAt 8 path' → path = path')
    (real : ∀ path, Pos geo 8 path → (treeOf s).nodeAt 8 path ≠ 0 →
      Real geo ((treeOf s).nodeAt 8 path))
    (ran : truncateDouble geo oldBlocks newBlocks s = (some (), t)) :
    Double geo oldBlocks newBlocks s t := by
  unfold truncateDouble at ran
  rw [getBind] at ran
  by_cases skipped : s.iZone 8 = 0 ∨ oldBlocks ≤ dblStart geo ∨ dblEnd geo ≤ newBlocks
  · rw [if_pos skipped] at ran
    cases ran
    have inactive : ¬Active geo s oldBlocks newBlocks := by
      rintro ⟨there, many, few⟩
      rcases skipped with absent | low | high
      · exact there absent
      · omega
      · omega
    exact ⟨fun _ _ => rfl, fun active => absurd active inactive, fun _ _ _ _ _ => rfl,
      fun _ _ _ _ => rfl, freesNone rfl fun z h => inactive h.2.1⟩
  · rw [if_neg skipped] at ran
    have active : Active geo s oldBlocks newBlocks := by
      unfold Active
      omega
    have there := active.1
    obtain ⟨zones1, m, read, ran⟩ := bindSome.mp ran
    obtain ⟨rfl, rfl⟩ := readCases read
    obtain ⟨⟨zones', modified⟩, n, looped, ran⟩ := bindSome.mp ran
    have one (i : Nat) : (treeOf s).nodeAt 8 [i] = s.disk (s.iZone 8) i := nodeOne s there i
    obtain ⟨tables, unmodified⟩ := tablesSpec (List.range geo.ptrs) List.nodup_range
      (s.disk (s.iZone 8)) false
      (fun i member j member' present same => by
        rw [List.mem_range] at member member'
        rw [← one] at present
        rw [← one, ← one] at same
        exact List.singleton_injective
          (distinct [i] [j] (posOne member) (posOne member') present same))
      (fun i member present => by
        rw [← one] at present ⊢
        exact real [i] (posOne (List.mem_range.mp member)) present) {s with coming := s.coming.tail}
      (fun i member present k below filled => by
        rw [← nodeTwo s there present] at filled ⊢
        exact real [k, i] (posTwo (List.mem_range.mp member) below) filled) looped
    have rootApart : ∀ i < geo.ptrs, s.disk (s.iZone 8) i ≠ 0 → s.disk (s.iZone 8) i ≠ s.iZone 8 := by
      intro i below present same
      rw [← one] at present same
      exact absurd (distinct [i] [] (posOne below) (posRoot (Nat.le_refl 8)) present same) (by simp)
    have zonesAfter : ∀ i < geo.ptrs, (zones' i = 0 ∧ (s.disk (s.iZone 8) i = 0 ∨
        Gone geo newBlocks s (s.disk (s.iZone 8) i) i)) ∨
        (zones' i = s.disk (s.iZone 8) i ∧ s.disk (s.iZone 8) i ≠ 0 ∧
          ¬Gone geo newBlocks s (s.disk (s.iZone 8) i) i) := by
      intro i below
      by_cases gone : Gone geo newBlocks s (s.disk (s.iZone 8) i) i
      · exact .inl ⟨tables.gone i (List.mem_range.mpr below) gone, .inr gone⟩
      · have kept := tables.kept i fun h => gone h.2
        by_cases absent : s.disk (s.iZone 8) i = 0
        · exact .inl ⟨kept.trans absent, .inl absent⟩
        · exact .inr ⟨kept, absent, gone⟩
    have emptyIff : allZero geo zones' = true ↔ AllGone geo newBlocks s := by
      rw [allZeroIff]
      constructor
      · intro zeros i below
        rcases zonesAfter i below with ⟨_, h⟩ | ⟨same, present, _⟩
        · exact h
        · exact absurd (same.symm.trans (zeros i below)) present
      · intro all i below
        rcases zonesAfter i below with ⟨zero, _⟩ | ⟨_, present, gone⟩
        · exact zero
        · rcases all i below with absent | gone'
          · exact absurd absent present
          · exact absurd gone' gone
    have root : s.iZone 8 = (treeOf s).nodeAt 8 [] := rfl
    have rootKept : ∀ k, n.disk (s.iZone 8) k = s.disk (s.iZone 8) k := by
      intro k
      refine tables.keeps _ k ?_
      rintro ⟨i, member, present, same, _⟩
      exact rootApart i (List.mem_range.mp member) present same.symm
    have rowKept : ∀ i < geo.ptrs, s.disk (s.iZone 8) i ≠ 0 → ∀ k, ¬TableDrops geo newBlocks i k →
        n.disk (s.disk (s.iZone 8) i) k = s.disk (s.disk (s.iZone 8) i) k := by
      intro i below present k stays
      refine tables.keeps _ k ?_
      rintro ⟨j, member, _, same, drops⟩
      rw [← one] at present
      rw [← one, ← one] at same
      cases distinct [i] [j] (posOne below) (posOne (List.mem_range.mp member)) present same
      exact stays drops
    have elsewhere : ∀ n' k, (∀ path, Pos geo 8 path → (treeOf s).nodeAt 8 path = n' → n' = 0) →
        n' ≠ 0 → n' ≠ s.iZone 8 ∧ n.disk n' k = s.disk n' k := by
      intro n' k outside nonzero
      refine ⟨fun same => nonzero (outside [] (posRoot (Nat.le_refl 8)) same.symm), ?_⟩
      refine tables.keeps _ k ?_
      rintro ⟨i, member, _, same, _⟩
      exact nonzero (outside [i] (posOne (List.mem_range.mp member)) ((one i).trans same.symm))
    have freesTables : Frees geo (fun z => z ≠ 0 ∧ Active geo s oldBlocks newBlocks ∧
        ((∃ i < geo.ptrs, ∃ k, TableDrops geo newBlocks i k ∧ z = (treeOf s).nodeAt 8 [k, i]) ∨
        (∃ i < geo.ptrs, Gone geo newBlocks s (s.disk (s.iZone 8) i) i ∧
          z = (treeOf s).nodeAt 8 [i]))) s n := by
      intro bit
      rw [tables.frees bit]
      refine and_congr_right fun _ => not_congr ⟨?_, ?_⟩
      · rintro ⟨i, member, present, nonzero, ⟨k, drops, is⟩ | ⟨gone, is⟩⟩
        · exact ⟨nonzero, active, .inl ⟨i, List.mem_range.mp member, k, drops,
            is.trans (nodeTwo s there present k).symm⟩⟩
        · exact ⟨nonzero, active, .inr ⟨i, List.mem_range.mp member, gone, is.trans (one i).symm⟩⟩
      · rintro ⟨nonzero, _, ⟨i, below, k, drops, is⟩ | ⟨i, below, gone, is⟩⟩
        · have present : s.disk (s.iZone 8) i ≠ 0 := by
            intro absent
            rw [nodeTwoNone s (.inr absent)] at is
            exact nonzero is
          exact ⟨i, List.mem_range.mpr below, present, nonzero,
            .inl ⟨k, drops, is.trans (nodeTwo s there present k)⟩⟩
        · exact ⟨i, List.mem_range.mpr below, gone.1, nonzero, .inr ⟨gone, is.trans (one i)⟩⟩
    by_cases empty : allZero geo zones' = true
    · have all := emptyIff.mp empty
      rw [if_pos empty, dropIndexRun (by
        rw [tables.iZone]
        exact real [] (posRoot (Nat.le_refl 8)) there)] at ran
      have after := (congrArg Prod.snd ran).symm
      dsimp only at after
      have noRoot : t.iZone 8 = 0 := by
        rw [after]
        exact Function.update_self 8 0 n.iZone
      have sameDisk : t.disk = n.disk := by rw [after]
      refine ⟨fun k other => ?_, fun _ i _ k _ => nodeTwoNone t (.inl noRoot) k,
        fun i below k below' stays => ?_, fun n' k outside nonzero => ?_, ?_⟩
      · rw [after]
        dsimp only
        rw [Function.update_of_ne other, tables.iZone]
      · rw [nodeTwoNone t (.inl noRoot) k]
        rcases all i below with absent | gone
        · rw [nodeTwoNone s (.inr absent)]
        · rw [nodeTwo s there gone.1]
          refine (gone.2 k below' ?_).symm
          by_contra late
          exact stays ⟨active, below', Nat.le_of_not_lt late⟩
      · rw [sameDisk]
        exact (elsewhere n' k outside nonzero).2
      · refine freesTables.trans (@freeZoneFrees geo n t (n.iZone 8) (by
          rw [tables.iZone]
          exact real [] (posRoot (Nat.le_refl 8)) there) (by rw [after])) fun z => ?_
        rw [tables.iZone]
        constructor
        · rintro ⟨nonzero, _, data | row | ⟨_, is⟩⟩
          · exact .inl ⟨nonzero, active, .inl data⟩
          · exact .inl ⟨nonzero, active, .inr row⟩
          · exact .inr is
        · rintro (⟨nonzero, _, data | row⟩ | is)
          · exact ⟨nonzero, active, .inl data⟩
          · exact ⟨nonzero, active, .inr (.inl row)⟩
          · exact ⟨is ▸ there, active, .inr (.inr ⟨all, is⟩)⟩
    · rw [if_neg empty] at ran
      obtain ⟨iZone, zmap, disk⟩ := writeIfSpec ran
      dsimp only at disk
      rw [tables.iZone] at iZone
      have rootAfter : ∀ i, t.disk (s.iZone 8) i = zones' i := by
        intro i
        rw [disk]
        split
        · rw [Function.update_self]
        · rename_i kept
          rw [rootKept, (unmodified (by simpa using kept)).2]
      have othersAfter : ∀ n' k, n' ≠ s.iZone 8 → t.disk n' k = n.disk n' k := by
        intro n' k other
        rw [disk]
        split
        · rw [Function.update_of_ne other]
        · rfl
      have there' : t.iZone 8 ≠ 0 := by
        rw [iZone]
        exact there
      have rowAfter : ∀ i, t.disk (t.iZone 8) i = zones' i := by
        intro i
        rw [iZone]
        exact rootAfter i
      refine ⟨fun k _ => congrFun iZone k, fun _ i below k drops => ?_, fun i below k below' stays => ?_,
        fun n' k outside nonzero => ?_, ?_⟩
      · rcases zonesAfter i below with ⟨zero, _⟩ | ⟨same, present, _⟩
        · exact nodeTwoNone t (.inr ((rowAfter i).trans zero)) k
        · rw [nodeTwo t there' (by rw [rowAfter, same]; exact present), rowAfter, same,
            othersAfter _ k (rootApart i below present)]
          exact tables.clears i (List.mem_range.mpr below) present k drops
      · have before (late : ¬dblStart geo + i * geo.ptrs + k < newBlocks) : False :=
          stays ⟨active, below', Nat.le_of_not_lt late⟩
        rcases zonesAfter i below with ⟨zero, absent | gone⟩ | ⟨same, present, _⟩
        · rw [nodeTwoNone t (.inr ((rowAfter i).trans zero)), nodeTwoNone s (.inr absent)]
        · rw [nodeTwoNone t (.inr ((rowAfter i).trans zero)), nodeTwo s there gone.1]
          exact (gone.2 k below' (Nat.lt_of_not_le fun late => before (Nat.not_lt_of_le late))).symm
        · rw [nodeTwo t there' (by rw [rowAfter, same]; exact present), nodeTwo s there present,
            rowAfter, same, othersAfter _ k (rootApart i below present)]
          exact rowKept i below present k fun drops => stays ⟨active, drops⟩
      · obtain ⟨apart, kept⟩ := elsewhere n' k outside nonzero
        rw [othersAfter n' k apart, kept]
      · intro bit
        rw [zmap, freesTables bit]
        refine and_congr_right fun _ => not_congr ⟨?_, ?_⟩
        · rintro ⟨nonzero, _, data | row⟩
          · exact ⟨nonzero, active, .inl data⟩
          · exact ⟨nonzero, active, .inr (.inl row)⟩
        · rintro ⟨nonzero, _, data | row | ⟨all, _⟩⟩
          · exact ⟨nonzero, active, .inl data⟩
          · exact ⟨nonzero, active, .inr row⟩
          · exact absurd (emptyIff.mpr all) empty

/-! ## The three parts -/

inductive Dropped (geo : Geometry) (s : State) (oldBlocks newBlocks : Nat) : Nat → List Nat → Prop
  | direct {i : Nat} (low : i < DIRECT_ZONES) (onward : newBlocks ≤ i) (before : i < oldBlocks) :
    Dropped geo s oldBlocks newBlocks i []
  | entry {k : Nat} (drops : SingleDrops geo oldBlocks newBlocks k) :
    Dropped geo s oldBlocks newBlocks 7 [k]
  | single (few : newBlocks ≤ DIRECT_ZONES) (many : DIRECT_ZONES < oldBlocks) :
    Dropped geo s oldBlocks newBlocks 7 []
  | data {i k : Nat} (active : Active geo s oldBlocks newBlocks) (below : i < geo.ptrs)
    (drops : TableDrops geo newBlocks i k) : Dropped geo s oldBlocks newBlocks 8 [k, i]
  | table {i : Nat} (active : Active geo s oldBlocks newBlocks) (below : i < geo.ptrs)
    (gone : Gone geo newBlocks s (s.disk (s.iZone 8) i) i) : Dropped geo s oldBlocks newBlocks 8 [i]
  | double (active : Active geo s oldBlocks newBlocks) (all : AllGone geo newBlocks s) :
    Dropped geo s oldBlocks newBlocks 8 []

structure Shrunk (geo : Geometry) (oldBlocks newBlocks : Nat) (s t : State) : Prop where
  frees : Frees geo (fun z => z ≠ 0 ∧ ∃ slot path, Pos geo slot path ∧
    Dropped geo s oldBlocks newBlocks slot path ∧ z = (treeOf s).nodeAt slot path) s t
  clears : ∀ slot path, Pos geo slot path → path.length = slot - 6 →
    Dropped geo s oldBlocks newBlocks slot path → (treeOf t).nodeAt slot path = 0
  keeps : ∀ slot path, Pos geo slot path → path.length = slot - 6 →
    ¬Dropped geo s oldBlocks newBlocks slot path →
    (treeOf t).nodeAt slot path = (treeOf s).nodeAt slot path ∨
      (slot = 7 ∧ newBlocks ≤ DIRECT_ZONES ∧ DIRECT_ZONES < oldBlocks ∧
        (treeOf t).nodeAt slot path = 0)

def AllReal (geo : Geometry) (s : State) : Prop :=
  ∀ slot path, Pos geo slot path → (treeOf s).nodeAt slot path ≠ 0 →
    Real geo ((treeOf s).nodeAt slot path)

theorem posEntry {k : Nat} (below : k < geo.ptrs) : Pos geo 7 [k] :=
  ⟨by decide, Nat.le_refl 1, by simpa using below⟩

theorem nodeSingle (s : State) (k : Nat) : (treeOf s).nodeAt 7 [k] =
    if s.iZone 7 = 0 then 0 else s.disk (s.iZone 7) k := rfl

section parts
variable {oldBlocks newBlocks : Nat}

theorem directRange (i : Nat) : i ∈ List.range' newBlocks (min oldBlocks DIRECT_ZONES - newBlocks) ↔
    i < DIRECT_ZONES ∧ newBlocks ≤ i ∧ i < oldBlocks := by
  rw [List.mem_range'_1]
  omega

theorem Double.congr {m' : State} (root : m'.iZone 8 = s.iZone 8)
    (same : ∀ path, Pos geo 8 path → (treeOf s).nodeAt 8 path ≠ 0 →
      ∀ k, m'.disk ((treeOf s).nodeAt 8 path) k = s.disk ((treeOf s).nodeAt 8 path) k) :
    (∀ path, Pos geo 8 path → (treeOf m').nodeAt 8 path = (treeOf s).nodeAt 8 path) ∧
      (Active geo m' oldBlocks newBlocks ↔ Active geo s oldBlocks newBlocks) ∧
      (s.iZone 8 ≠ 0 → ∀ i < geo.ptrs, (Gone geo newBlocks m' (m'.disk (m'.iZone 8) i) i ↔
        Gone geo newBlocks s (s.disk (s.iZone 8) i) i)) ∧
      (s.iZone 8 ≠ 0 → (AllGone geo newBlocks m' ↔ AllGone geo newBlocks s)) := by
  have node : ∀ path, Pos geo 8 path → (treeOf m').nodeAt 8 path = (treeOf s).nodeAt 8 path := by
    intro path pos
    have closed : ∀ slot i up, (slot = 8 ∧ Pos geo slot (i :: up)) → slot = 8 ∧ Pos geo slot up :=
      fun slot i up h => ⟨h.1, posUp slot i up h.2⟩
    refine @PtrTree.nodeSame (fun slot path => slot = 8 ∧ Pos geo slot path) _ _ closed ?_ ?_ _ _ ⟨rfl, pos⟩
    · rintro slot ⟨rfl, _⟩
      exact root
    · rintro slot i up ⟨rfl, below⟩ present
      exact same up (posUp 8 i up below) present i
  have gone : s.iZone 8 ≠ 0 → ∀ i < geo.ptrs, (Gone geo newBlocks m' (m'.disk (m'.iZone 8) i) i ↔
      Gone geo newBlocks s (s.disk (s.iZone 8) i) i) := by
    intro there i below
    have entry : m'.disk (m'.iZone 8) i = s.disk (s.iZone 8) i := by
      rw [root]
      exact same [] (posRoot (Nat.le_refl 8)) there i
    rw [entry]
    refine and_congr_right fun present => forall_congr' fun k => ?_
    have at' := same [i] (posOne below) (by rw [nodeOne s there]; exact present) k
    rw [nodeOne s there] at at'
    rw [at']
  refine ⟨node, ?_, gone, fun there => ?_⟩
  · unfold Active
    rw [root]
  · refine forall_congr' fun i => forall_congr' fun below => ?_
    have entry : m'.disk (m'.iZone 8) i = s.disk (s.iZone 8) i := by
      rw [root]
      exact same [] (posRoot (Nat.le_refl 8)) there i
    rw [gone there i below, entry]

theorem shrinkSpec (sane : Sane geo s) (real : AllReal geo s)
    (ran : (do
      freeDirect geo (List.range' newBlocks (min oldBlocks DIRECT_ZONES - newBlocks))
      truncateSingle geo oldBlocks newBlocks
      truncateDouble geo oldBlocks newBlocks : Prog State Unit) s = (some (), t)) :
    Shrunk geo oldBlocks newBlocks s t := by
  obtain ⟨m1, first, disk1, iZone1, frees1⟩ := @freeDirectSpec geo
    (List.range' newBlocks (min oldBlocks DIRECT_ZONES - newBlocks)) List.nodup_range' s
    (fun i member => by
      have low := ((directRange i).mp member).1
      unfold DIRECT_ZONES at low
      exact real i [] (posRoot (by omega)))
  simp only [directRange] at iZone1 frees1
  rw [bindOf first] at ran
  obtain ⟨⟨⟩, m2, second, third⟩ := bindSome.mp ran
  have root7 : m1.iZone 7 = s.iZone 7 := by
    rw [iZone1, if_neg]
    exact fun h => absurd h.1 (by decide)
  have root8 : m1.iZone 8 = s.iZone 8 := by
    rw [iZone1, if_neg]
    exact fun h => absurd h.1 (by decide)
  have single : Single geo oldBlocks newBlocks m1 m2 := singleSpec
    (fun there => by
      rw [root7] at there ⊢
      exact real 7 [] (posRoot (by decide)) there)
    (fun there k below filled => by
      rw [disk1, root7] at filled ⊢
      rw [root7] at there
      have node : (treeOf s).nodeAt 7 [k] = s.disk (s.iZone 7) k := by rw [nodeSingle, if_neg there]
      rw [← node] at filled ⊢
      exact real 7 [k] (posEntry below) filled) second
  have root8' : m2.iZone 8 = s.iZone 8 := (single.roots 8 (by decide)).trans root8
  have apart : ∀ path, Pos geo 8 path → (treeOf s).nodeAt 8 path ≠ 0 →
      (treeOf s).nodeAt 8 path ≠ s.iZone 7 := by
    intro path pos there same
    exact absurd (sane.distinct 8 path 7 [] pos (posRoot (by decide)) there same).1 (by decide)
  have same8 : ∀ path, Pos geo 8 path → (treeOf s).nodeAt 8 path ≠ 0 →
      ∀ k, m2.disk ((treeOf s).nodeAt 8 path) k = s.disk ((treeOf s).nodeAt 8 path) k := by
    intro path pos there k
    rw [single.keeps, disk1]
    rintro ⟨same, _⟩
    exact apart path pos there (same.trans root7)
  obtain ⟨node8, activeSame, goneSame, allSame⟩ :=
    @Double.congr geo s oldBlocks newBlocks m2 root8' same8
  have double : Double geo oldBlocks newBlocks m2 t := doubleSpec
    (fun path path' pos pos' there same => by
      rw [node8 path pos] at there same
      rw [node8 path' pos'] at same
      exact (sane.distinct 8 path 8 path' pos pos' there same).2)
    (fun path pos there => by
      rw [node8 path pos] at there ⊢
      exact real 8 path pos there) third
  have root7' : t.iZone 7 =
      if newBlocks ≤ DIRECT_ZONES ∧ DIRECT_ZONES < oldBlocks then 0 else s.iZone 7 := by
    rw [double.roots 7 (by decide), single.root, root7]
  have disk7 : s.iZone 7 ≠ 0 → ∀ k, t.disk (s.iZone 7) k = m2.disk (s.iZone 7) k := by
    intro there k
    refine double.disk _ k (fun path pos same => ?_) there
    rw [node8 path pos] at same
    by_contra nonzero
    exact apart path pos (by rw [same]; exact nonzero) same
  refine ⟨?_, ?_, ?_⟩
  · refine (frees1.trans single.frees fun _ => Iff.rfl).trans double.frees fun z => ?_
    rw [root7, disk1]
    constructor
    · rintro ⟨nonzero, slot, path, pos, dropped, is⟩
      cases dropped with
      | direct low onward before => exact .inl (.inl ⟨slot, ⟨low, onward, before⟩, is, nonzero⟩)
      | entry drops =>
        rename_i k
        by_cases there : s.iZone 7 = 0
        · rw [nodeSingle, if_pos there] at is
          exact absurd is nonzero
        · rw [nodeSingle, if_neg there] at is
          exact .inl (.inr ⟨there, nonzero, .inl ⟨k, drops, is⟩⟩)
      | single few many => exact .inl (.inr ⟨fun h => nonzero (is.trans h), nonzero, .inr ⟨few, many, is⟩⟩)
      | data active below drops =>
        rename_i i k
        refine .inr ⟨nonzero, activeSame.mpr active, .inl ⟨i, below, k, drops, ?_⟩⟩
        rw [node8 _ (posTwo below drops.1)]
        exact is
      | table active below gone =>
        rename_i i
        refine .inr ⟨nonzero, activeSame.mpr active,
          .inr (.inl ⟨i, below, (goneSame active.1 i below).mpr gone, ?_⟩)⟩
        rw [node8 _ (posOne below)]
        exact is
      | double active all =>
        exact .inr ⟨nonzero, activeSame.mpr active,
          .inr (.inr ⟨(allSame active.1).mpr all, is.trans root8'.symm⟩)⟩
    · rintro ((⟨i, ⟨low, onward, before⟩, is, nonzero⟩ | ⟨there, nonzero, h⟩) | ⟨nonzero, active, h⟩)
      · refine ⟨nonzero, i, [], posRoot ?_, .direct low onward before, is⟩
        unfold DIRECT_ZONES at low
        omega
      · refine ⟨nonzero, 7, ?_⟩
        rcases h with ⟨k, drops, is⟩ | ⟨few, many, is⟩
        · exact ⟨[k], posEntry drops.2.2, .entry drops, by rw [nodeSingle, if_neg there]; exact is⟩
        · exact ⟨[], posRoot (by decide), .single few many, is⟩
      · have active' := activeSame.mp active
        refine ⟨nonzero, 8, ?_⟩
        rcases h with ⟨i, below, k, drops, is⟩ | ⟨i, below, gone, is⟩ | ⟨all, is⟩
        · rw [node8 _ (posTwo below drops.1)] at is
          exact ⟨_, posTwo below drops.1, .data active' below drops, is⟩
        · rw [node8 _ (posOne below)] at is
          exact ⟨_, posOne below, .table active' below ((goneSame active'.1 i below).mp gone), is⟩
        · exact ⟨[], posRoot (Nat.le_refl 8), .double active' ((allSame active'.1).mp all),
            is.trans root8'⟩
  · intro slot path pos full dropped
    cases dropped with
    | direct low onward before =>
      unfold DIRECT_ZONES at low
      show t.iZone slot = 0
      rw [double.roots slot (by omega), single.roots slot (by omega), iZone1, if_pos ⟨low, onward, before⟩]
    | entry drops =>
      rename_i k
      rw [nodeSingle]
      split
      · rfl
      · rename_i kept
        by_cases both : newBlocks ≤ DIRECT_ZONES ∧ DIRECT_ZONES < oldBlocks
        · rw [root7', if_pos both] at kept
          exact absurd rfl kept
        · rw [root7', if_neg both] at kept ⊢
          rw [disk7 kept]
          have cleared := single.clears
          rw [root7] at cleared
          exact cleared kept k drops
    | single _ _ => exact absurd full (by simp)
    | data active below drops => exact double.drops (activeSame.mpr active) _ below _ drops
    | table _ _ _ => exact absurd full (by simp)
    | double _ _ => exact absurd full (by simp)
  · intro slot path pos full stays
    obtain ⟨slotLow, _, small⟩ := pos
    match path, slot with
    | [], slot =>
      have low : slot < DIRECT_ZONES := by
        rw [List.length_nil] at full
        unfold DIRECT_ZONES
        omega
      left
      show t.iZone slot = s.iZone slot
      unfold DIRECT_ZONES at low
      rw [double.roots slot (by omega), single.roots slot (by omega), iZone1, if_neg]
      exact fun h => stays (.direct h.1 h.2.1 h.2.2)
    | [k], slot =>
      have here : slot = 7 := by
        rw [List.length_singleton] at full
        omega
      subst here
      rw [nodeSingle, nodeSingle, root7']
      by_cases both : newBlocks ≤ DIRECT_ZONES ∧ DIRECT_ZONES < oldBlocks
      · rw [if_pos both, if_pos rfl]
        exact .inr ⟨rfl, both.1, both.2, rfl⟩
      · rw [if_neg both]
        left
        split
        · rfl
        · rename_i kept
          rw [disk7 kept, single.keeps, disk1]
          exact fun h => stays (.entry h.2.2)
    | [k, i], slot =>
      have here : slot = 8 := by
        simp only [List.length_cons, List.length_nil] at full
        omega
      subst here
      have below : i < geo.ptrs := small i (by simp)
      have below' : k < geo.ptrs := small k (by simp)
      left
      rw [double.keeps i below k below' fun h => stays (.data (activeSame.mp h.1) below h.2),
        node8 _ (posTwo below below')]
    | _ :: _ :: _ :: _, slot =>
      simp only [List.length_cons] at full
      omega

end parts

/-! ## The claims of a shrinking -/

def newCount (geo : Geometry) (size : Nat) : Nat := (size + geo.blockSize - 1) / geo.blockSize

def IndexPos (geo : Geometry) (slot : Nat) (up : List Nat) : Prop :=
  Pos geo slot up ∧ up.length < slot - 6

/-- The data zones behind the new size are freed, of the index zones only such that map no
block any more, and all of them for the size 0; the blocks before it are mapped as before. -/
structure Truncated (geo : Geometry) (s t : State) (newSize : Nat) : Prop where
  data : ∀ fileBlock z, newCount geo newSize ≤ fileBlock → z ≠ 0 → Maps geo s fileBlock z →
    t.zmap (z - geo.dataZoneStart) = false
  only : ∀ z, Real geo z → s.zmap (z - geo.dataZoneStart) = true →
    t.zmap (z - geo.dataZoneStart) = false →
    (∃ fileBlock, newCount geo newSize ≤ fileBlock ∧ Maps geo s fileBlock z) ∨
      ∃ slot up, IndexPos geo slot up ∧ (treeOf s).nodeAt slot up = z ∧
        ∀ fileBlock path, position geo fileBlock = some (slot, path) → up <:+ path →
          Maps geo t fileBlock 0
  all : newSize = 0 → ∀ slot up, IndexPos geo slot up → (treeOf s).nodeAt slot up ≠ 0 →
    t.zmap ((treeOf s).nodeAt slot up - geo.dataZoneStart) = false
  below : ∀ fileBlock < newCount geo newSize, ∀ v, Maps geo t fileBlock v ↔ Maps geo s fileBlock v

/-- The rounding of the old size does not overflow and, for the size 0, reaches the index
zones that are there; or there is nothing to free. -/
def Fits (geo : Geometry) (s : State) (oldSize newSize : Nat) : Prop :=
  (oldSize + geo.blockSize ≤ 2 ^ 32 ∧ (newSize = 0 →
      (s.iZone 7 ≠ 0 → DIRECT_ZONES * geo.blockSize < oldSize) ∧
      (s.iZone 8 ≠ 0 → dblStart geo * geo.blockSize < oldSize))) ∨
    (2 ^ 32 < oldSize + geo.blockSize ∧
      (∀ fileBlock z, newCount geo newSize ≤ fileBlock → z ≠ 0 → ¬Maps geo s fileBlock z) ∧
      (newSize = 0 → s.iZone 7 = 0 ∧ s.iZone 8 = 0))

theorem roundDown (size bs : Nat) (sizes : bs = 1024 ∨ bs = 4096) (room : size + bs ≤ 2 ^ 32) :
    (size + bs - 1) % 2 ^ 32 / bs = (size + bs - 1) / bs := by
  rcases sizes with rfl | rfl <;> omega

theorem roundBelow (size bs block : Nat) (sizes : bs = 1024 ∨ bs = 4096) :
    block < (size + bs - 1) / bs ↔ block * bs < size := by
  rcases sizes with rfl | rfl <;> omega

theorem roundOver (size bs : Nat) (sizes : bs = 1024 ∨ bs = 4096) (small : size < 2 ^ 32)
    (past : 2 ^ 32 < size + bs) : (size + bs - 1) % 2 ^ 32 / bs = 0 := by
  rcases sizes with rfl | rfl <;> omega

theorem blocksRound {size : Nat} (room : size + geo.blockSize ≤ 2 ^ 32) :
    blocksOf geo size = newCount geo size := roundDown size geo.blockSize geo.sized room

theorem blocksOver {size : Nat} (small : size < 2 ^ 32) (past : 2 ^ 32 < size + geo.blockSize) :
    blocksOf geo size = 0 := roundOver size geo.blockSize geo.sized small past

theorem countBelow (size block : Nat) : block < newCount geo size ↔ block * geo.blockSize < size :=
  roundBelow size geo.blockSize block geo.sized

section final
variable {oldBlocks newBlocks fileBlock slot : Nat} {path : List Nat}

theorem positionCases (at' : position geo fileBlock = some (slot, path)) :
    (slot = fileBlock ∧ path = [] ∧ fileBlock < DIRECT_ZONES) ∨
    (slot = 7 ∧ ∃ k < geo.ptrs, path = [k] ∧ fileBlock = DIRECT_ZONES + k) ∨
    (slot = 8 ∧ ∃ i < geo.ptrs, ∃ k < geo.ptrs, path = [k, i] ∧
      fileBlock = dblStart geo + i * geo.ptrs + k) := by
  have positive := @ptrsPos geo
  unfold position at at'
  split at at'
  · rename_i low
    cases at'
    exact .inl ⟨rfl, rfl, low⟩
  · split at at'
    · rename_i single
      cases at'
      exact .inr (.inl ⟨rfl, _, single, rfl, by omega⟩)
    · dsimp only at at'
      split at at'
      · rename_i double
        cases at'
        refine .inr (.inr ⟨rfl, _, Nat.div_lt_of_lt_mul double, _, Nat.mod_lt _ positive, rfl, ?_⟩)
        have whole := Nat.div_add_mod' (fileBlock - DIRECT_ZONES - geo.ptrs) geo.ptrs
        unfold dblStart
        omega
      · cases at'

theorem fullPosition (pos : Pos geo slot path) (full : path.length = slot - 6) :
    ∃ fileBlock, position geo fileBlock = some (slot, path) := by
  obtain ⟨slotLow, _, small⟩ := pos
  have positive := @ptrsPos geo
  match path, slot with
  | [], slot =>
    refine ⟨slot, if_pos ?_⟩
    rw [List.length_nil] at full
    unfold DIRECT_ZONES
    omega
  | [k], slot =>
    have here : slot = 7 := by
      rw [List.length_singleton] at full
      omega
    subst here
    have below : k < geo.ptrs := small k (by simp)
    refine ⟨DIRECT_ZONES + k, ?_⟩
    unfold position
    rw [if_neg (by omega), Nat.add_sub_cancel_left, if_pos below]
  | [k, i], slot =>
    have here : slot = 8 := by
      simp only [List.length_cons, List.length_nil] at full
      omega
    subst here
    have below : i < geo.ptrs := small i (by simp)
    have below' : k < geo.ptrs := small k (by simp)
    refine ⟨DIRECT_ZONES + (geo.ptrs + (i * geo.ptrs + k)), ?_⟩
    have inside : i * geo.ptrs + k < geo.ptrs * geo.ptrs := by
      have more : (i + 1) * geo.ptrs ≤ geo.ptrs * geo.ptrs := Nat.mul_le_mul_right _ below
      rw [Nat.add_mul, Nat.one_mul] at more
      omega
    unfold position
    rw [if_neg (by omega), Nat.add_sub_cancel_left, if_neg (by omega)]
    dsimp only
    rw [Nat.add_sub_cancel_left, if_pos inside, Nat.add_comm (i * geo.ptrs) k,
      Nat.add_mul_mod_self_right, Nat.mod_eq_of_lt below', Nat.add_mul_div_right _ _ positive,
      Nat.div_eq_of_lt below', Nat.zero_add]
  | _ :: _ :: _ :: _, slot =>
    simp only [List.length_cons] at full
    omega

theorem droppedFrom (at' : position geo fileBlock = some (slot, path))
    (dropped : Dropped geo s oldBlocks newBlocks slot path) : newBlocks ≤ fileBlock := by
  rcases positionCases at' with ⟨rfl, rfl, low⟩ | ⟨rfl, k, _, rfl, rfl⟩ | ⟨rfl, i, _, k, _, rfl, rfl⟩
  · cases dropped with
    | direct _ onward _ => exact onward
    | single _ _ => exact absurd low (by decide)
    | double _ _ => exact absurd low (by decide)
  · cases dropped with
    | entry drops => exact drops.1
  · cases dropped with
    | data _ _ drops => exact drops.2

theorem droppedIf (at' : position geo fileBlock = some (slot, path))
    (there : (treeOf s).nodeAt slot path ≠ 0) (onward : newBlocks ≤ fileBlock)
    (before : fileBlock < oldBlocks) : Dropped geo s oldBlocks newBlocks slot path := by
  rcases positionCases at' with
    ⟨rfl, rfl, low⟩ | ⟨rfl, k, below, rfl, rfl⟩ | ⟨rfl, i, below, k, below', rfl, rfl⟩
  · exact .direct low onward before
  · exact .entry ⟨onward, before, below⟩
  · refine .data ⟨fun absent => there (nodeTwoNone s (.inl absent) k), ?_, ?_⟩ below ⟨below', onward⟩
    · omega
    · have more : (i + 1) * geo.ptrs ≤ geo.ptrs * geo.ptrs := Nat.mul_le_mul_right _ below
      rw [Nat.add_mul, Nat.one_mul] at more
      unfold dblEnd
      omega

theorem droppedSome (dropped : Dropped geo s oldBlocks newBlocks slot path) : 0 < oldBlocks := by
  cases dropped with
  | direct _ _ before => omega
  | entry drops =>
    have := drops.2.1
    omega
  | single _ many => omega
  | data active _ _ =>
    have := active.2.1
    omega
  | table active _ _ =>
    have := active.2.1
    omega
  | double active _ =>
    have := active.2.1
    omega

theorem Shrunk.freed (shrunk : Shrunk geo oldBlocks newBlocks s t) (sane : Sane geo s)
    (pos : Pos geo slot path) (there : (treeOf s).nodeAt slot path ≠ 0) :
    t.zmap ((treeOf s).nodeAt slot path - geo.dataZoneStart) = false ↔
      Dropped geo s oldBlocks newBlocks slot path := by
  obtain ⟨low, used⟩ := sane.used slot path pos there
  have bit := shrunk.frees ((treeOf s).nodeAt slot path - geo.dataZoneStart)
  rw [Nat.sub_add_cancel low] at bit
  constructor
  · intro freed
    by_contra stays
    rw [bit.mpr ⟨used, ?_⟩] at freed
    · cases freed
    · rintro ⟨_, slot', path', pos', dropped, same⟩
      obtain ⟨rfl, rfl⟩ := sane.distinct slot path slot' path' pos pos' there same
      exact stays dropped
  · intro dropped
    by_contra kept
    exact (bit.mp (by simpa using kept)).2 ⟨there, slot, path, pos, dropped, rfl⟩

theorem Shrunk.nodeBefore (shrunk : Shrunk geo oldBlocks newBlocks s t)
    (at' : position geo fileBlock = some (slot, path))
    (before : fileBlock < newBlocks ∨ oldBlocks = 0) :
    (treeOf t).nodeAt slot path = (treeOf s).nodeAt slot path := by
  obtain ⟨pos, full⟩ := positionPos at'
  have stays : ¬Dropped geo s oldBlocks newBlocks slot path := by
    intro dropped
    have onward := droppedFrom at' dropped
    have some := droppedSome dropped
    omega
  rcases shrunk.keeps slot path pos full stays with same | ⟨rfl, few, many, _⟩
  · exact same
  · rcases positionCases at' with ⟨rfl, _, low⟩ | ⟨_, k, _, _, rfl⟩ | ⟨absurd', _⟩
    · exact absurd low (by decide)
    · omega
    · exact absurd absurd' (by decide)

theorem Shrunk.nodeBehind (shrunk : Shrunk geo oldBlocks newBlocks s t)
    (at' : position geo fileBlock = some (slot, path)) (behind : newBlocks ≤ fileBlock)
    (covered : (treeOf s).nodeAt slot path ≠ 0 → fileBlock < oldBlocks) :
    (treeOf t).nodeAt slot path = 0 := by
  obtain ⟨pos, full⟩ := positionPos at'
  by_cases dropped : Dropped geo s oldBlocks newBlocks slot path
  · exact shrunk.clears slot path pos full dropped
  · rcases shrunk.keeps slot path pos full dropped with same | ⟨_, _, _, zero⟩
    · rw [same]
      by_contra there
      exact dropped (droppedIf at' there behind (covered there))
    · exact zero

theorem Shrunk.indexEmpty (shrunk : Shrunk geo oldBlocks newBlocks s t) {up : List Nat}
    (dropped : Dropped geo s oldBlocks newBlocks slot up) (index : up.length < slot - 6)
    (at' : position geo fileBlock = some (slot, path)) (through : up <:+ path)
    (covered : (treeOf s).nodeAt slot path ≠ 0 → fileBlock < oldBlocks) :
    (treeOf t).nodeAt slot path = 0 := by
  by_cases behind : newBlocks ≤ fileBlock
  · exact shrunk.nodeBehind at' behind covered
  · have before := Nat.lt_of_not_le behind
    rw [shrunk.nodeBefore at' (.inl before)]
    cases dropped with
    | direct low _ _ =>
      unfold DIRECT_ZONES at low
      omega
    | entry _ => exact absurd index (by simp)
    | single few _ =>
      rcases positionCases at' with ⟨rfl, _, low⟩ | ⟨_, k, _, _, rfl⟩ | ⟨absurd', _⟩
      · exact absurd low (by decide)
      · omega
      · exact absurd absurd' (by decide)
    | data _ _ _ => exact absurd index (by simp)
    | table active small gone =>
      rename_i i
      rcases positionCases at' with ⟨rfl, _, low⟩ | ⟨absurd', _⟩ | ⟨_, j, _, k, below, rfl, rfl⟩
      · exact absurd low (by decide)
      · exact absurd absurd' (by decide)
      · have same : i = j := by
          have ends := through.getLast (by simp)
          simpa using ends
        subst same
        rw [nodeTwo s active.1 gone.1]
        exact gone.2 k below before
    | double active all =>
      rcases positionCases at' with ⟨rfl, _, low⟩ | ⟨absurd', _⟩ | ⟨_, j, below', k, below, rfl, rfl⟩
      · exact absurd low (by decide)
      · exact absurd absurd' (by decide)
      · rcases all j below' with absent | gone
        · exact nodeTwoNone s (.inr absent) k
        · rw [nodeTwo s active.1 gone.1]
          exact gone.2 k below before

theorem indexCases {up : List Nat} (index : IndexPos geo slot up) :
    (slot = 7 ∧ up = []) ∨ (slot = 8 ∧ (up = [] ∨ ∃ i < geo.ptrs, up = [i])) := by
  obtain ⟨⟨slotLow, _, small⟩, short⟩ := index
  match up with
  | [] =>
    rw [List.length_nil] at short
    have : slot = 7 ∨ slot = 8 := by omega
    rcases this with h | h
    · exact .inl ⟨h, rfl⟩
    · exact .inr ⟨h, .inl rfl⟩
  | [i] =>
    rw [List.length_singleton] at short
    exact .inr ⟨by omega, .inr ⟨i, small i (by simp), rfl⟩⟩
  | _ :: _ :: _ =>
    simp only [List.length_cons] at short
    omega

theorem droppedIndex {up : List Nat} (index : IndexPos geo slot up)
    (there : (treeOf s).nodeAt slot up ≠ 0) : Dropped geo s oldBlocks 0 slot up ↔
      (slot = 7 ∧ DIRECT_ZONES < oldBlocks) ∨ (slot = 8 ∧ dblStart geo < oldBlocks) := by
  have positive := @ptrsPos geo
  have room : 0 < dblEnd geo := by
    unfold dblEnd dblStart
    omega
  rcases indexCases index with ⟨rfl, rfl⟩ | ⟨rfl, rfl | ⟨i, below, rfl⟩⟩
  · constructor
    · intro dropped
      cases dropped with
      | direct low _ _ => exact absurd low (by decide)
      | single _ many => exact .inl ⟨rfl, many⟩
    · rintro (⟨_, many⟩ | ⟨absurd', _⟩)
      · exact .single (Nat.zero_le _) many
      · exact absurd absurd' (by decide)
  · constructor
    · intro dropped
      cases dropped with
      | direct low _ _ => exact absurd low (by decide)
      | double active _ => exact .inr ⟨rfl, active.2.1⟩
    · rintro (⟨absurd', _⟩ | ⟨_, many⟩)
      · exact absurd absurd' (by decide)
      · refine .double ⟨there, many, room⟩ fun i _ => ?_
        by_cases absent : s.disk (s.iZone 8) i = 0
        · exact .inl absent
        · exact .inr ⟨absent, fun k _ before => absurd before (Nat.not_lt_zero _)⟩
  · constructor
    · intro dropped
      cases dropped with
      | table active _ _ => exact .inr ⟨rfl, active.2.1⟩
    · rintro (⟨absurd', _⟩ | ⟨_, many⟩)
      · exact absurd absurd' (by decide)
      · have root : s.iZone 8 ≠ 0 := fun absent =>
          there (PtrTree.nodeBelow (show (treeOf s).nodeAt 8 [] = 0 from absent) i)
        rw [nodeOne s root] at there
        exact .table ⟨root, many, room⟩ below ⟨there, fun k _ before => absurd before (Nat.not_lt_zero _)⟩

end final

theorem mapsSame {fileBlock : Nat}
    (same : ∀ {slot path}, position geo fileBlock = some (slot, path) →
      (treeOf t).nodeAt slot path = (treeOf s).nodeAt slot path) (v : Nat) :
    Maps geo t fileBlock v ↔ Maps geo s fileBlock v := by
  rw [mapsIff, mapsIff]
  constructor
  · rintro ⟨slot, path, at', node⟩
    exact ⟨slot, path, at', (same at').symm.trans node⟩
  · rintro ⟨slot, path, at', node⟩
    exact ⟨slot, path, at', (same at').trans node⟩

theorem Shrunk.isDropped {z : Nat} (shrunk : Shrunk geo oldBlocks newBlocks s t)
    (real : Real geo z) (used : s.zmap (z - geo.dataZoneStart) = true)
    (freed : t.zmap (z - geo.dataZoneStart) = false) : z ≠ 0 ∧ ∃ slot path, Pos geo slot path ∧
      Dropped geo s oldBlocks newBlocks slot path ∧ z = (treeOf s).nodeAt slot path := by
  have bit := shrunk.frees (z - geo.dataZoneStart)
  rw [Nat.sub_add_cancel real.1] at bit
  have isFreed : ¬(t.zmap (z - geo.dataZoneStart) = true) := by simp [freed]
  rw [bit, not_and, not_not] at isFreed
  exact isFreed used

theorem truncateShrinks {regular : Bool} {oldSize newSize size : Nat} (sane : Sane geo s)
    (real : AllReal geo s) (less : newSize < oldSize)
    (ran : minix3TruncateFile geo regular oldSize newSize s = (some size, t)) :
    Shrunk geo (blocksOf geo oldSize) (blocksOf geo newSize) s t := by
  unfold minix3TruncateFile at ran
  split at ran
  · cases ran
  · rw [if_neg (Nat.not_le_of_lt less)] at ran
    obtain ⟨⟨⟩, m1, first, ran⟩ := bindSome.mp ran
    obtain ⟨⟨⟩, m2, second, ran⟩ := bindSome.mp ran
    obtain ⟨⟨⟩, m3, third, ran⟩ := bindSome.mp ran
    cases ran
    refine shrinkSpec sane real ?_
    rw [bindOf first, bindOf second]
    exact third

def oneZone : State where
  iZone := fun k => if k = 0 then 9 else 0
  zmap := fun bit => bit = 4
  disk := fun _ _ => 0
  coming := []

theorem oneZoneNode {slot : Nat} {path : List Nat} (there : (treeOf oneZone).nodeAt slot path ≠ 0) :
    slot = 0 ∧ (treeOf oneZone).nodeAt slot path = 9 ∧ path = [] := by
  induction path with
  | nil =>
    by_cases first : slot = 0
    · subst first
      exact ⟨rfl, rfl, rfl⟩
    · exact absurd (if_neg first) there
  | cons i up _ =>
    refine absurd ?_ there
    rw [PtrTree.nodeAt]
    split <;> rfl

theorem oneZoneSane : Sane smallGeo oneZone where
  distinct := by
    intro slot path slot' path' _ _ there same
    obtain ⟨rfl, _, rfl⟩ := oneZoneNode there
    obtain ⟨rfl, _, rfl⟩ := oneZoneNode (same ▸ there)
    exact ⟨rfl, rfl⟩
  used := by
    intro slot path _ there
    obtain ⟨_, node, _⟩ := oneZoneNode there
    rw [node]
    exact ⟨by decide, rfl⟩

theorem oneZoneReal : AllReal smallGeo oneZone := by
  intro slot path _ there
  obtain ⟨_, node, _⟩ := oneZoneNode there
  rw [node]
  exact ⟨by decide, by decide⟩

theorem oneZoneCovered {oldSize : Nat} (some : 0 < oldSize) (fileBlock z : Nat) (nonzero : z ≠ 0)
    (maps : Maps smallGeo oneZone fileBlock z) : fileBlock * smallGeo.blockSize < oldSize := by
  obtain ⟨slot, path, at', rfl⟩ := mapsIff.mp maps
  obtain ⟨rfl, _, rfl⟩ := oneZoneNode nonzero
  rcases positionCases at' with ⟨rfl, _⟩ | ⟨absurd', _⟩ | ⟨absurd', _⟩
  · rwa [Nat.zero_mul]
  · exact absurd absurd' (by decide)
  · exact absurd absurd' (by decide)

end Scepter.Minix3.ZoneTree
