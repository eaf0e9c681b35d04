import Scepter.Fs.Minix3.Dirs
import Scepter.Lib.Prog
import Scepter.Lib.PtrTree

/-! The zones of a minix3 file (minix3_bmap of inode.c, minix3_alloc_file_block of file.c).
A zone on the disk is seen as the pointers it holds. A transfer moves its zone or is refused,
as `coming` says; what is not in it works. -/
namespace Scepter.Minix3.ZoneTree

open Prog

structure Geometry where
  blockSize : Nat
  sized : blockSize = 1024 ∨ blockSize = 4096
  -- bits in the zone bitmap
  bits : Nat
  sZones : Nat
  dataZoneStart : Nat
  metadata : 0 < dataZoneStart

structure State where
  -- i_zone of the inode in memory
  iZone : Nat → Nat
  zmap : Nat → Bool
  disk : Nat → Nat → Nat
  coming : List Bool

variable (geo : Geometry)

def Geometry.ptrs : Nat := geo.blockSize / 4

def noPointers : Nat → Nat := fun _ => 0

def moves (s : State) : Bool := s.coming.headD true

def readZone (zone : Nat) : Prog State (Nat → Nat) := fun s =>
  (if moves s then some (s.disk zone) else none, {s with coming := s.coming.tail})

def writeZone (zone : Nat) (zones : Nat → Nat) : Prog State Unit := fun s =>
  if moves s then
    (some (), {s with disk := Function.update s.disk zone zones, coming := s.coming.tail})
  else (none, {s with coming := s.coming.tail})

def clearBit (s : State) : Option Nat := (List.range geo.bits).find? fun bit => !s.zmap bit

def minix3AllocZone : Prog State Nat := fun s =>
  match clearBit geo s with
  | some bit =>
    if geo.sZones ≤ bit then (none, s)
    else (some (bit + geo.dataZoneStart), {s with zmap := Function.update s.zmap bit true})
  | none => (none, s)

def setZone (k zone : Nat) : Prog State Unit :=
  modify fun s => {s with iZone := Function.update s.iZone k zone}

/-! ## Lookup -/

def minix3Bmap (fileBlock : Nat) : Prog State Nat := do
  let s ← get
  if fileBlock < DIRECT_ZONES then pure (s.iZone fileBlock)
  else
    let fileBlock := fileBlock - DIRECT_ZONES
    if fileBlock < geo.ptrs then
      if s.iZone 7 = 0 then pure 0
      else do
        let zones ← readZone (s.iZone 7)
        pure (zones fileBlock)
    else
      let fileBlock := fileBlock - geo.ptrs
      if fileBlock < geo.ptrs * geo.ptrs then
        if s.iZone 8 = 0 then pure 0
        else do
          let zones1 ← readZone (s.iZone 8)
          let ind2Zone := zones1 (fileBlock / geo.ptrs)
          if ind2Zone = 0 then pure 0
          else do
            let zones2 ← readZone ind2Zone
            pure (zones2 (fileBlock % geo.ptrs))
      else fail

/-! ## Allocation -/

def directZone (k : Nat) : Prog State Nat := do
  let s ← get
  if s.iZone k = 0 then do
    let newZone ← minix3AllocZone geo
    setZone k newZone
    pure newZone
  else pure (s.iZone k)

def indexZone (k : Nat) : Prog State Nat := do
  let s ← get
  if s.iZone k = 0 then do
    let newZone ← minix3AllocZone geo
    setZone k newZone
    let _ ← attempt (writeZone newZone noPointers)
    pure newZone
  else pure (s.iZone k)

def indexEntry (zone index : Nat) : Prog State Nat := do
  let zones ← readZone zone
  if zones index = 0 then do
    let newZone ← minix3AllocZone geo
    writeZone zone (Function.update zones index newZone)
    let _ ← attempt (writeZone newZone noPointers)
    pure newZone
  else pure (zones index)

def dataEntry (zone index : Nat) : Prog State Nat := do
  let zones ← readZone zone
  if zones index = 0 then do
    let newZone ← minix3AllocZone geo
    writeZone zone (Function.update zones index newZone)
    pure newZone
  else pure (zones index)

def minix3AllocFileBlock (fileBlock : Nat) : Prog State Nat :=
  if fileBlock < DIRECT_ZONES then directZone geo fileBlock
  else
    let fileBlock := fileBlock - DIRECT_ZONES
    if fileBlock < geo.ptrs then do
      let ind ← indexZone geo 7
      dataEntry geo ind fileBlock
    else
      let fileBlock := fileBlock - geo.ptrs
      if fileBlock < geo.ptrs * geo.ptrs then do
        let ind1 ← indexZone geo 8
        let ind2 ← indexEntry geo ind1 (fileBlock / geo.ptrs)
        dataEntry geo ind2 (fileBlock % geo.ptrs)
      else fail

/-! ## The tree -/

def treeOf (s : State) : PtrTree := ⟨s.iZone, s.disk⟩

def Pos (slot : Nat) (path : List Nat) : Prop :=
  slot ≤ 8 ∧ path.length ≤ slot - 6 ∧ ∀ i ∈ path, i < geo.ptrs

structure Sane (s : State) : Prop where
  distinct : PtrTree.Distinct (Pos geo) (treeOf s)
  used : ∀ slot path, Pos geo slot path → (treeOf s).nodeAt slot path ≠ 0 →
    geo.dataZoneStart ≤ (treeOf s).nodeAt slot path ∧
      s.zmap ((treeOf s).nodeAt slot path - geo.dataZoneStart) = true

def position (fileBlock : Nat) : Option (Nat × List Nat) :=
  if fileBlock < DIRECT_ZONES then some (fileBlock, [])
  else if fileBlock - DIRECT_ZONES < geo.ptrs then some (7, [fileBlock - DIRECT_ZONES])
  else
    let rest := fileBlock - DIRECT_ZONES - geo.ptrs
    if rest < geo.ptrs * geo.ptrs then some (8, [rest % geo.ptrs, rest / geo.ptrs])
    else none

def Maps (s : State) (fileBlock zone : Nat) : Prop :=
  (minix3Bmap geo fileBlock {s with coming := []}).1 = some zone

def outcome (s : State) (n : Nat) : Bool := s.coming.getD n true

def Zeroes (s : State) (fileBlock : Nat) : Prop :=
  match position geo fileBlock with
  | some (7, _) => s.iZone 7 = 0 → outcome s 0
  | some (8, [_, i]) => (s.iZone 8 = 0 → outcome s 0 ∧ outcome s 3) ∧
      (s.iZone 8 ≠ 0 → s.disk (s.iZone 8) i = 0 → outcome s 2)
  | _ => True

variable {geo} {s t m : State} {slot zone f k : Nat} {path up : List Nat}

theorem ptrsPos : 0 < geo.ptrs := by
  unfold Geometry.ptrs
  rcases geo.sized with h | h <;> rw [h] <;> decide

theorem posUp (slot i : Nat) (up : List Nat) (pos : Pos geo slot (i :: up)) : Pos geo slot up :=
  ⟨pos.1, Nat.le_trans (Nat.le_succ _) pos.2.1, fun j member => pos.2.2 j (List.mem_cons_of_mem i member)⟩

theorem positionPos {fileBlock : Nat} (at' : position geo fileBlock = some (slot, path)) :
    Pos geo slot path ∧ path.length = slot - 6 := by
  have positive := @ptrsPos geo
  unfold position DIRECT_ZONES at at'
  unfold Pos
  split at at'
  · cases at'
    exact ⟨⟨by omega, Nat.zero_le _, fun _ member => nomatch member⟩, by rw [List.length_nil]; omega⟩
  · split at at'
    · rename_i single
      cases at'
      exact ⟨⟨by decide, Nat.le_refl 1, by simpa using single⟩, rfl⟩
    · dsimp only at at'
      split at at'
      · rename_i double
        cases at'
        refine ⟨⟨by decide, Nat.le_refl 2, ?_⟩, rfl⟩
        simp [Nat.mod_lt _ positive, Nat.div_lt_of_lt_mul double]
      · cases at'

theorem positionInjective {a b : Nat} {at' : Nat × List Nat} (one : position geo a = some at')
    (two : position geo b = some at') : a = b := by
  unfold position DIRECT_ZONES at one two
  split at one
  · cases one
    split at two
    · cases two
      rfl
    · split at two
      · cases two
      · dsimp only at two
        split at two <;> cases two
  · split at one
    · cases one
      split at two
      · cases two
      · split at two
        · simp only [Option.some.injEq, Prod.mk.injEq, List.cons.injEq, and_true, true_and] at two
          omega
        · dsimp only at two
          split at two <;> cases two
    · dsimp only at one
      split at one
      · cases one
        split at two
        · cases two
        · split at two
          · cases two
          · dsimp only at two
            split at two
            · simp only [Option.some.injEq, Prod.mk.injEq, List.cons.injEq, and_true, true_and] at two
              have whole := Nat.div_add_mod (a - 7 - geo.ptrs) geo.ptrs
              have whole' := Nat.div_add_mod (b - 7 - geo.ptrs) geo.ptrs
              rw [two.1, two.2] at whole'
              omega
            · cases two
      · cases one

theorem readMoves (zone : Nat) (s : State) : (readZone zone {s with coming := []}) =
    (some (s.disk zone), {s with coming := []}) := rfl

theorem bmapNode (fileBlock : Nat) (s : State) :
    (minix3Bmap geo fileBlock {s with coming := []}).1 =
      (position geo fileBlock).map fun at' => (treeOf s).nodeAt at'.1 at'.2 := by
  unfold minix3Bmap position
  rw [getBind]
  dsimp only
  split
  · rfl
  · split
    · split
      · rename_i absent
        simp [PtrTree.nodeAt, treeOf, absent]
      · rename_i there
        rw [bindOf (readMoves _ s)]
        simp [PtrTree.nodeAt, treeOf, there]
    · split
      · split
        · rename_i absent
          simp [PtrTree.nodeAt, treeOf, absent]
        · rename_i there
          rw [bindOf (readMoves _ s)]
          by_cases absent : s.disk (s.iZone 8) ((fileBlock - DIRECT_ZONES - geo.ptrs) / geo.ptrs) = 0
          · rw [if_pos absent]
            simp [PtrTree.nodeAt, treeOf, there, absent]
          · rw [if_neg absent, bindOf (readMoves _ s)]
            simp [PtrTree.nodeAt, treeOf, there, absent]
      · rfl

theorem mapsIff {fileBlock v : Nat} : Maps geo s fileBlock v ↔
    ∃ slot path, position geo fileBlock = some (slot, path) ∧ (treeOf s).nodeAt slot path = v := by
  unfold Maps
  rw [bmapNode]
  constructor
  · intro maps
    obtain ⟨⟨slot, path⟩, at', node⟩ := Option.map_eq_some_iff.mp maps
    exact ⟨slot, path, at', node⟩
  · rintro ⟨slot, path, at', node⟩
    rw [at', Option.map_some, node]

/-! ## What one allocation does -/

theorem allocCases (took : minix3AllocZone geo s = (some f, t)) :
    ∃ bit, f = bit + geo.dataZoneStart ∧ s.zmap bit = false ∧
      t = {s with zmap := Function.update s.zmap bit true} := by
  unfold minix3AllocZone at took
  split at took
  · rename_i bit found
    split at took
    · cases took
    · cases took
      have clear := List.find?_some found
      exact ⟨bit, rfl, by simpa using clear, rfl⟩
  · cases took

theorem freshZone (sane : Sane geo s) {bit : Nat} (clear : s.zmap bit = false) (slot : Nat)
    (path : List Nat) (pos : Pos geo slot path) :
    (treeOf s).nodeAt slot path ≠ bit + geo.dataZoneStart := by
  intro same
  have metadata := geo.metadata
  have marked := (sane.used slot path pos (by omega)).2
  rw [same, Nat.add_sub_cancel, clear] at marked
  cases marked

structure Present (geo : Geometry) (slot : Nat) (path : List Nat) (s t : State) : Prop where
  sane : Sane geo t
  present : (treeOf t).nodeAt slot path ≠ 0
  kept : (treeOf s).nodeAt slot path ≠ 0 →
    (treeOf t).nodeAt slot path = (treeOf s).nodeAt slot path
  others : ∀ slot' path', Pos geo slot' path' → ¬(slot' = slot ∧ path' = path) →
    (treeOf t).nodeAt slot' path' = (treeOf s).nodeAt slot' path'

theorem presentOfHung (sane : Sane geo s) {bit : Nat} (clear : s.zmap bit = false)
    (pos : Pos geo slot path) (zmap : t.zmap = Function.update s.zmap bit true)
    (hung : PtrTree.Hung (Pos geo) (treeOf s) (treeOf t) slot path (bit + geo.dataZoneStart)) :
    Present geo slot path s t ∧ (treeOf t).nodeAt slot path = bit + geo.dataZoneStart := by
  have node {slot' path'} (pos' : Pos geo slot' path') := hung.node posUp pos'
  have here : (treeOf t).nodeAt slot path = bit + geo.dataZoneStart := by
    rw [node pos, if_pos ⟨rfl, rfl⟩]
  refine ⟨⟨⟨hung.distinct posUp (freshZone sane clear) sane.distinct, ?_⟩, ?_,
    fun had => absurd hung.free had, fun slot' path' pos' other => by rw [node pos', if_neg other]⟩, here⟩
  · intro slot' path' pos' there
    rw [node pos'] at there ⊢
    split
    · rw [Nat.add_sub_cancel, zmap, Function.update_self]
      exact ⟨Nat.le_add_left _ _, rfl⟩
    · rename_i other
      rw [if_neg other] at there
      obtain ⟨low, used⟩ := sane.used slot' path' pos' there
      refine ⟨low, ?_⟩
      rw [zmap, Function.update_apply]
      split
      · rfl
      · exact used
  · rw [here]
    exact hung.nonzero

theorem rootHung (sane : Sane geo s) {bit : Nat} (clear : s.zmap bit = false) (absent : s.iZone k = 0)
    (iZone : t.iZone = Function.update s.iZone k (bit + geo.dataZoneStart))
    (kept : ∀ n, n ≠ bit + geo.dataZoneStart → t.disk n = s.disk n)
    (empty : ∀ i, Pos geo k [i] → t.disk (bit + geo.dataZoneStart) i = 0) :
    PtrTree.Hung (Pos geo) (treeOf s) (treeOf t) k [] (bit + geo.dataZoneStart) where
  nonzero := by
    have metadata := geo.metadata
    omega
  free := absent
  empty := empty
  root := by
    intro slot' _
    simp [treeOf, iZone, Function.update_apply]
  entry := by
    intro slot' i up pos there
    have other := kept _ (freshZone sane clear slot' up (posUp _ _ _ pos))
    rw [if_neg (by simp)]
    exact congrFun other i
  above := fun i up h => nomatch h

theorem entryHung (sane : Sane geo s) {bit i : Nat} (clear : s.zmap bit = false)
    (pos : Pos geo slot (i :: up)) (there : (treeOf s).nodeAt slot up ≠ 0)
    (absent : s.disk ((treeOf s).nodeAt slot up) i = 0) (iZone : t.iZone = s.iZone)
    (disk : ∀ n, n ≠ bit + geo.dataZoneStart → t.disk n =
      if n = (treeOf s).nodeAt slot up then Function.update (s.disk n) i (bit + geo.dataZoneStart)
      else s.disk n)
    (empty : ∀ j, Pos geo slot (j :: i :: up) → t.disk (bit + geo.dataZoneStart) j = 0) :
    PtrTree.Hung (Pos geo) (treeOf s) (treeOf t) slot (i :: up) (bit + geo.dataZoneStart) where
  nonzero := by
    have metadata := geo.metadata
    omega
  free := by
    rw [PtrTree.nodeAt, if_neg there]
    exact absent
  empty := empty
  root := by
    intro slot' _
    rw [if_neg (by simp)]
    exact congrFun iZone slot'
  entry := by
    intro slot' j up' pos' there'
    have changed := congrFun (disk _ (freshZone sane clear slot' up' (posUp _ _ _ pos'))) j
    refine Eq.trans changed ?_
    by_cases same : (treeOf s).nodeAt slot' up' = (treeOf s).nodeAt slot up
    · obtain ⟨rfl, rfl⟩ := sane.distinct slot' up' slot up (posUp _ _ _ pos') (posUp _ _ _ pos) there' same
      rw [if_pos rfl, Function.update_apply]
      simp [treeOf]
    · rw [if_neg same, if_neg]
      · rfl
      · rintro ⟨rfl, at'⟩
        cases at'
        exact same rfl
  above := by
    rintro i' up' ⟨⟩
    exact there

theorem presentThere (sane : Sane geo s) (tree : treeOf t = treeOf s) (zmap : t.zmap = s.zmap)
    (there : (treeOf s).nodeAt slot path ≠ 0) : Present geo slot path s t := by
  refine ⟨⟨tree ▸ sane.distinct, ?_⟩, tree ▸ there, fun _ => by rw [tree], fun _ _ _ _ => by rw [tree]⟩
  rw [tree, zmap]
  exact sane.used

/-! ## The steps of an allocation -/

theorem readCases {zones : Nat → Nat} (ran : readZone zone s = (some zones, t)) :
    zones = s.disk zone ∧ t = {s with coming := s.coming.tail} := by
  unfold readZone at ran
  split at ran
  · cases ran
    exact ⟨rfl, rfl⟩
  · cases ran

theorem writeCases {zones : Nat → Nat} (ran : writeZone zone zones s = (some (), t)) :
    t = {s with disk := Function.update s.disk zone zones, coming := s.coming.tail} := by
  unfold writeZone at ran
  split at ran
  · cases ran
    rfl
  · cases ran

theorem writeMoves (moved : moves s) (zone : Nat) (zones : Nat → Nat) : writeZone zone zones s =
    (some (), {s with disk := Function.update s.disk zone zones, coming := s.coming.tail}) := by
  unfold writeZone
  rw [if_pos moved]

theorem zeroCases {z : Nat} (moved : moves s)
    (ran : (attempt (writeZone z noPointers) >>= fun _ => (pure z : Prog State Nat)) s = (some f, t)) :
    f = z ∧ t = {s with disk := Function.update s.disk z noPointers, coming := s.coming.tail} := by
  rw [bindOf (attemptRun _ _), writeMoves moved] at ran
  cases ran
  exact ⟨rfl, rfl⟩

theorem outcomeFirst (s : State) : outcome s 0 = moves s := by
  unfold outcome moves
  cases s.coming <;> rfl

theorem outcomeNext (s : State) (n : Nat) :
    outcome {s with coming := s.coming.tail} n = outcome s (n + 1) := by
  unfold outcome
  dsimp only
  cases s.coming <;> rfl

theorem directPresent (sane : Sane geo s) (low : k < 7) (ran : directZone geo k s = (some f, t)) :
    Present geo k [] s t ∧ f = (treeOf t).nodeAt k [] := by
  have pos : Pos geo k [] := ⟨by omega, Nat.zero_le _, fun _ member => nomatch member⟩
  unfold directZone at ran
  rw [getBind] at ran
  by_cases absent : s.iZone k = 0
  · rw [if_pos absent] at ran
    obtain ⟨z, m, took, ran⟩ := bindSome.mp ran
    obtain ⟨bit, rfl, clear, rfl⟩ := allocCases took
    cases ran
    refine And.imp_right Eq.symm (presentOfHung sane clear pos rfl ?_)
    refine rootHung sane clear absent rfl (fun _ _ => rfl) fun i posBelow => ?_
    have short := posBelow.2.1
    rw [List.length_singleton] at short
    omega
  · rw [if_neg absent] at ran
    cases ran
    exact ⟨presentThere sane rfl rfl absent, rfl⟩

theorem indexPresent (sane : Sane geo s) (high : k ≤ 8) (zeroes : s.iZone k = 0 → outcome s 0)
    (ran : indexZone geo k s = (some f, t)) :
    Present geo k [] s t ∧ f = (treeOf t).nodeAt k [] ∧
      (s.iZone k = 0 → t.coming = s.coming.tail) ∧ (s.iZone k ≠ 0 → t = s) := by
  have pos : Pos geo k [] := ⟨high, Nat.zero_le _, fun _ member => nomatch member⟩
  unfold indexZone at ran
  rw [getBind] at ran
  by_cases absent : s.iZone k = 0
  · rw [if_pos absent] at ran
    obtain ⟨z, m, took, ran⟩ := bindSome.mp ran
    obtain ⟨bit, rfl, clear, rfl⟩ := allocCases took
    have moved := zeroes absent
    rw [outcomeFirst] at moved
    unfold setZone at ran
    rw [modifyBind] at ran
    obtain ⟨rfl, rfl⟩ := zeroCases (by exact moved) ran
    rw [← and_assoc]
    refine ⟨And.imp_right Eq.symm (presentOfHung sane clear pos rfl ?_), fun _ => rfl,
      fun there => absurd absent there⟩
    refine rootHung sane clear absent rfl (fun n other => Function.update_of_ne other _ _) fun i _ => ?_
    dsimp only
    rw [Function.update_self]
    rfl
  · rw [if_neg absent] at ran
    cases ran
    exact ⟨presentThere sane rfl rfl absent, rfl, fun h => absurd h absent, fun _ => rfl⟩

section entries
variable {i : Nat}

theorem presentEntry (sane : Sane geo s) (tree : treeOf t = treeOf s) (zmap : t.zmap = s.zmap)
    (there : (treeOf s).nodeAt slot up ≠ 0)
    (present : s.disk ((treeOf s).nodeAt slot up) i ≠ 0) :
    Present geo slot (i :: up) s t ∧
      s.disk ((treeOf s).nodeAt slot up) i = (treeOf t).nodeAt slot (i :: up) := by
  have node : (treeOf s).nodeAt slot (i :: up) = s.disk ((treeOf s).nodeAt slot up) i := by
    rw [PtrTree.nodeAt, if_neg there]
    rfl
  exact ⟨presentThere sane tree zmap (node ▸ present), by rw [tree, node]⟩

theorem indexEntryPresent (sane : Sane geo s) (pos : Pos geo slot (i :: up))
    (there : (treeOf s).nodeAt slot up ≠ 0)
    (zeroes : s.disk ((treeOf s).nodeAt slot up) i = 0 → outcome s 2)
    (ran : indexEntry geo ((treeOf s).nodeAt slot up) i s = (some f, t)) :
    Present geo slot (i :: up) s t ∧ f = (treeOf t).nodeAt slot (i :: up) := by
  unfold indexEntry at ran
  obtain ⟨zones, m, read, ran⟩ := bindSome.mp ran
  obtain ⟨rfl, rfl⟩ := readCases read
  by_cases absent : s.disk ((treeOf s).nodeAt slot up) i = 0
  · rw [if_pos absent] at ran
    obtain ⟨z, m, took, ran⟩ := bindSome.mp ran
    obtain ⟨bit, rfl, clear, rfl⟩ := allocCases took
    obtain ⟨⟨⟩, m, wrote, ran⟩ := bindSome.mp ran
    cases writeCases wrote
    have moved := zeroes absent
    rw [← outcomeNext, ← outcomeNext, outcomeFirst] at moved
    obtain ⟨rfl, rfl⟩ := zeroCases (by exact moved) ran
    refine And.imp_right Eq.symm (presentOfHung sane clear pos rfl ?_)
    refine entryHung sane clear pos there absent rfl (fun n other => ?_) fun j _ => ?_
    · dsimp only
      rw [Function.update_of_ne other, Function.update_apply]
      split
      · rename_i same
        rw [same]
      · rfl
    · dsimp only
      rw [Function.update_self]
      rfl
  · rw [if_neg absent] at ran
    cases ran
    exact presentEntry sane rfl rfl there absent

theorem dataEntryPresent (sane : Sane geo s) (pos : Pos geo slot (i :: up))
    (leaf : ∀ j, ¬Pos geo slot (j :: i :: up)) (there : (treeOf s).nodeAt slot up ≠ 0)
    (ran : dataEntry geo ((treeOf s).nodeAt slot up) i s = (some f, t)) :
    Present geo slot (i :: up) s t ∧ f = (treeOf t).nodeAt slot (i :: up) := by
  unfold dataEntry at ran
  obtain ⟨zones, m, read, ran⟩ := bindSome.mp ran
  obtain ⟨rfl, rfl⟩ := readCases read
  by_cases absent : s.disk ((treeOf s).nodeAt slot up) i = 0
  · rw [if_pos absent] at ran
    obtain ⟨z, m, took, ran⟩ := bindSome.mp ran
    obtain ⟨bit, rfl, clear, rfl⟩ := allocCases took
    obtain ⟨⟨⟩, m, wrote, ran⟩ := bindSome.mp ran
    cases writeCases wrote
    cases ran
    refine And.imp_right Eq.symm (presentOfHung sane clear pos rfl ?_)
    refine entryHung sane clear pos there absent rfl (fun n _ => ?_)
      fun j posBelow => absurd posBelow (leaf j)
    dsimp only
    rw [Function.update_apply]
    split
    · rename_i same
      rw [same]
    · rfl
  · rw [if_neg absent] at ran
    cases ran
    exact presentEntry sane rfl rfl there absent

end entries

structure Walked (geo : Geometry) (slot : Nat) (path : List Nat) (s t : State) : Prop where
  sane : Sane geo t
  present : (treeOf t).nodeAt slot path ≠ 0
  kept : ∀ slot' path', Pos geo slot' path' → (treeOf s).nodeAt slot' path' ≠ 0 →
    (treeOf t).nodeAt slot' path' = (treeOf s).nodeAt slot' path'
  others : ∀ slot' path', Pos geo slot' path' → ¬(slot' = slot ∧ path' <:+ path) →
    (treeOf t).nodeAt slot' path' = (treeOf s).nodeAt slot' path'

theorem Present.keptAll (made : Present geo slot path s t) {slot' : Nat} {path' : List Nat}
    (pos : Pos geo slot' path') (there : (treeOf s).nodeAt slot' path' ≠ 0) :
    (treeOf t).nodeAt slot' path' = (treeOf s).nodeAt slot' path' := by
  by_cases here : slot' = slot ∧ path' = path
  · obtain ⟨rfl, rfl⟩ := here
    exact made.kept there
  · exact made.others slot' path' pos here

theorem Present.walked (made : Present geo slot [] s t) : Walked geo slot [] s t where
  sane := made.sane
  present := made.present
  kept := fun _ _ pos there => made.keptAll pos there
  others := fun slot' path' pos elsewhere =>
    made.others slot' path' pos fun h => elsewhere ⟨h.1, h.2 ▸ List.suffix_refl _⟩

theorem Walked.next {i : Nat} (walked : Walked geo slot up s m)
    (made : Present geo slot (i :: up) m t) : Walked geo slot (i :: up) s t where
  sane := made.sane
  present := made.present
  kept := by
    intro slot' path' pos there
    have before := walked.kept slot' path' pos there
    rw [made.keptAll pos (before ▸ there), before]
  others := by
    intro slot' path' pos elsewhere
    rw [made.others slot' path' pos fun h => elsewhere ⟨h.1, h.2 ▸ List.suffix_refl _⟩,
      walked.others slot' path' pos fun h => elsewhere ⟨h.1, h.2.trans (List.suffix_cons _ _)⟩]

theorem allocWalks {fileBlock : Nat} (sane : Sane geo s) (zeroes : Zeroes geo s fileBlock)
    (ran : minix3AllocFileBlock geo fileBlock s = (some f, t)) :
    ∃ slot path, position geo fileBlock = some (slot, path) ∧ Walked geo slot path s t ∧
      f = (treeOf t).nodeAt slot path := by
  unfold minix3AllocFileBlock at ran
  unfold Zeroes position at zeroes
  unfold position
  split at ran
  · rename_i low
    obtain ⟨made, here⟩ := directPresent sane low ran
    exact ⟨fileBlock, [], if_pos low, made.walked, here⟩
  · rename_i direct
    rw [if_neg direct] at zeroes ⊢
    dsimp only at ran
    split at ran
    · rename_i single
      rw [if_pos single] at zeroes ⊢
      obtain ⟨ind, m, root, ran⟩ := bindSome.mp ran
      obtain ⟨made, rfl, _⟩ := indexPresent sane (by decide) zeroes root
      have pos : Pos geo 7 [fileBlock - DIRECT_ZONES] :=
        ⟨by decide, Nat.le_refl 1, by simpa using single⟩
      obtain ⟨made', here⟩ := dataEntryPresent made.sane pos
        (fun j below => absurd below.2.1 (by simp)) made.present ran
      exact ⟨7, _, rfl, made.walked.next made', here⟩
    · rename_i notSingle
      rw [if_neg notSingle] at zeroes ⊢
      dsimp only at zeroes ⊢
      split at ran
      · rename_i double
        rw [if_pos double] at zeroes ⊢
        obtain ⟨ind1, m, root, ran⟩ := bindSome.mp ran
        obtain ⟨made, rfl, new, old⟩ :=
          indexPresent sane (by decide) (fun absent => (zeroes.1 absent).1) root
        obtain ⟨ind2, n, middle, ran⟩ := bindSome.mp ran
        have positive := @ptrsPos geo
        have high := Nat.div_lt_of_lt_mul double
        have low := Nat.mod_lt (fileBlock - DIRECT_ZONES - geo.ptrs) positive
        have pos1 : Pos geo 8 [(fileBlock - DIRECT_ZONES - geo.ptrs) / geo.ptrs] :=
          ⟨by decide, Nat.le_succ 1, by simpa using high⟩
        have pos2 : Pos geo 8 [(fileBlock - DIRECT_ZONES - geo.ptrs) % geo.ptrs,
            (fileBlock - DIRECT_ZONES - geo.ptrs) / geo.ptrs] :=
          ⟨by decide, Nat.le_refl 2, by simp [high, low]⟩
        have zeroes' : m.disk ((treeOf m).nodeAt 8 [])
            ((fileBlock - DIRECT_ZONES - geo.ptrs) / geo.ptrs) = 0 → outcome m 2 := by
          intro absent
          by_cases missing : s.iZone 8 = 0
          · have after := (zeroes.1 missing).2
            rw [← outcomeNext] at after
            unfold outcome at after ⊢
            rw [new missing]
            exact after
          · cases old missing
            exact zeroes.2 missing absent
        obtain ⟨made', rfl⟩ := indexEntryPresent made.sane pos1 made.present zeroes' middle
        obtain ⟨made'', here⟩ := dataEntryPresent made'.sane pos2
          (fun j below => absurd below.2.1 (by simp)) made'.present ran
        exact ⟨8, _, rfl, (made.walked.next made').next made'', here⟩
      · cases ran

def smallGeo : Geometry := ⟨1024, .inl rfl, 16, 100, 5, by decide⟩

def emptyFile (coming : List Bool) : State where
  iZone := fun _ => 0
  zmap := fun _ => false
  disk := fun _ _ => 77
  coming := coming

theorem emptyNode (coming : List Bool) (slot : Nat) (path : List Nat) :
    (treeOf (emptyFile coming)).nodeAt slot path = 0 := by
  have root : (treeOf (emptyFile coming)).nodeAt slot [] = 0 := rfl
  have below := PtrTree.nodeAppend root path
  rwa [List.append_nil] at below

theorem emptySane (coming : List Bool) : Sane smallGeo (emptyFile coming) where
  distinct := fun slot path _ _ _ _ there => absurd (emptyNode coming slot path) there
  used := fun slot path _ there => absurd (emptyNode coming slot path) there

end Scepter.Minix3.ZoneTree
