import Scepter.Mm.CopyUser
import Scepter.Mm.FrameCount

/-! The memory of a child is that of its parent in frames of its own, and nothing that
one of them does afterwards shows in the other. -/
namespace Scepter.CopyUser
open Mm (Arch PAGE_SIZE i386 x86_64)
open Regions (Vma MmStruct pageDown pageUp copyVma)
open UserSpace

/-! ## Frames that are given out -/

structure Extends (fr fr' : Frames) : Prop where
  total : fr'.total = fr.total
  used : ∀ f ∈ fr.used, f ∈ fr'.used

variable {arch : Arch} {fr fr' : Frames} {mmu : Mmu}

theorem extendsRefl (fr : Frames) : Extends fr fr := ⟨rfl, fun _ member => member⟩

theorem extendsTrans {fr'' : Frames} (first : Extends fr fr') (second : Extends fr' fr'') :
    Extends fr fr'' :=
  ⟨second.total.trans first.total, fun f member => second.used f (first.used f member)⟩

theorem extendsHeld (more : Extends fr fr') {frame : Nat} (held : Held fr frame) :
    Held fr' frame := by
  rcases held with outside | taken
  · exact Or.inl (more.total ▸ outside)
  · exact Or.inr (more.used frame taken)

theorem allocExtends {count frame : Nat} (got : fr.alloc count = some (frame, fr')) :
    Extends fr fr' := by
  refine ⟨?_, fun f member => ?_⟩
  · obtain ⟨i, _, same⟩ := Option.map_eq_some_iff.mp got
    cases same
    rfl
  · rw [allocUsed got]
    exact List.mem_append_right _ member

theorem allocFresh {frame : Nat} (got : fr.alloc 1 = some (frame, fr')) :
    ¬ Held fr frame ∧ Held fr' frame := by
  obtain ⟨i, found, same⟩ := Option.map_eq_some_iff.mp got
  cases same
  have free := List.find?_some found
  rw [Bool.and_eq_true, decide_eq_true_eq, List.range'_one, List.all_cons, Bool.and_eq_true,
    decide_eq_true_eq] at free
  refine ⟨fun held => ?_, Or.inr List.mem_cons_self⟩
  rcases held with outside | taken
  · have inside := free.1
    omega
  · exact free.2.1 taken

theorem freshDiffers {frame other : Nat} (fresh : ¬ Held fr frame) (held : Held fr other) :
    other ≠ frame := by
  rintro rfl
  exact fresh held

theorem ensureExtends (ids : List (Nat × Nat)) (mmu : Mmu) (fr : Frames) :
    (ensureTables ids mmu fr).2.1.ptes = mmu.ptes ∧ Extends fr (ensureTables ids mmu fr).2.2 := by
  induction ids generalizing mmu fr with
  | nil => exact ⟨rfl, extendsRefl fr⟩
  | cons id ids ih =>
    obtain ⟨level, index⟩ := id
    unfold ensureTables
    split
    · exact ih mmu fr
    · split <;> rename_i got
      · exact ⟨rfl, extendsRefl fr⟩
      · rename_i frame fr'
        obtain ⟨same, more⟩ := ih {mmu with tables := ⟨level, index, frame⟩ :: mmu.tables} fr'
        exact ⟨same, extendsTrans (allocExtends got) more⟩

theorem copyTableExtends (t : Table) (mmu : Mmu) (fr : Frames) :
    (copyTable arch t mmu fr).2.1.ptes = mmu.ptes ∧ Extends fr (copyTable arch t mmu fr).2.2 := by
  unfold copyTable
  split
  · exact ⟨rfl, extendsRefl fr⟩
  · exact ensureExtends _ mmu fr

theorem mapUserExtends (mmu : Mmu) (fr : Frames) (vaddr frame flags : Nat) :
    let after := archMmMapUser arch mmu fr vaddr frame flags
    Extends fr after.2.2 ∧ ∀ p ∈ after.2.1.ptes, p ∈ mmu.ptes ∨ after.1 = true ∧ p.frame = frame := by
  obtain ⟨same, more⟩ := ensureExtends (tablesTo arch vaddr) mmu fr
  unfold archMmMapUser
  dsimp only
  split
  · exact ⟨extendsRefl fr, fun p member => Or.inl member⟩
  · split <;> rename_i made
    · rw [made] at same more
      exact ⟨more, fun p member => Or.inl (same ▸ member)⟩
    · rw [made] at same more
      refine ⟨more, fun p member => ?_⟩
      rcases List.mem_cons.mp member with rfl | old
      · exact Or.inr ⟨rfl, rfl⟩
      · exact Or.inl (same ▸ List.mem_of_mem_filter old)

theorem allocatePageFresh (mmu : Mmu) (fr : Frames) (vaddr flags : Nat) :
    let after := allocatePage arch mmu fr vaddr flags
    (∀ f, Held fr f → Held after.2.2 f) ∧ ∀ p ∈ after.2.1.ptes, p ∈ mmu.ptes ∨
      ¬ Held fr p.frame ∧ Held after.2.2 p.frame := by
  unfold allocatePage
  dsimp only
  split <;> rename_i got
  · exact ⟨fun _ held => held, fun p member => Or.inl member⟩
  · rename_i frame fr'
    obtain ⟨free, taken⟩ := allocFresh got
    obtain ⟨more, pages⟩ := @mapUserExtends arch mmu fr' vaddr frame flags
    split <;> rename_i mapped <;> rw [mapped] at more pages
    · refine ⟨fun f held => ?_, fun p member => ?_⟩
      · rcases extendsHeld (extendsTrans (allocExtends got) more) held with outside | inUse
        · exact Or.inl outside
        · exact Or.inr ((List.mem_erase_of_ne (freshDiffers free held)).mpr inUse)
      · rcases pages p member with old | ⟨made, _⟩
        · exact Or.inl old
        · cases made
    · refine ⟨fun f held => extendsHeld (extendsTrans (allocExtends got) more) held,
        fun p member => ?_⟩
      rcases pages p member with old | ⟨_, same⟩
      · exact Or.inl old
      · rw [same]
        exact Or.inr ⟨free, extendsHeld more taken⟩

/-! ## The copy -/

structure Copied (start : Memory) (ptes done : List Pte) (child : Mmu) (m : Memory) : Prop where
  more : Extends start.frames m.frames
  kept : ∀ f, Held start.frames f → m.ram f = start.ram f
  fresh : ∀ c ∈ child.ptes, ¬ Held start.frames c.frame ∧ Held m.frames c.frame
  copy : ∀ c ∈ child.ptes, ∃ p ∈ ptes, c.page = p.page ∧ c.flags = p.flags ∧
    m.ram c.frame = start.ram p.frame
  all : ∀ p ∈ done, ∃ c ∈ child.ptes, c.page = p.page

variable {start m m' : Memory} {ptes done : List Pte} {child child' : Mmu}

theorem tablesCopied (copied : Copied start ptes done child m) (same : child'.ptes = child.ptes)
    (more : Extends m.frames fr) : Copied start ptes done child' {m with frames := fr} := by
  obtain ⟨before, kept, fresh, copy, all⟩ := copied
  refine ⟨extendsTrans before more, kept, ?_, ?_, ?_⟩ <;> rw [same]
  · exact fun c member => ⟨(fresh c member).1, extendsHeld more (fresh c member).2⟩
  · exact copy
  · exact all

theorem memSetEntry {p c : Pte} (member : c ∈ (setEntry mmu p).ptes) :
    c = p ∨ c ∈ mmu.ptes ∧ c.page ≠ p.page := by
  rcases List.mem_cons.mp member with rfl | old
  · exact Or.inl rfl
  · obtain ⟨inside, differs⟩ := List.mem_filter.mp old
    exact Or.inr ⟨inside, of_decide_eq_true differs⟩

theorem setEntryMem {p c : Pte} (old : c ∈ mmu.ptes) :
    ∃ d ∈ (setEntry mmu p).ptes, d.page = c.page := by
  by_cases same : c.page = p.page
  · exact ⟨p, List.mem_cons_self, same.symm⟩
  · exact ⟨c, List.mem_cons_of_mem _ (List.mem_filter.mpr ⟨old, decide_eq_true same⟩), rfl⟩

theorem copyPage {p : Pte} {frame : Nat} (copied : Copied start ptes done child m) (mine : p ∈ ptes)
    (held : Held start.frames p.frame) (got : m.frames.alloc 1 = some (frame, fr)) :
    Copied start ptes (p :: done) (setEntry child ⟨p.page, frame, p.flags⟩)
      ⟨fr, Function.update m.ram frame (m.ram p.frame)⟩ := by
  obtain ⟨before, kept, fresh, copy, all⟩ := copied
  obtain ⟨free, taken⟩ := allocFresh got
  have new : ¬ Held start.frames frame := fun old => free (extendsHeld before old)
  refine ⟨extendsTrans before (allocExtends got), fun f old => ?_, fun c member => ?_,
    fun c member => ?_, fun q member => ?_⟩
  · dsimp only
    rw [Function.update_of_ne (freshDiffers new old)]
    exact kept f old
  · rcases memSetEntry member with rfl | ⟨old, _⟩
    · exact ⟨new, taken⟩
    · exact ⟨(fresh c old).1, extendsHeld (allocExtends got) (fresh c old).2⟩
  · rcases memSetEntry member with rfl | ⟨old, _⟩
    · refine ⟨p, mine, rfl, rfl, ?_⟩
      dsimp only
      rw [Function.update_self]
      exact kept p.frame held
    · obtain ⟨q, inside, page, flags, bytes⟩ := copy c old
      refine ⟨q, inside, page, flags, ?_⟩
      dsimp only
      rw [Function.update_of_ne (freshDiffers free (fresh c old).2)]
      exact bytes
  · rcases List.mem_cons.mp member with rfl | earlier
    · exact ⟨_, List.mem_cons_self, rfl⟩
    · obtain ⟨c, inside, same⟩ := all q earlier
      obtain ⟨d, there, page⟩ := @setEntryMem child ⟨p.page, frame, p.flags⟩ c inside
      exact ⟨d, there, page.trans same⟩

theorem copyPagesCopied {pages : List Pte} (copied : Copied start ptes done child m)
    (mine : ∀ p ∈ pages, p ∈ ptes) (held : ∀ p ∈ ptes, Held start.frames p.frame)
    (ran : copyPages arch pages child m = some (child', m')) :
    Copied start ptes (pages.reverse ++ done) child' m' := by
  induction pages generalizing child m done with
  | nil =>
    cases ran
    exact copied
  | cons p pages ih =>
    obtain ⟨same, more⟩ := ensureExtends (tablesTo arch p.page) child m.frames
    unfold copyPages at ran
    split at ran <;> rename_i made
    · cases ran
    · rw [made] at same more
      split at ran <;> rename_i got
      · cases ran
      · have here := mine p List.mem_cons_self
        have next := copyPage (tablesCopied copied same more) here (held p here) got
        rw [List.reverse_cons, List.append_assoc]
        exact ih next (fun q member => mine q (List.mem_cons_of_mem _ member)) ran

theorem copyTablesCopied {tables : List Table} (source : List Pte) (mine : ∀ p ∈ source, p ∈ ptes)
    (copied : Copied start ptes done child m) (held : ∀ p ∈ ptes, Held start.frames p.frame)
    (ran : copyTables arch source tables child m = some (child', m')) :
    ∃ done', Copied start ptes done' child' m' ∧ (∀ p ∈ done, p ∈ done') ∧
      ∀ p ∈ source, (∃ t ∈ tables, t.index = tableIndex arch p.page) → p ∈ done' := by
  induction tables generalizing child m done with
  | nil =>
    cases ran
    exact ⟨done, copied, fun _ member => member, fun _ _ none' => by
      obtain ⟨_, absurd', _⟩ := none'
      cases absurd'⟩
  | cons t tables ih =>
    obtain ⟨same, more⟩ := copyTableExtends t child m.frames
    unfold copyTables at ran
    split at ran <;> rename_i made
    · cases ran
    · rw [made] at same more
      obtain ⟨⟨mid, mid'⟩, copying, rest⟩ := Option.bind_eq_some_iff.mp ran
      have part := copyPagesCopied (tablesCopied copied same more)
        (fun p member => mine p (List.mem_of_mem_filter member)) held copying
      obtain ⟨done', whole, older, others⟩ := ih part rest
      refine ⟨done', whole, fun p member => older p (List.mem_append_right _ member), ?_⟩
      intro p member tabled
      obtain ⟨u, table, index⟩ := tabled
      rcases List.mem_cons.mp table with rfl | later
      · refine older p (List.mem_append_left _ (List.mem_reverse.mpr (List.mem_filter.mpr
          ⟨member, decide_eq_true index.symm⟩)))
      · exact others p member ⟨u, later, index⟩

theorem forkCopied {made : Bool} {parent : Process arch m.frames} {forked : Child × Memory}
    (ok : sysFork arch made m parent = some forked) :
    forked.1.mm = Regions.forkMm arch parent.mm ∧
      Copied m parent.mmu.ptes parent.mmu.ptes forked.1.mmu forked.2 := by
  unfold sysFork at ok
  split at ok
  · cases ok
  · obtain ⟨space, spaced, ok⟩ := Option.bind_eq_some_iff.mp ok
    obtain ⟨⟨child, m'⟩, copying, same⟩ := Option.map_eq_some_iff.mp ok
    cases same
    refine ⟨rfl, ?_⟩
    have fresh : space.mmu.ptes = [] ∧ Extends m.frames space.frames := by
      unfold newSpace at spaced
      dsimp only at spaced
      split at spaced
      · cases spaced
        exact ⟨rfl, rfl, fun _ member => member⟩
      · obtain ⟨⟨frame, fr⟩, got, same⟩ := Option.map_eq_some_iff.mp spaced
        cases same
        obtain ⟨total, used⟩ := allocExtends got
        exact ⟨rfl, total, used⟩
    have begun : Copied m parent.mmu.ptes [] space.mmu {m with frames := space.frames} := by
      refine ⟨fresh.2, fun _ _ => rfl, ?_, ?_, List.forall_mem_nil _⟩ <;> rw [fresh.1] <;>
        exact List.forall_mem_nil _
    have perm : (Keyed.insertAll Pte.page [] parent.mmu.ptes).Perm (parent.mmu.ptes ++ []) :=
      Keyed.insertAllPerm [] parent.mmu.ptes
    rw [List.append_nil] at perm
    obtain ⟨done, copied, _, whole⟩ := copyTablesCopied _ (fun p member => perm.mem_iff.mp member)
      begun parent.held copying
    obtain ⟨more, kept, new, copy, all⟩ := copied
    refine ⟨more, kept, new, copy, fun p member => all p (whole p (perm.mem_iff.mpr member) ?_)⟩
    obtain ⟨t, table, low, index⟩ := parent.tabled p member
    have last : t ∈ parent.mmu.tables.filter (fun t => t.level = 0) ++ [] :=
      List.mem_append_left _ (List.mem_filter.mpr ⟨table, decide_eq_true low⟩)
    exact ⟨t, (Keyed.insertAllPerm [] _).mem_iff.mpr last, index⟩

/-! ## Afterwards -/

structure Apart (s : Pair) : Prop where
  held : ∀ side, ∀ p ∈ (s.mmu side).ptes, Held s.memory.frames p.frame
  apart : ∀ side, ∀ p ∈ (s.mmu side).ptes, ∀ q ∈ (s.mmu side.other).ptes, q.frame ≠ p.frame

theorem otherTwice (side : Side) : side.other.other = side := by cases side <;> rfl

theorem otherDiffers (side : Side) : side.other ≠ side := by cases side <;> nofun

theorem sideCases (side which : Side) : which = side ∨ which = side.other := by
  cases side <;> cases which <;> decide

theorem entryMem {a : Nat} {p : Pte} (found : entry mmu a = some p) : p ∈ mmu.ptes :=
  List.mem_of_find?_eq_some found

theorem storeMmu (s : Pair) (side : Side) (a : Nat) (byte : UInt8) :
    (s.store side a byte).mmu = s.mmu ∧
      (s.store side a byte).memory.frames = s.memory.frames := by
  unfold Pair.store
  split
  · exact ⟨rfl, rfl⟩
  · split <;> exact ⟨rfl, rfl⟩

theorem sideApart {s : Pair} (apart : Apart s) (side : Side) {mmu : Mmu} {m : Memory}
    (keeps : ∀ f, Held s.memory.frames f → Held m.frames f)
    (pages : ∀ p ∈ mmu.ptes, p ∈ (s.mmu side).ptes ∨
      ¬ Held s.memory.frames p.frame ∧ Held m.frames p.frame) :
    Apart ⟨Function.update s.mmu side mmu, m⟩ := by
  have still : ∀ which, ∀ p ∈ (s.mmu which).ptes, Held m.frames p.frame :=
    fun which p member => keeps p.frame (apart.held which p member)
  have differ : ∀ p ∈ mmu.ptes, ∀ q ∈ (s.mmu side.other).ptes, q.frame ≠ p.frame := by
    intro p mine q others
    rcases pages p mine with old | ⟨free, _⟩
    · exact apart.apart side p old q others
    · exact freshDiffers free (apart.held side.other q others)
  constructor
  · intro which p member
    dsimp only at member ⊢
    rcases sideCases side which with rfl | rfl
    · rw [Function.update_self] at member
      rcases pages p member with old | ⟨_, taken⟩
      · exact still which p old
      · exact taken
    · rw [Function.update_of_ne (otherDiffers side)] at member
      exact still side.other p member
  · intro which p member q others
    dsimp only at member others
    rcases sideCases side which with rfl | rfl
    · rw [Function.update_self] at member
      rw [Function.update_of_ne (otherDiffers which)] at others
      exact differ p member q others
    · rw [otherTwice, Function.update_self] at others
      rw [Function.update_of_ne (otherDiffers side)] at member
      exact fun same => differ q others p member same.symm

theorem actApart {s : Pair} (apart : Apart s) (a : Side × Action) : Apart (act arch s a) := by
  obtain ⟨side, a⟩ := a
  cases a with
  | store a byte =>
    obtain ⟨same, frames⟩ := storeMmu s side a byte
    refine ⟨?_, ?_⟩
    · change ∀ which, ∀ p ∈ ((s.store side a byte).mmu which).ptes,
        Held (s.store side a byte).memory.frames p.frame
      rw [same, frames]
      exact apart.held
    · change ∀ which, ∀ p ∈ ((s.store side a byte).mmu which).ptes,
        ∀ q ∈ ((s.store side a byte).mmu which.other).ptes, q.frame ≠ p.frame
      rw [same]
      exact apart.apart
  | fault a flags =>
    obtain ⟨keeps, pages⟩ :=
      @allocatePageFresh arch (s.mmu side) s.memory.frames (pageDown a) flags
    change Apart (s.fault arch side a flags)
    unfold Pair.fault
    split
    · exact apart
    · exact sideApart apart side keeps pages
  | unmap start stop =>
    exact sideApart apart side (fun _ held => held) fun p member =>
      Or.inl (List.mem_of_mem_filter member)

theorem actsApart {s : Pair} (apart : Apart s) (acts : List (Side × Action)) :
    Apart (acts.foldl (act arch) s) := by
  induction acts generalizing s with
  | nil => exact apart
  | cons a acts ih => exact ih (actApart apart a)

theorem storeUnseen {s : Pair} (apart : Apart s) (side : Side) (a : Nat) (byte : UInt8) (b : Nat) :
    (s.store side a byte).reads side.other b = s.reads side.other b := by
  unfold Pair.store
  split
  · rfl
  · rename_i p found
    split
    · unfold Pair.reads
      dsimp only
      cases other : entry (s.mmu side.other) b with
      | none => rfl
      | some q =>
        have differ := apart.apart side p (entryMem found) q (entryMem other)
        rw [Option.map_some, Option.map_some, Function.update_of_ne differ]
    · rfl

theorem forkApart {parent : Process arch m.frames} {forked : Child × Memory}
    (copied : Copied m parent.mmu.ptes parent.mmu.ptes forked.1.mmu forked.2) :
    Apart (afterFork parent.mmu forked) := by
  constructor
  · intro side p member
    cases side with
    | parent => exact extendsHeld copied.more (parent.held p member)
    | child => exact (copied.fresh p member).2
  · intro side p member q others
    cases side with
    | parent => exact (freshDiffers (copied.fresh q others).1 (parent.held p member)).symm
    | child => exact freshDiffers (copied.fresh p member).1 (parent.held q others)

/-! ## The regions -/

theorem plainIff {v : Vma} : Plain arch v ↔ copyVma arch v = v := by
  obtain ⟨start, stop, flags, type, fd, off, shared, base⟩ := v
  unfold Plain copyVma Regions.vmaCreate
  simp only [Vma.mk.injEq, true_and]
  exact ⟨fun ⟨low, high, zero⟩ => ⟨low, high, zero.symm⟩, fun ⟨low, high, zero⟩ =>
    ⟨low, high, zero.symm⟩⟩

theorem copyPlain (built : arch.Built) (v : Vma) : Plain arch (copyVma arch v) := by
  refine ⟨Regions.pageDownAligned (Regions.pageDownDvd _), ?_, rfl⟩
  refine Regions.pageUpAligned ?_ (Regions.pageUpDvd _ _)
  change pageUp arch.wordBits v.vmEnd + (PAGE_SIZE - 1) < 2 ^ arch.wordBits
  have small : (v.vmEnd + (PAGE_SIZE - 1)) % 2 ^ arch.wordBits < 2 ^ arch.wordBits :=
    Nat.mod_lt _ (Nat.two_pow_pos _)
  unfold pageUp pageDown
  rcases Mm.builtWidth built with width | width <;> rw [width] at small ⊢ <;>
    unfold PAGE_SIZE at * <;> omega

theorem forkVmas (built : arch.Built) (mm : MmStruct) :
    (Regions.forkMm arch mm).vmaList = mm.vmaList ↔
      Keyed.Sorted Vma.vmStart mm.vmaList ∧ ∀ v ∈ mm.vmaList, Plain arch v := by
  constructor
  · intro same
    have sorted : Keyed.Sorted Vma.vmStart (Regions.forkMm arch mm).vmaList :=
      Keyed.insertAllSorted List.Pairwise.nil
    rw [same] at sorted
    refine ⟨sorted, fun v member => ?_⟩
    rw [← same] at member
    have copy : v ∈ mm.vmaList.map (copyVma arch) ++ [] :=
      (Keyed.insertAllPerm [] _).mem_iff.mp member
    rw [List.append_nil] at copy
    obtain ⟨old, _, rfl⟩ := List.mem_map.mp copy
    exact copyPlain built old
  · intro ⟨sorted, plain⟩
    have same : mm.vmaList.map (copyVma arch) = mm.vmaList := by
      refine Eq.trans (List.map_congr_left fun v member => ?_) (List.map_id _)
      exact plainIff.mp (plain v member)
    unfold Regions.forkMm
    dsimp only
    rw [same, Keyed.insertAllOfSorted sorted, List.nil_append]

/-! ## The fork -/

def usedRam : Memory := ⟨⟨64, [6, 5, 4, 0, 1, 2, 3]⟩, fun f o => UInt8.ofNat (f + o)⟩

def mapped (flags : Nat) (dev : Option Nat) : MmStruct :=
  {Regions.mmInit with vmaList := (Regions.sysMmap i386 [] 0 0x2000 3 flags 3 0 true dev true).2}

def plainParent : Process i386 usedRam.frames :=
  ⟨mapped 0x22 none, ⟨[⟨0x40001000, 5, 7⟩, ⟨0x40000000, 6, 5⟩], [⟨0, 0x100, 4⟩]⟩,
    by decide, by decide, by decide⟩

def deviceParent (touched : Bool) : Process i386 usedRam.frames :=
  ⟨mapped 1 (some 0xFD000000),
    ⟨if touched then [⟨0x40000000, 0xFD000, 7⟩] else [], [⟨0, 0x100, 4⟩]⟩,
    by cases touched <;> decide, by cases touched <;> decide, by cases touched <;> decide⟩

end Scepter.CopyUser
