import Scepter.Fs.Minix3.Tree

/-! What a call does to the graph of the directories, in steps: an inode taken or given
back, an entry added or removed, a directory made, removed or moved. A call is one or
two of these, and the link counts it writes are those of the graph it leaves. -/
namespace Scepter.Minix3
open Scepter.Path (Str)
open Names

variable {geo : Geometry} {s t m : Fs}

/-! ## Steps of the graph -/

theorem dirsSame (dir : ∀ d, IsDir geo t d ↔ IsDir geo s d) :
    (graph geo t).dirs = (graph geo s).dirs := by
  ext d
  rw [memDirs, memDirs]
  exact dir d

theorem permNamed {l l' : List Dirent} {e : Dirent} (perm : (proper l').Perm (e :: proper l)) :
    (↑((proper l').map Dirent.inode) : Multiset Nat) =
      e.inode ::ₘ ↑((proper l).map Dirent.inode) := by
  rw [Multiset.cons_coe, Multiset.coe_eq_coe]
  exact perm.map Dirent.inode

theorem permErased {l l' : List Dirent} {e : Dirent} (perm : (proper l).Perm (e :: proper l')) :
    (↑((proper l').map Dirent.inode) : Multiset Nat) =
      (↑((proper l).map Dirent.inode) : Multiset Nat).erase e.inode := by
  rw [permNamed perm, Multiset.erase_cons_head]

theorem parentKept {p : Nat} {l : List Dirent} (dirs : t.dirs = Function.update s.dirs p l)
    (up : l.getD 1 unusedEntry = (s.dirs p).getD 1 unusedEntry) : parentOf t = parentOf s := by
  funext d
  unfold parentOf
  rw [dirs]
  by_cases same : d = p
  · rw [same, Function.update_self, up]
  · rw [Function.update_of_ne same]

theorem dirKept (used : t.used = s.used) (inodes : t.inodes = s.inodes) (d : Nat) :
    IsDir geo t d ↔ IsDir geo s d := by
  unfold IsDir
  rw [used, inodes]

theorem addedSame {p : Nat} {dir dir' : Inode} {e : Dirent} {l : List Dirent}
    (added : Added geo s t p dir dir' e l) :
    Hierarchy.Same ((graph geo s).link p e.inode) (graph geo t) := by
  refine ⟨dirsSame (dirKept added.used added.inodes), fun d _ => ?_, fun d _ => ?_⟩
  · unfold graph Hierarchy.link
    dsimp only
    rw [added.entries]
    by_cases same : d = p
    · rw [same, Function.update_self, Function.update_self]
      exact permNamed added.gained.perm
    · rw [Function.update_of_ne same, Function.update_of_ne same]
  · exact congrFun (parentKept added.entries added.gained.up) d

theorem lostSame {p : Nat} {e : Dirent} {l : List Dirent} (lost : Lost p (s.dirs p) l e) :
    Hierarchy.Same ((graph geo s).unlink p e.inode) (graph geo (s.setDir p l)) := by
  refine ⟨dirsSame (dirKept rfl rfl), fun d _ => ?_, fun d _ => ?_⟩
  · unfold graph Hierarchy.unlink Fs.setDir
    dsimp only
    by_cases same : d = p
    · rw [same, Function.update_self, Function.update_self]
      exact permErased lost.perm
    · rw [Function.update_of_ne same, Function.update_of_ne same]
  · exact congrFun (parentKept (t := s.setDir p l) rfl lost.up) d

theorem Formed.files (formed : Formed geo s) (dir : ∀ d, IsDir geo t d ↔ IsDir geo s d)
    (dirs : ∀ d, IsDir geo s d → t.dirs d = s.dirs d)
    (used : ∀ d, IsDir geo s d → ∀ e ∈ proper (s.dirs d), t.used e.inode = true) :
    Formed geo t ∧ Hierarchy.Same (graph geo s) (graph geo t) := by
  have same : Hierarchy.Same (graph geo s) (graph geo t) := by
    refine ⟨dirsSame dir, fun d member => ?_, fun d member => ?_⟩
    · unfold graph
      dsimp only
      rw [dirs d (memDirs.mp member)]
    · change parentOf t d = parentOf s d
      unfold parentOf
      rw [dirs d (memDirs.mp member)]
  refine ⟨⟨⟨fun d here => ?_, fun d here e member => ?_⟩, formed.rooted.congr same⟩, same⟩
  · rw [dirs d ((dir d).mp here)]
    exact formed.shaped d ((dir d).mp here)
  · rw [dirs d ((dir d).mp here)] at member
    exact ⟨(formed.valid d ((dir d).mp here) e member).1, used d ((dir d).mp here) e member⟩

theorem Formed.still (formed : Formed geo s) (used : t.used = s.used)
    (mode : ∀ i, s.used i = true → (t.inodes i).mode = (s.inodes i).mode)
    (dirs : ∀ d, IsDir geo s d → t.dirs d = s.dirs d) :
    Formed geo t ∧ Hierarchy.Same (graph geo s) (graph geo t) := by
  refine formed.files (fun d => ?_) dirs fun d here e member => ?_
  · unfold IsDir
    rw [used]
    exact and_congr_right fun _ => and_congr_right fun inUse => by rw [mode d inUse]
  · rw [used]
    exact (formed.valid d here e member).2

theorem Listed.change (listed : Listed geo s) {p : Nat} {l : List Dirent}
    (dirs : t.dirs = Function.update s.dirs p l) (used : t.used = s.used)
    (inodes : t.inodes = s.inodes) (shaped : Shaped p l)
    (valid : ∀ e ∈ proper l, InRange geo e.inode ∧ s.used e.inode = true) : Listed geo t := by
  refine ⟨fun d here => ?_, fun d here e member => ?_⟩
  · rw [dirs]
    by_cases same : d = p
    · rw [same, Function.update_self]
      exact shaped
    · rw [Function.update_of_ne same]
      exact listed.shaped d ((dirKept used inodes d).mp here)
  · rw [dirs] at member
    rw [used]
    by_cases same : d = p
    · rw [same, Function.update_self] at member
      exact valid e member
    · rw [Function.update_of_ne same] at member
      exact listed.valid d ((dirKept used inodes d).mp here) e member

theorem Listed.gain (listed : Listed geo s) {p : Nat} {dir dir' : Inode} {e : Dirent}
    {l : List Dirent} (here : IsDir geo s p) (range : InRange geo e.inode)
    (used : s.used e.inode = true) (added : Added geo s t p dir dir' e l) : Listed geo t := by
  refine listed.change added.entries added.used added.inodes added.gained.shaped
    fun x member => ?_
  rcases List.mem_cons.mp (added.gained.perm.mem_iff.mp member) with rfl | old
  · exact ⟨range, used⟩
  · exact listed.valid p here x old

theorem Listed.lose (listed : Listed geo s) {p : Nat} {e : Dirent} {l : List Dirent}
    (here : IsDir geo s p) (lost : Lost p (s.dirs p) l e) : Listed geo (s.setDir p l) :=
  listed.change rfl rfl rfl lost.shaped fun x member =>
    listed.valid p here x (lost.perm.mem_iff.mpr (List.mem_cons_of_mem _ member))

theorem Formed.gain (formed : Formed geo s) {p : Nat} {dir dir' : Inode} {e : Dirent}
    {l : List Dirent} (here : IsDir geo s p) (range : InRange geo e.inode)
    (used : s.used e.inode = true) (file : ¬IsDir geo s e.inode)
    (added : Added geo s t p dir dir' e l) : Formed geo t ∧
      ∀ j, (graph geo t).links j = (graph geo s).links j + if j = e.inode then 1 else 0 := by
  have same := addedSame added
  refine ⟨⟨formed.toListed.gain here range used added, ?_⟩, fun j => ?_⟩
  · exact (formed.rooted.link (fun inside => file (memDirs.mp inside))).congr same
  · rw [Hierarchy.sameLinks same, Hierarchy.linkLinks (memDirs.mpr here)]

theorem Formed.lose (formed : Formed geo s) {p : Nat} {e : Dirent} {l : List Dirent}
    (here : IsDir geo s p) (file : ¬IsDir geo s e.inode) (lost : Lost p (s.dirs p) l e) :
    Formed geo (s.setDir p l) ∧ ∀ j,
      (graph geo (s.setDir p l)).links j + (if j = e.inode then 1 else 0) =
        (graph geo s).links j := by
  have same : Hierarchy.Same ((graph geo s).unlink p e.inode) (graph geo (s.setDir p l)) :=
    lostSame lost
  have name : e.inode ∈ (graph geo s).named p :=
    memNamed.mpr ⟨e, lost.perm.mem_iff.mpr List.mem_cons_self, rfl⟩
  refine ⟨⟨formed.toListed.lose here lost, ?_⟩, fun j => ?_⟩
  · exact (formed.rooted.unlink (fun inside => file (memDirs.mp inside))).congr same
  · rw [Hierarchy.sameLinks same]
    exact Hierarchy.unlinkLinks (memDirs.mpr here) name j

/-! ## Inodes taken and given back -/

theorem Formed.unusedNames (formed : Formed geo s) {i : Nat} (unused : s.used i = false) :
    (graph geo s).names i = 0 := by
  refine (Hierarchy.namesNone _ i).mpr fun d member name => ?_
  obtain ⟨e, inside, rfl⟩ := memNamed.mp name
  have used := (formed.valid d (memDirs.mp member) e inside).2
  rw [unused] at used
  cases used

theorem Formed.unusedLinks (formed : Formed geo s) {i : Nat} (unused : s.used i = false) :
    (graph geo s).links i = 0 := by
  have away : i ∉ (graph geo s).dirs := fun member => by
    have used := (memDirs.mp member).2.1
    rw [unused] at used
    cases used
  have below : (∑ d ∈ (graph geo s).dirs, if (graph geo s).parent d = i then 1 else 0) = 0 :=
    Finset.sum_eq_zero fun d member => by
      rw [if_neg]
      rintro rfl
      exact away (formed.rooted.parentIn member)
  unfold Hierarchy.links
  rw [formed.unusedNames unused, if_neg away, below]

theorem Formed.take (formed : Formed geo s) {i : Nat} (unused : s.used i = false)
    (used : t.used = Function.update s.used i true) (mode : (t.inodes i).mode ≠ .dir)
    (others : ∀ j, j ≠ i → t.inodes j = s.inodes j) (dirs : t.dirs = s.dirs) :
    Formed geo t ∧ Hierarchy.Same (graph geo s) (graph geo t) := by
  refine formed.files (fun d => ?_) (fun d _ => congrFun dirs d) fun d here e member => ?_
  · unfold IsDir
    rw [used]
    by_cases same : d = i
    · subst same
      rw [unused]
      exact ⟨fun dir => absurd dir.2.2 mode, fun dir => absurd dir.2.1 Bool.false_ne_true⟩
    · rw [Function.update_of_ne same, others d same]
  · have old := (formed.valid d here e member).2
    rw [used]
    by_cases same : e.inode = i
    · rw [same, Function.update_self]
    · rwa [Function.update_of_ne same]

theorem Formed.drop (formed : Formed geo s) {i : Nat} (file : ¬IsDir geo s i)
    (unnamed : (graph geo s).links i = 0) :
    Formed geo (s.setUsed i false) ∧ Hierarchy.Same (graph geo s) (graph geo (s.setUsed i false)) := by
  refine formed.files (fun d => ?_) (fun d _ => rfl) fun d here e member => ?_
  · unfold IsDir Fs.setUsed
    dsimp only
    by_cases same : d = i
    · subst same
      rw [Function.update_self]
      exact ⟨fun dir => absurd dir.2.1 Bool.false_ne_true, fun dir => absurd dir file⟩
    · rw [Function.update_of_ne same]
  · have differs : e.inode ≠ i := by
      rintro rfl
      have none' : (graph geo s).names e.inode = 0 := by
        unfold Hierarchy.links at unnamed
        omega
      exact (Hierarchy.namesNone _ _).mp none' d (memDirs.mpr here) (memNamed.mpr ⟨e, member, rfl⟩)
    unfold Fs.setUsed
    dsimp only
    rw [Function.update_of_ne differs]
    exact (formed.valid d here e member).2

/-! ## Directories made, removed and moved -/

def firstBlock (d parent n : Nat) : List Dirent :=
  ⟨d, DOT⟩ :: ⟨parent, DOTDOT⟩ :: List.replicate n unusedEntry

theorem firstShaped (d : Nat) {parent : Nat} (some' : parent ≠ 0) (n : Nat) :
    Shaped d (firstBlock d parent n) :=
  ⟨parent, List.replicate n unusedEntry, rfl, some', fun e member fresh => by
    rw [List.eq_of_mem_replicate member] at fresh
    exact absurd rfl fresh⟩

theorem firstProper (d parent n : Nat) : proper (firstBlock d parent n) = [] := by
  unfold proper firstBlock
  rw [List.drop_succ_cons, List.drop_succ_cons, List.drop_zero, List.filter_eq_nil_iff]
  intro e member
  rw [List.eq_of_mem_replicate member]
  decide

theorem Formed.mkdir (formed : Formed geo s) {p i n : Nat} {dir dir' : Inode} {e : Dirent}
    {l : List Dirent} (here : IsDir geo s p) (range : InRange geo i) (unused : s.used i = false)
    (used : m.used = Function.update s.used i true) (mode : (m.inodes i).mode = .dir)
    (others : ∀ j, j ≠ i → m.inodes j = s.inodes j)
    (dirs : m.dirs = Function.update s.dirs i (firstBlock i p n))
    (new : e.inode = i) (added : Added geo m t p dir dir' e l) : Formed geo t ∧
      ∀ j, (graph geo t).links j =
        (graph geo s).links j + (if j = i then 2 else 0) + if j = p then 1 else 0 := by
  have differs : p ≠ i := by
    rintro rfl
    exact absurd (here.2.1.symm.trans unused) (by decide)
  have old : m.dirs p = s.dirs p := by rw [dirs, Function.update_of_ne differs]
  have isDir : ∀ d, IsDir geo t d ↔ d = i ∨ IsDir geo s d := fun d => by
    unfold IsDir
    rw [added.used, added.inodes, used]
    by_cases same : d = i
    · rw [same, Function.update_self]
      exact ⟨fun _ => .inl rfl, fun _ => ⟨range, rfl, mode⟩⟩
    · rw [Function.update_of_ne same, others d same]
      exact ⟨.inr, fun or => or.resolve_left same⟩
  have away : ∀ d, IsDir geo s d → d ≠ i := fun d dir same => by
    rw [same] at dir
    exact absurd (dir.2.1.symm.trans unused) (by decide)
  have blockI : t.dirs i = firstBlock i p n := by
    rw [added.entries, Function.update_of_ne differs.symm, dirs, Function.update_self]
  have blockP : t.dirs p = l := by rw [added.entries, Function.update_self]
  have block : ∀ d, d ≠ i → d ≠ p → t.dirs d = s.dirs d := fun d one two => by
    rw [added.entries, Function.update_of_ne two, dirs, Function.update_of_ne one]
  have gained : Gained p (s.dirs p) l e := old ▸ added.gained
  have same : Hierarchy.Same ((graph geo s).mkdir p i) (graph geo t) := by
    refine ⟨?_, fun d _ => ?_, fun d _ => ?_⟩
    · ext d
      change d ∈ (graph geo t).dirs ↔ d ∈ insert i (graph geo s).dirs
      rw [memDirs, Finset.mem_insert, memDirs]
      exact isDir d
    · change (↑((proper (t.dirs d)).map Dirent.inode) : Multiset Nat) =
        Function.update (Function.update (graph geo s).named p _) i 0 d
      by_cases one : d = i
      · rw [one, Function.update_self, blockI, firstProper]
        rfl
      · rw [Function.update_of_ne one]
        by_cases two : d = p
        · rw [two, Function.update_self, blockP, ← new]
          exact permNamed gained.perm
        · rw [Function.update_of_ne two, block d one two]
          rfl
    · change parentOf t d = Function.update (parentOf s) i p d
      unfold parentOf
      by_cases one : d = i
      · rw [one, Function.update_self, blockI]
        rfl
      · rw [Function.update_of_ne one]
        by_cases two : d = p
        · rw [two, blockP, gained.up]
        · rw [block d one two]
  have into : p ∈ (graph geo s).dirs := memDirs.mpr here
  have fresh : i ∉ (graph geo s).dirs := fun member => away i (memDirs.mp member) rfl
  refine ⟨⟨⟨fun d dir => ?_, fun d dir x member => ?_⟩, ?_⟩, fun j => ?_⟩
  · rcases (isDir d).mp dir with rfl | was
    · rw [blockI]
      exact firstShaped d (Nat.ne_of_gt here.1.1) n
    · by_cases two : d = p
      · rw [two, blockP]
        exact gained.shaped
      · rw [block d (away d was) two]
        exact formed.shaped d was
  · have kept : s.used x.inode = true → t.used x.inode = true := fun inUse => by
      rw [added.used, used]
      by_cases one : x.inode = i
      · rw [one, Function.update_self]
      · rwa [Function.update_of_ne one]
    rcases (isDir d).mp dir with rfl | was
    · rw [blockI, firstProper] at member
      cases member
    · by_cases two : d = p
      · rw [two, blockP] at member
        rcases List.mem_cons.mp (gained.perm.mem_iff.mp member) with rfl | before
        · rw [new]
          exact ⟨range, by rw [added.used, used, Function.update_self]⟩
        · obtain ⟨inside, inUse⟩ := formed.valid p here x before
          exact ⟨inside, kept inUse⟩
      · rw [block d (away d was) two] at member
        obtain ⟨inside, inUse⟩ := formed.valid d was x member
        exact ⟨inside, kept inUse⟩
  · exact (formed.rooted.mkdir into fresh (formed.unusedNames unused)).congr same
  · rw [Hierarchy.sameLinks same]
    exact Hierarchy.mkdirLinks into fresh j

theorem Formed.rmdir (formed : Formed geo s) {p : Nat} {e : Dirent} {l : List Dirent}
    (here : IsDir geo s p) (mine : IsDir geo s e.inode)
    (empty : (graph geo s).named e.inode = 0) (lost : Lost p (s.dirs p) l e)
    (used : t.used = Function.update s.used e.inode false) (inodes : t.inodes = s.inodes)
    (dirs : t.dirs = Function.update s.dirs p l) : Formed geo t ∧ ∀ j,
      (graph geo t).links j + (if j = e.inode then 2 else 0) + (if j = p then 1 else 0) =
        (graph geo s).links j := by
  have into : p ∈ (graph geo s).dirs := memDirs.mpr here
  have inside : e.inode ∈ (graph geo s).dirs := memDirs.mpr mine
  have name : e.inode ∈ (graph geo s).named p :=
    memNamed.mpr ⟨e, lost.perm.mem_iff.mpr List.mem_cons_self, rfl⟩
  obtain ⟨away, up⟩ := formed.rooted.namedIn into inside name
  have isDir : ∀ d, IsDir geo t d ↔ d ≠ e.inode ∧ IsDir geo s d := fun d => by
    unfold IsDir
    rw [used, inodes]
    by_cases same : d = e.inode
    · rw [same, Function.update_self]
      exact ⟨fun dir => absurd dir.2.1 Bool.false_ne_true, fun both => absurd rfl both.1⟩
    · rw [Function.update_of_ne same]
      exact ⟨fun dir => ⟨same, dir⟩, And.right⟩
  have same : Hierarchy.Same ((graph geo s).rmdir p e.inode) (graph geo t) := by
    refine ⟨?_, fun d _ => ?_, fun d _ => ?_⟩
    · ext d
      change d ∈ (graph geo t).dirs ↔ d ∈ (graph geo s).dirs.erase e.inode
      rw [memDirs, Finset.mem_erase, memDirs]
      exact isDir d
    · change (↑((proper (t.dirs d)).map Dirent.inode) : Multiset Nat) =
        Function.update (graph geo s).named p _ d
      rw [dirs]
      by_cases one : d = p
      · rw [one, Function.update_self, Function.update_self]
        exact permErased lost.perm
      · rw [Function.update_of_ne one, Function.update_of_ne one]
        rfl
    · exact congrFun (parentKept dirs lost.up) d
  have rooted := (formed.rooted.rmdir inside away empty).congr (up.symm ▸ same)
  have unnamed : (graph geo t).names e.inode = 0 := by
    have names := Hierarchy.rmdirNames into inside name empty e.inode
    have once := formed.rooted.once e.inode inside away
    rw [Hierarchy.sameNames same]
    rw [if_pos rfl] at names
    omega
  refine ⟨⟨⟨fun d dir => ?_, fun d dir x member => ?_⟩, rooted⟩, fun j => ?_⟩
  · rw [dirs]
    by_cases one : d = p
    · rw [one, Function.update_self]
      exact lost.shaped
    · rw [Function.update_of_ne one]
      exact formed.shaped d ((isDir d).mp dir).2
  · have differs : x.inode ≠ e.inode := fun same => (Hierarchy.namesNone _ _).mp unnamed d
      (memDirs.mpr dir) (memNamed.mpr ⟨x, member, same⟩)
    rw [used, Function.update_of_ne differs]
    rw [dirs] at member
    by_cases one : d = p
    · rw [one, Function.update_self] at member
      exact formed.valid p here x (lost.perm.mem_iff.mpr (List.mem_cons_of_mem _ member))
    · rw [Function.update_of_ne one] at member
      exact formed.valid d ((isDir d).mp dir).2 x member
  · rw [Hierarchy.sameLinks same]
    subst up
    exact Hierarchy.rmdirLinks into inside name empty j

def reparent (parent : Nat) : List Dirent → List Dirent
  | x :: up :: rest => x :: ⟨parent, up.name⟩ :: rest
  | l => l

theorem dotdotUpdated {d q : Nat} (shaped : Shaped d (s.dirs d))
    (zones : (s.inodes d).zones ≠ []) :
    updateDotdot s d q = s.setDir d (reparent q (s.dirs d)) := by
  obtain ⟨up, rest, same, parent, -⟩ := shaped
  unfold updateDotdot reparent
  rw [same]
  exact if_pos ⟨zones, parent, rfl⟩

theorem reparentShaped {d q : Nat} {l : List Dirent} (some' : q ≠ 0) (shaped : Shaped d l) :
    Shaped d (reparent q l) ∧ proper (reparent q l) = proper l ∧
      ((reparent q l).getD 1 unusedEntry).inode = q ∧ (reparent q l).length = l.length := by
  obtain ⟨up, rest, rfl, -, plain⟩ := shaped
  exact ⟨⟨q, rest, rfl, some', plain⟩, rfl, rfl, rfl⟩

theorem adoptSame {d q : Nat} (some' : q ≠ 0) (shaped : Shaped d (s.dirs d)) :
    Hierarchy.Same {graph geo s with parent := Function.update (graph geo s).parent d q}
      (graph geo (s.setDir d (reparent q (s.dirs d)))) := by
  obtain ⟨-, kept, parent, -⟩ := reparentShaped some' shaped
  refine ⟨dirsSame (dirKept rfl rfl), fun x _ => ?_, fun x _ => ?_⟩
  · unfold graph Fs.setDir
    dsimp only
    by_cases same : x = d
    · rw [same, Function.update_self, kept]
    · rw [Function.update_of_ne same]
  · change parentOf (s.setDir d (reparent q (s.dirs d))) x = Function.update (parentOf s) d q x
    unfold parentOf Fs.setDir
    dsimp only
    by_cases same : x = d
    · rw [same, Function.update_self, Function.update_self, parent]
    · rw [Function.update_of_ne same, Function.update_of_ne same]

theorem moveSame {p q : Nat} {dir dir' : Inode} {e x : Dirent} {l l' : List Dirent}
    (added : Added geo s m q dir dir' e l) (lost : Lost p (m.dirs p) l' x)
    (inode : x.inode = e.inode) :
    Hierarchy.Same (((graph geo s).link q e.inode).unlink p e.inode)
      (graph geo (m.setDir p l')) := by
  have unlinked : Hierarchy.Same ((graph geo m).unlink p x.inode) (graph geo (m.setDir p l')) :=
    lostSame lost
  rw [inode] at unlinked
  exact ((addedSame added).unlink p e.inode).trans unlinked

theorem Formed.move (formed : Formed geo s) {p q : Nat} {dir dir' : Inode} {e x : Dirent}
    {l l' : List Dirent} (mine : IsDir geo s e.inode) (here : IsDir geo s p)
    (into : IsDir geo s q) (added : Added geo s m q dir dir' e l)
    (lost : Lost p (m.dirs p) l' x) (inode : x.inode = e.inode)
    (name : e.inode ∈ (graph geo s).named p) (apart : ∀ n, (parentOf s)^[n] q ≠ e.inode)
    (result : p = q ∧ t = m.setDir p l' ∨
      t = (m.setDir p l').setDir e.inode (reparent q ((m.setDir p l').dirs e.inode))) :
    Formed geo t ∧ ∀ j, (graph geo t).links j + (if j = p then 1 else 0) =
      (graph geo s).links j + if j = q then 1 else 0 := by
  have inside : e.inode ∈ (graph geo s).dirs := memDirs.mpr mine
  obtain ⟨away, up⟩ := formed.rooted.namedIn (memDirs.mpr here) inside name
  have same := moveSame added lost inode
  have listed := formed.toListed.gain into mine.1 mine.2.1 added
  have here' : IsDir geo m p := (dirKept added.used added.inodes p).mpr here
  have listed' := listed.lose here' lost
  have shaped : Shaped e.inode ((m.setDir p l').dirs e.inode) :=
    listed'.shaped _ ((dirKept added.used added.inodes _).mpr mine)
  have some' : q ≠ 0 := Nat.ne_of_gt into.1.1
  have moved : Listed geo t ∧ Hierarchy.Same ((graph geo s).move p q e.inode) (graph geo t) := by
    rcases result with ⟨rfl, rfl⟩ | rfl
    · refine ⟨listed', ?_⟩
      have stays : Function.update (graph geo s).parent e.inode p = (graph geo s).parent := by
        conv_lhs => rw [← up]
        exact Function.update_eq_self _ _
      unfold Hierarchy.move
      rw [stays]
      exact same
    · obtain ⟨shaped', proper', -, -⟩ := reparentShaped some' shaped
      refine ⟨listed'.change rfl rfl rfl shaped' fun y member => ?_,
        (same.adopt e.inode q).trans (adoptSame some' shaped)⟩
      rw [proper'] at member
      exact listed'.valid _ ((dirKept added.used added.inodes _).mpr mine) y member
  obtain ⟨listed, same⟩ := moved
  subst up
  refine ⟨⟨listed, (formed.rooted.move inside away (memDirs.mpr into) apart).congr same⟩,
    fun j => ?_⟩
  rw [Hierarchy.sameLinks same]
  exact Hierarchy.moveLinks (memDirs.mpr here) inside (memDirs.mpr into) name j

end Scepter.Minix3
