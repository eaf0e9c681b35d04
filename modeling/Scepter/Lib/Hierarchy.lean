import Mathlib.Algebra.BigOperators.Group.Finset.Basic
import Mathlib.Data.Multiset.Count
import Mathlib.Data.Nat.Find
import Mathlib.Logic.Function.Iterate

/-! Directories as a graph: each has a parent and names for other nodes, which may be
directories or not. The graph is rooted when every directory but the root has one
name, in its parent, and the parents lead to the root. A node's links are its names
and, for a directory, its own entry and the parent entries of its subdirectories. -/
namespace Scepter

structure Hierarchy (ι : Type) where
  dirs : Finset ι
  named : ι → Multiset ι
  parent : ι → ι

namespace Hierarchy

variable {ι : Type} [DecidableEq ι]

def names (h : Hierarchy ι) (i : ι) : Nat := ∑ d ∈ h.dirs, (h.named d).count i

def links (h : Hierarchy ι) (i : ι) : Nat :=
  h.names i + (if i ∈ h.dirs then 1 else 0) + ∑ d ∈ h.dirs, if h.parent d = i then 1 else 0

structure Rooted (root : ι) (h : Hierarchy ι) : Prop where
  here : root ∈ h.dirs
  top : h.parent root = root
  unnamed : h.names root = 0
  once : ∀ d ∈ h.dirs, d ≠ root → h.names d = 1
  inParent : ∀ d ∈ h.dirs, d ≠ root → h.parent d ∈ h.dirs ∧ d ∈ h.named (h.parent d)
  reach : ∀ d ∈ h.dirs, ∃ n, h.parent^[n] d = root

structure Same (h h' : Hierarchy ι) : Prop where
  dirs : h'.dirs = h.dirs
  named : ∀ d ∈ h.dirs, h'.named d = h.named d
  parent : ∀ d ∈ h.dirs, h'.parent d = h.parent d

/-! ## Changes -/

def link (h : Hierarchy ι) (p i : ι) : Hierarchy ι :=
  {h with named := Function.update h.named p (i ::ₘ h.named p)}

def unlink (h : Hierarchy ι) (p i : ι) : Hierarchy ι :=
  {h with named := Function.update h.named p ((h.named p).erase i)}

def mkdir (h : Hierarchy ι) (p d : ι) : Hierarchy ι where
  dirs := insert d h.dirs
  named := Function.update (Function.update h.named p (d ::ₘ h.named p)) d 0
  parent := Function.update h.parent d p

def rmdir (h : Hierarchy ι) (p d : ι) : Hierarchy ι :=
  {h.unlink p d with dirs := h.dirs.erase d}

def move (h : Hierarchy ι) (p q d : ι) : Hierarchy ι :=
  {(h.link q d).unlink p d with parent := Function.update h.parent d q}

variable {root : ι} {h h' : Hierarchy ι}

/-! ## Names and links -/

theorem sumOne {s : Finset ι} {f g : ι → Nat} {p : ι} (here : p ∈ s)
    (others : ∀ d ∈ s, d ≠ p → g d = f d) : (∑ d ∈ s, g d) + f p = (∑ d ∈ s, f d) + g p := by
  rw [← Finset.add_sum_erase s f here, ← Finset.add_sum_erase s g here]
  have rest : ∑ d ∈ s.erase p, g d = ∑ d ∈ s.erase p, f d := Finset.sum_congr rfl fun d member =>
    others d (Finset.mem_of_mem_erase member) (Finset.ne_of_mem_erase member)
  omega

theorem linkNames {p : ι} (here : p ∈ h.dirs) (i j : ι) :
    (h.link p i).names j = h.names j + if j = i then 1 else 0 := by
  have one := sumOne (f := fun d => (h.named d).count j) (g := fun d => ((h.link p i).named d).count j)
    here fun d _ differs => by
      unfold link
      dsimp only
      rw [Function.update_of_ne differs]
  have new : ((h.link p i).named p).count j = (h.named p).count j + if j = i then 1 else 0 := by
    unfold link
    dsimp only
    rw [Function.update_self, Multiset.count_cons]
  change (∑ d ∈ h.dirs, ((h.link p i).named d).count j) = (∑ d ∈ h.dirs, (h.named d).count j) + _
  omega

theorem unlinkNames {p i : ι} (here : p ∈ h.dirs) (member : i ∈ h.named p) (j : ι) :
    (h.unlink p i).names j + (if j = i then 1 else 0) = h.names j := by
  have one := sumOne (f := fun d => (h.named d).count j)
    (g := fun d => ((h.unlink p i).named d).count j) here fun d _ differs => by
      unfold unlink
      dsimp only
      rw [Function.update_of_ne differs]
  have new : ((h.unlink p i).named p).count j + (if j = i then 1 else 0) = (h.named p).count j := by
    unfold unlink
    dsimp only
    rw [Function.update_self]
    conv_rhs => rw [← Multiset.cons_erase member]
    rw [Multiset.count_cons]
  change (∑ d ∈ h.dirs, ((h.unlink p i).named d).count j) + _ = ∑ d ∈ h.dirs, (h.named d).count j
  omega

theorem namesNone (h : Hierarchy ι) (i : ι) : h.names i = 0 ↔ ∀ d ∈ h.dirs, i ∉ h.named d := by
  unfold names
  rw [Finset.sum_eq_zero_iff]
  exact forall₂_congr fun d _ => Multiset.count_eq_zero

theorem sameNames (same : Same h h') (i : ι) : h'.names i = h.names i := by
  unfold names
  rw [same.dirs]
  exact Finset.sum_congr rfl fun d member => by rw [same.named d member]

theorem sameLinks (same : Same h h') (i : ι) : h'.links i = h.links i := by
  unfold links
  rw [sameNames same, same.dirs]
  congr 1
  exact Finset.sum_congr rfl fun d member => by rw [same.parent d member]

theorem Rooted.parentIn (rooted : Rooted root h) {d : ι} (here : d ∈ h.dirs) :
    h.parent d ∈ h.dirs := by
  by_cases top : d = root
  · rw [top, rooted.top]
    exact rooted.here
  · exact (rooted.inParent d here top).1

theorem Rooted.iterate (rooted : Rooted root h) {f : ι → ι}
    (same : ∀ d ∈ h.dirs, f d = h.parent d) {d : ι} (here : d ∈ h.dirs) (n : Nat) :
    f^[n] d = h.parent^[n] d := by
  induction n generalizing d with
  | zero => rfl
  | succ n ih =>
    rw [Function.iterate_succ_apply, Function.iterate_succ_apply, same d here]
    exact ih (rooted.parentIn here)

theorem Rooted.congr (rooted : Rooted root h) (same : Same h h') : Rooted root h' := by
  obtain ⟨dirs, named, parent⟩ := same
  refine ⟨dirs ▸ rooted.here, ?_, ?_, fun d member other => ?_, fun d member other => ?_,
    fun d member => ?_⟩
  · rw [parent root rooted.here]
    exact rooted.top
  · rw [sameNames ⟨dirs, named, parent⟩]
    exact rooted.unnamed
  · rw [sameNames ⟨dirs, named, parent⟩]
    exact rooted.once d (dirs ▸ member) other
  · rw [dirs] at member ⊢
    obtain ⟨inside, name⟩ := rooted.inParent d member other
    rw [parent d member, named _ inside]
    exact ⟨inside, name⟩
  · rw [dirs] at member
    obtain ⟨n, top⟩ := rooted.reach d member
    exact ⟨n, (rooted.iterate parent member n).trans top⟩

omit [DecidableEq ι] in
theorem Same.trans {h'' : Hierarchy ι} (one : Same h h') (two : Same h' h'') : Same h h'' := by
  refine ⟨two.dirs.trans one.dirs, fun d member => ?_, fun d member => ?_⟩
  · exact (two.named d (one.dirs ▸ member)).trans (one.named d member)
  · exact (two.parent d (one.dirs ▸ member)).trans (one.parent d member)

theorem Same.unlink (same : Same h h') (p i : ι) : Same (h.unlink p i) (h'.unlink p i) := by
  refine ⟨same.dirs, fun d member => ?_, same.parent⟩
  have named := same.named d member
  unfold Hierarchy.unlink
  dsimp only
  by_cases here : d = p
  · rw [← here, Function.update_self, Function.update_self, named]
  · rw [Function.update_of_ne here, Function.update_of_ne here, named]

theorem Same.adopt (same : Same h h') (d q : ι) :
    Same {h with parent := Function.update h.parent d q}
      {h' with parent := Function.update h'.parent d q} := by
  refine ⟨same.dirs, same.named, fun e member => ?_⟩
  have parent := same.parent e member
  dsimp only
  by_cases here : e = d
  · rw [here, Function.update_self, Function.update_self]
  · rw [Function.update_of_ne here, Function.update_of_ne here, parent]

theorem Rooted.namedIn (rooted : Rooted root h) {p d : ι} (here : p ∈ h.dirs) (mine : d ∈ h.dirs)
    (name : d ∈ h.named p) : d ≠ root ∧ h.parent d = p := by
  have away : d ≠ root := by
    rintro rfl
    exact (namesNone h d).mp rooted.unnamed p here name
  refine ⟨away, ?_⟩
  obtain ⟨inside, other⟩ := rooted.inParent d mine away
  by_contra differs
  have once := rooted.once d mine away
  unfold names at once
  rw [← Finset.add_sum_erase _ _ here] at once
  have one := Multiset.count_pos.mpr name
  have two := Multiset.count_pos.mpr other
  rw [← Finset.add_sum_erase _ _ (Finset.mem_erase.mpr ⟨differs, inside⟩)] at once
  omega

theorem Rooted.parentOther (rooted : Rooted root h) {d : ι} (here : d ∈ h.dirs) (away : d ≠ root) :
    h.parent d ≠ d := by
  intro same
  obtain ⟨n, top⟩ := rooted.reach d here
  rw [Function.iterate_fixed same] at top
  exact away top

theorem Rooted.within (rooted : Rooted root h) {d : ι} (here : d ∈ h.dirs) :
    ∃ n < h.dirs.card, h.parent^[n] d = root := by
  classical
  have ends := rooted.reach d here
  refine ⟨Nat.find ends, ?_, Nat.find_spec ends⟩
  have stays : ∀ n, h.parent^[n] d ∈ h.dirs := by
    intro n
    induction n with
    | zero => exact here
    | succ n ih =>
      rw [Function.iterate_succ_apply']
      exact rooted.parentIn ih
  -- two equal parents on the way would reach the root sooner
  have apart : Set.InjOn (fun n => h.parent^[n] d) (Finset.range (Nat.find ends + 1)) := by
    have no : ∀ m n, m < n → n ≤ Nat.find ends → h.parent^[m] d ≠ h.parent^[n] d := by
      intro m n less most same
      refine Nat.find_min ends (m := m + (Nat.find ends - n)) (by omega) ?_
      rw [Nat.add_comm, Function.iterate_add_apply, same, ← Function.iterate_add_apply,
        Nat.sub_add_cancel most]
      exact Nat.find_spec ends
    intro m least n most same
    rw [Finset.mem_coe, Finset.mem_range] at least most
    by_contra differs
    rcases Nat.lt_or_gt_of_ne differs with less | less
    · exact no m n less (by omega) same
    · exact no n m less (by omega) same.symm
  have card := Finset.card_le_card_of_injOn _ (fun n _ => stays n) apart
  rw [Finset.card_range] at card
  omega

theorem Rooted.never (rooted : Rooted root h) {q d : ι} (here : q ∈ h.dirs) (away : d ≠ root)
    (apart : ∀ n < h.dirs.card, h.parent^[n] q ≠ d) (n : Nat) : h.parent^[n] q ≠ d := by
  obtain ⟨m, few, top⟩ := rooted.within here
  by_cases early : n < m
  · exact apart n (Nat.lt_trans early few)
  · obtain ⟨k, rfl⟩ := Nat.exists_eq_add_of_le (Nat.le_of_not_lt early)
    rw [Nat.add_comm, Function.iterate_add_apply, top, Function.iterate_fixed rooted.top]
    exact away.symm

/-! ## Names of other nodes -/

theorem Rooted.files (rooted : Rooted root h) (dirs : h'.dirs = h.dirs)
    (named : ∀ d ∈ h.dirs, ∀ i ∈ h.dirs, (h'.named d).count i = (h.named d).count i)
    (parent : h'.parent = h.parent) : Rooted root h' := by
  have same : ∀ i ∈ h.dirs, h'.names i = h.names i := fun i inside => by
    unfold names
    rw [dirs]
    exact Finset.sum_congr rfl fun d member => named d member i inside
  refine ⟨dirs ▸ rooted.here, parent ▸ rooted.top, (same root rooted.here).trans rooted.unnamed,
    fun d member other => ?_, fun d member other => ?_, fun d member => ?_⟩
  · rw [dirs] at member
    exact (same d member).trans (rooted.once d member other)
  · rw [dirs] at member ⊢
    obtain ⟨inside, name⟩ := rooted.inParent d member other
    rw [parent]
    refine ⟨inside, Multiset.count_pos.mp ?_⟩
    rw [named _ inside d member]
    exact Multiset.count_pos.mpr name
  · rw [dirs] at member
    rw [parent]
    exact rooted.reach d member

theorem Rooted.link (rooted : Rooted root h) {p i : ι} (file : i ∉ h.dirs) :
    Rooted root (h.link p i) := by
  refine rooted.files rfl (fun d _ j inside => ?_) rfl
  unfold Hierarchy.link
  by_cases same : d = p
  · rw [same]
    dsimp only
    rw [Function.update_self, Multiset.count_cons_of_ne]
    rintro rfl
    exact file inside
  · dsimp only
    rw [Function.update_of_ne same]

theorem Rooted.unlink (rooted : Rooted root h) {p i : ι} (file : i ∉ h.dirs) :
    Rooted root (h.unlink p i) := by
  refine rooted.files rfl (fun d _ j inside => ?_) rfl
  unfold Hierarchy.unlink
  by_cases same : d = p
  · rw [same]
    dsimp only
    rw [Function.update_self, Multiset.count_erase_of_ne]
    rintro rfl
    exact file inside
  · dsimp only
    rw [Function.update_of_ne same]

theorem linkLinks {p : ι} (here : p ∈ h.dirs) (i j : ι) :
    (h.link p i).links j = h.links j + if j = i then 1 else 0 := by
  have names := linkNames here i j
  change (h.link p i).names j + _ + _ = h.names j + _ + _ + _
  rw [names]
  change h.names j + _ + (if j ∈ h.dirs then 1 else 0) +
    (∑ d ∈ h.dirs, if h.parent d = j then 1 else 0) = _
  omega

theorem unlinkLinks {p i : ι} (here : p ∈ h.dirs) (member : i ∈ h.named p) (j : ι) :
    (h.unlink p i).links j + (if j = i then 1 else 0) = h.links j := by
  have names := unlinkNames here member j
  change (h.unlink p i).names j + (if j ∈ h.dirs then 1 else 0) +
    (∑ d ∈ h.dirs, if h.parent d = j then 1 else 0) + _ = h.names j + _ + _
  omega

/-! ## Directories made, removed and moved -/

theorem mkdirNames {p d : ι} (here : p ∈ h.dirs) (new : d ∉ h.dirs) (j : ι) :
    (h.mkdir p d).names j = h.names j + if j = d then 1 else 0 := by
  have linked := linkNames here d j
  unfold names mkdir
  dsimp only
  rw [Finset.sum_insert new, Function.update_self, Multiset.count_zero, Nat.zero_add]
  refine Eq.trans (Finset.sum_congr rfl fun e member => ?_) linked
  rw [Function.update_of_ne (ne_of_mem_of_not_mem member new)]
  rfl

theorem mkdirLinks {p d : ι} (here : p ∈ h.dirs) (new : d ∉ h.dirs) (j : ι) :
    (h.mkdir p d).links j =
      h.links j + (if j = d then 2 else 0) + if j = p then 1 else 0 := by
  have names := mkdirNames here new j
  have own : (if j ∈ (h.mkdir p d).dirs then 1 else 0) =
      (if j ∈ h.dirs then 1 else 0) + if j = d then 1 else 0 := by
    unfold mkdir
    dsimp only
    by_cases same : j = d
    · rw [same, if_pos (Finset.mem_insert_self _ _), if_neg new, if_pos rfl]
    · simp only [Finset.mem_insert, same, false_or, if_false, Nat.add_zero]
  have below : (∑ e ∈ (h.mkdir p d).dirs, if (h.mkdir p d).parent e = j then 1 else 0) =
      (∑ e ∈ h.dirs, if h.parent e = j then 1 else 0) + if j = p then 1 else 0 := by
    change (∑ e ∈ insert d h.dirs, if Function.update h.parent d p e = j then 1 else 0) = _
    rw [Finset.sum_insert new, Function.update_self, Nat.add_comm]
    simp only [eq_comm (a := p)]
    congr 1
    refine Finset.sum_congr rfl fun e member => ?_
    rw [Function.update_of_ne (ne_of_mem_of_not_mem member new)]
  unfold links
  rw [names, own, below]
  by_cases same : j = d
  · simp only [same, if_true]
    omega
  · simp only [same, if_false]
    omega

theorem Rooted.mkdir (rooted : Rooted root h) {p d : ι} (here : p ∈ h.dirs) (new : d ∉ h.dirs)
    (free : h.names d = 0) : Rooted root (h.mkdir p d) := by
  have other : ∀ e ∈ h.dirs, e ≠ d := fun e member => ne_of_mem_of_not_mem member new
  have up : ∀ e ∈ h.dirs, (h.mkdir p d).parent e = h.parent e := fun e member =>
    Function.update_of_ne (other e member) _ _
  have self : (h.mkdir p d).parent d = p := Function.update_self ..
  have within : ∀ e ∈ h.dirs, ∀ i ∈ h.named e, i ∈ (h.mkdir p d).named e := by
    intro e member i name
    unfold Hierarchy.mkdir
    dsimp only
    rw [Function.update_of_ne (other e member)]
    by_cases same : e = p
    · rw [same, Function.update_self]
      exact Multiset.mem_cons_of_mem (same ▸ name)
    · rwa [Function.update_of_ne same]
  have chain : ∀ e ∈ h.dirs, ∃ n, (h.mkdir p d).parent^[n] e = root := fun e member => by
    obtain ⟨n, top⟩ := rooted.reach e member
    exact ⟨n, (rooted.iterate up member n).trans top⟩
  refine ⟨Finset.mem_insert_of_mem rooted.here, ?_, ?_, fun e member away => ?_,
    fun e member away => ?_, fun e member => ?_⟩
  · rw [up root rooted.here]
    exact rooted.top
  · rw [mkdirNames here new, rooted.unnamed, if_neg (other root rooted.here)]
  · rw [mkdirNames here new]
    rcases Finset.mem_insert.mp member with rfl | old
    · rw [free, if_pos rfl]
    · rw [rooted.once e old away, if_neg (other e old)]
  · rcases Finset.mem_insert.mp member with rfl | old
    · rw [self]
      refine ⟨Finset.mem_insert_of_mem here, ?_⟩
      unfold Hierarchy.mkdir
      dsimp only
      rw [Function.update_of_ne (other p here), Function.update_self]
      exact Multiset.mem_cons_self _ _
    · obtain ⟨inside, name⟩ := rooted.inParent e old away
      rw [up e old]
      exact ⟨Finset.mem_insert_of_mem inside, within _ inside e name⟩
  · rcases Finset.mem_insert.mp member with rfl | old
    · obtain ⟨n, top⟩ := chain p here
      refine ⟨n + 1, ?_⟩
      rw [Function.iterate_succ_apply, self]
      exact top
    · exact chain e old

theorem rmdirNames {p d : ι} (here : p ∈ h.dirs) (mine : d ∈ h.dirs) (name : d ∈ h.named p)
    (empty : h.named d = 0) (j : ι) :
    (h.rmdir p d).names j + (if j = d then 1 else 0) = h.names j := by
  have unlinked := unlinkNames here name j
  have differs : d ≠ p := by
    rintro rfl
    rw [empty] at name
    exact Multiset.notMem_zero _ name
  have none' : ((h.unlink p d).named d).count j = 0 := by
    unfold unlink
    dsimp only
    rw [Function.update_of_ne differs, empty, Multiset.count_zero]
  have split := Finset.add_sum_erase h.dirs (fun e => ((h.unlink p d).named e).count j) mine
  change (∑ e ∈ h.dirs.erase d, ((h.unlink p d).named e).count j) + _ = _
  change (∑ e ∈ h.dirs, ((h.unlink p d).named e).count j) + _ = _ at unlinked
  omega

theorem rmdirLinks {d : ι} (here : h.parent d ∈ h.dirs) (mine : d ∈ h.dirs)
    (name : d ∈ h.named (h.parent d)) (empty : h.named d = 0) (j : ι) :
    (h.rmdir (h.parent d) d).links j + (if j = d then 2 else 0) + (if j = h.parent d then 1 else 0) =
      h.links j := by
  have names := rmdirNames here mine name empty j
  have own : (if j ∈ h.dirs.erase d then 1 else 0) + (if j = d then 1 else 0) =
      if j ∈ h.dirs then 1 else 0 := by
    by_cases same : j = d
    · rw [same, if_neg (Finset.notMem_erase _ _), if_pos rfl, if_pos mine]
    · simp only [Finset.mem_erase, same, ne_eq, not_false_eq_true, true_and, if_false, Nat.add_zero]
  have below := Finset.add_sum_erase h.dirs (fun e => if h.parent e = j then 1 else 0) mine
  simp only [eq_comm (a := h.parent d)] at below
  change (h.rmdir (h.parent d) d).names j + (if j ∈ h.dirs.erase d then 1 else 0) +
    (∑ e ∈ h.dirs.erase d, if h.parent e = j then 1 else 0) + _ + _ = h.names j + _ + _
  by_cases same : j = d
  · simp only [same, if_true] at names own below ⊢
    omega
  · simp only [same, if_false] at names own ⊢
    omega

theorem Rooted.rmdir (rooted : Rooted root h) {d : ι} (mine : d ∈ h.dirs) (away : d ≠ root)
    (empty : h.named d = 0) : Rooted root (h.rmdir (h.parent d) d) := by
  obtain ⟨here, name⟩ := rooted.inParent d mine away
  have names := rmdirNames here mine name empty
  refine ⟨Finset.mem_erase.mpr ⟨away.symm, rooted.here⟩, rooted.top, ?_,
    fun e member other => ?_, fun e member other => ?_, fun e member => ?_⟩
  · have count := names root
    rw [rooted.unnamed] at count
    omega
  · obtain ⟨differs, old⟩ := Finset.mem_erase.mp member
    have count := names e
    rw [if_neg differs, rooted.once e old other] at count
    exact count
  · obtain ⟨differs, old⟩ := Finset.mem_erase.mp member
    obtain ⟨inside, inner⟩ := rooted.inParent e old other
    refine ⟨Finset.mem_erase.mpr ⟨?_, inside⟩, ?_⟩
    · intro same
      change h.parent e = d at same
      rw [same, empty] at inner
      exact Multiset.notMem_zero _ inner
    · change e ∈ (h.unlink (h.parent d) d).named (h.parent e)
      unfold Hierarchy.unlink
      dsimp only
      by_cases same : h.parent e = h.parent d
      · rw [same] at inner ⊢
        rw [Function.update_self]
        exact (Multiset.mem_erase_of_ne differs).mpr inner
      · rwa [Function.update_of_ne same]
  · exact rooted.reach e (Finset.mem_of_mem_erase member)

theorem moveNames {p q d : ι} (from' : p ∈ h.dirs) (to' : q ∈ h.dirs) (name : d ∈ h.named p)
    (j : ι) : (h.move p q d).names j = h.names j := by
  have linked := linkNames to' d j
  have still : d ∈ (h.link q d).named p := by
    unfold link
    dsimp only
    by_cases same : p = q
    · rw [same, Function.update_self]
      exact Multiset.mem_cons_self _ _
    · rwa [Function.update_of_ne same]
  have unlinked := unlinkNames (h := h.link q d) from' still j
  change ((h.link q d).unlink p d).names j = h.names j
  omega

theorem moveLinks {q d : ι} (from' : h.parent d ∈ h.dirs) (mine : d ∈ h.dirs) (to' : q ∈ h.dirs)
    (name : d ∈ h.named (h.parent d)) (j : ι) :
    (h.move (h.parent d) q d).links j + (if j = h.parent d then 1 else 0) =
      h.links j + if j = q then 1 else 0 := by
  have names := moveNames from' to' name j
  have below := sumOne (f := fun e => if h.parent e = j then 1 else 0)
    (g := fun e => if Function.update h.parent d q e = j then 1 else 0) mine fun e _ differs => by
      rw [Function.update_of_ne differs]
  rw [Function.update_self] at below
  simp only [eq_comm (a := h.parent d), eq_comm (a := q)] at below
  change (h.move (h.parent d) q d).names j + (if j ∈ h.dirs then 1 else 0) +
    (∑ e ∈ h.dirs, if Function.update h.parent d q e = j then 1 else 0) + _ =
    h.names j + (if j ∈ h.dirs then 1 else 0) + (∑ e ∈ h.dirs, if h.parent e = j then 1 else 0) + _
  omega

theorem Rooted.move (rooted : Rooted root h) {q d : ι} (mine : d ∈ h.dirs) (away : d ≠ root)
    (to' : q ∈ h.dirs) (apart : ∀ n, h.parent^[n] q ≠ d) :
    Rooted root (h.move (h.parent d) q d) := by
  obtain ⟨from', name⟩ := rooted.inParent d mine away
  have names := moveNames from' to' name
  have self : (h.move (h.parent d) q d).parent d = q := Function.update_self ..
  have up : ∀ e, e ≠ d → (h.move (h.parent d) q d).parent e = h.parent e := fun e differs =>
    Function.update_of_ne differs _ _
  have fromTarget : ∀ n, (h.move (h.parent d) q d).parent^[n] q = h.parent^[n] q := by
    intro n
    induction n with
    | zero => rfl
    | succ n ih => rw [Function.iterate_succ_apply', Function.iterate_succ_apply', ih, up _ (apart n)]
  obtain ⟨m, top⟩ := rooted.reach q to'
  refine ⟨rooted.here, ?_, (names root).trans rooted.unnamed,
    fun e member other => (names e).trans (rooted.once e member other),
    fun e member other => ?_, fun e member => ?_⟩
  · rw [up root away.symm]
    exact rooted.top
  · by_cases same : e = d
    · rw [same, self]
      refine ⟨to', ?_⟩
      change d ∈ ((h.link q d).unlink (h.parent d) d).named q
      unfold Hierarchy.unlink Hierarchy.link
      dsimp only
      by_cases stays : q = h.parent d
      · rw [← stays, Function.update_self, Function.update_self, Multiset.erase_cons_head, stays]
        exact name
      · rw [Function.update_of_ne stays, Function.update_self]
        exact Multiset.mem_cons_self _ _
    · obtain ⟨inside, inner⟩ := rooted.inParent e member other
      rw [up e same]
      refine ⟨inside, ?_⟩
      change e ∈ ((h.link q d).unlink (h.parent d) d).named (h.parent e)
      have linked : e ∈ (h.link q d).named (h.parent e) := by
        unfold Hierarchy.link
        dsimp only
        by_cases here : h.parent e = q
        · rw [here, Function.update_self]
          exact Multiset.mem_cons_of_mem (here ▸ inner)
        · rwa [Function.update_of_ne here]
      unfold Hierarchy.unlink
      dsimp only
      by_cases old : h.parent e = h.parent d
      · rw [old] at linked ⊢
        rw [Function.update_self]
        exact (Multiset.mem_erase_of_ne same).mpr linked
      · rwa [Function.update_of_ne old]
  · obtain ⟨n, rooted'⟩ := rooted.reach e member
    have through : ∀ n e, h.parent^[n] e = root →
        ∃ k, (h.move (h.parent d) q d).parent^[k] e = root := by
      intro n
      induction n with
      | zero => exact fun e same => ⟨0, same⟩
      | succ n ih =>
        intro e ends
        by_cases same : e = d
        · refine ⟨m + 1, ?_⟩
          rw [Function.iterate_succ_apply, same, self, fromTarget]
          exact top
        · rw [Function.iterate_succ_apply] at ends
          obtain ⟨k, reached⟩ := ih _ ends
          refine ⟨k + 1, ?_⟩
          rw [Function.iterate_succ_apply, up e same]
          exact reached
    exact through n e rooted'

end Hierarchy
end Scepter
