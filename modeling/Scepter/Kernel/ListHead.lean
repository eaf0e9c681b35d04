import Mathlib.Logic.Function.Basic
import Scepter.Lib.PointerRing
import Scepter.Lib.Run

/-! The kernel's doubly linked lists in memory (include/lib/list.h): the calls on list
heads, any number of lists in one memory, stand for the plain lists of their entries. -/
namespace Scepter.ListHead
open PointerRing (PathOf RingOf memLast)

structure list_head where
  next : Nat
  prev : Nat
  deriving DecidableEq, Repr

abbrev Mem := Nat → list_head

def NULL : Nat := 0

def setNext (m : Mem) (a next : Nat) : Mem := Function.update m a { m a with next }
def setPrev (m : Mem) (a prev : Nat) : Mem := Function.update m a { m a with prev }

def INIT_LIST_HEAD (m : Mem) (h : Nat) : Mem := setPrev (setNext m h h) h h

def list_empty (m : Mem) (head : Nat) : Bool := (m head).next == head

def __list_add (m : Mem) (new prev next : Nat) : Mem :=
  let m := setPrev m next new
  let m := setNext m new next
  let m := setPrev m new prev
  setNext m prev new

def __list_del (m : Mem) (prev next : Nat) : Mem := setNext (setPrev m next prev) prev next

def list_add (m : Mem) (new head : Nat) : Mem := __list_add m new head (m head).next
def list_add_tail (m : Mem) (new head : Nat) : Mem := __list_add m new (m head).prev head

def list_del (m : Mem) (entry : Nat) : Mem :=
  let m := __list_del m (m entry).prev (m entry).next
  setPrev (setNext m entry NULL) entry NULL

def list_move (m : Mem) (entry head : Nat) : Mem :=
  let m := __list_del m (m entry).prev (m entry).next
  __list_add m entry head (m head).next

def list_move_tail (m : Mem) (entry head : Nat) : Mem :=
  let m := __list_del m (m entry).prev (m entry).next
  __list_add m entry (m head).prev head

/-- The cursor positions of `list_for_each`; `none` when `fuel` positions are not enough. -/
def list_for_each (m : Mem) (head : Nat) : Nat → Nat → Option (List Nat)
  | 0, _ => none
  | fuel + 1, pos =>
    if pos = head then some []
    else (list_for_each m head fuel (m pos).next).map (pos :: ·)

def list_for_each_safe (gone : Nat → Bool) (head : Nat) :
    Nat → Mem → Nat → Nat → Option (Mem × List Nat)
  | 0, _, _, _ => none
  | fuel + 1, m, pos, n =>
    if pos = head then some (m, [])
    else
      let m := if gone pos then list_del m pos else m
      (list_for_each_safe gone head fuel m n (m n).next).map fun r => (r.1, pos :: r.2)

def On (m : Mem) (head : Nat) (row : List Nat) : Prop :=
  RingOf (fun a => (m a).next) (fun a => (m a).prev) head row

variable {m m' : Mem} {head new entry a : Nat} {row xs ys : List Nat}

@[simp] theorem nextSetNext (m : Mem) (a v b : Nat) :
    (setNext m a v b).next = if b = a then v else (m b).next := by
  rw [setNext, Function.update_apply]
  split <;> simp_all

@[simp] theorem prevSetNext (m : Mem) (a v b : Nat) : (setNext m a v b).prev = (m b).prev := by
  rw [setNext, Function.update_apply]
  split <;> simp_all

@[simp] theorem nextSetPrev (m : Mem) (a v b : Nat) : (setPrev m a v b).next = (m b).next := by
  rw [setPrev, Function.update_apply]
  split <;> simp_all

@[simp] theorem prevSetPrev (m : Mem) (a v b : Nat) :
    (setPrev m a v b).prev = if b = a then v else (m b).prev := by
  rw [setPrev, Function.update_apply]
  split <;> simp_all

theorem nextAdd (m : Mem) (new prev next c : Nat) : (__list_add m new prev next c).next =
    if c = prev then new else if c = new then next else (m c).next := by
  simp [__list_add]

theorem prevAdd (m : Mem) (new prev next c : Nat) : (__list_add m new prev next c).prev =
    if c = new then prev else if c = next then new else (m c).prev := by
  simp [__list_add]

theorem nextDel (m : Mem) (prev next c : Nat) :
    (__list_del m prev next c).next = if c = prev then next else (m c).next := by
  simp [__list_del]

theorem prevDel (m : Mem) (prev next c : Nat) :
    (__list_del m prev next c).prev = if c = next then prev else (m c).prev := by
  simp [__list_del]

theorem onInit (m : Mem) (head : Nat) : On (INIT_LIST_HEAD m head) head [] where
  once := List.nodup_singleton head
  forth := by simp [INIT_LIST_HEAD, PathOf]
  back := by simp [INIT_LIST_HEAD, PathOf]

theorem emptyIff (on : On m head row) : list_empty m head = true ↔ row = [] := by
  have first := on.first
  unfold list_empty
  rw [beq_iff_eq, first]
  cases row with
  | nil => simp
  | cons a row =>
    have apart : a ≠ head := fun same =>
      (List.nodup_cons.mp on.once).1 (same ▸ List.mem_cons_self)
    simp [apart]

theorem memLeft : xs.getLastD head ∈ head :: (xs ++ ys) :=
  List.mem_append_left ys (memLast head xs)

theorem memFirst : ys.headD head ∈ head :: (xs ++ ys) := by
  cases ys with
  | nil => exact List.mem_cons_self
  | cons y ys => exact List.mem_cons_of_mem _ (List.mem_append_right xs List.mem_cons_self)

theorem onAddBetween (on : On m head (xs ++ ys)) (free : new ∉ head :: (xs ++ ys)) :
    On (__list_add m new (xs.getLastD head) (ys.headD head)) head (xs ++ new :: ys) := by
  have left : new ≠ xs.getLastD head := fun same => free (same ▸ memLeft)
  have right : new ≠ ys.headD head := fun same => free (same ▸ memFirst)
  refine RingOf.insert on free ?_ ?_ ?_ ?_ ?_ ?_
  · rw [nextAdd, if_pos rfl]
  · rw [prevAdd, if_neg right.symm, if_pos rfl]
  · rw [nextAdd, if_neg left, if_pos rfl]
  · rw [prevAdd, if_pos rfl]
  · intro c member away
    rw [nextAdd, if_neg away, if_neg fun same : c = new => free (same ▸ member)]
  · intro c member away
    rw [prevAdd, if_neg fun same : c = new => free (same ▸ member), if_neg away]

theorem onDelBetween (on : On m head (xs ++ entry :: ys)) :
    On (__list_del m (m entry).prev (m entry).next) head (xs ++ ys) := by
  obtain ⟨next, prev⟩ := RingOf.neighbours on
  rw [next, prev]
  refine RingOf.remove on ?_ ?_ ?_ ?_
  · rw [nextDel, if_pos rfl]
  · rw [prevDel, if_pos rfl]
  · intro c _ away
    rw [nextDel, if_neg away]
  · intro c _ away
    rw [prevDel, if_neg away]

theorem onCongr (on : On m head row) (same : ∀ c ∈ head :: row, m' c = m c) : On m' head row :=
  on.congr fun c member => by rw [same c member]; exact ⟨rfl, rfl⟩

theorem addElsewhere {prev next c : Nat} (m : Mem) (new : c ≠ a) (left : c ≠ prev)
    (right : c ≠ next) : __list_add m a prev next c = m c := by
  simp [__list_add, setNext, setPrev, Function.update_of_ne, new, left, right]

theorem delElsewhere {prev next c : Nat} (m : Mem) (left : c ≠ prev) (right : c ≠ next) :
    __list_del m prev next c = m c := by
  simp [__list_del, setNext, setPrev, Function.update_of_ne, left, right]

/-! ## Many lists in one memory -/

abbrev Rows := Nat → Option (List Nat)

inductive Call where
  | INIT_LIST_HEAD (h : Nat)
  | list_add (new head : Nat)
  | list_add_tail (new head : Nat)
  | list_del (entry : Nat)
  | list_move (entry head : Nat)
  | list_move_tail (entry head : Nat)
  deriving DecidableEq, Repr

def exec (m : Mem) : Call → Mem
  | .INIT_LIST_HEAD h => INIT_LIST_HEAD m h
  | .list_add new head => list_add m new head
  | .list_add_tail new head => list_add_tail m new head
  | .list_del entry => list_del m entry
  | .list_move entry head => list_move m entry head
  | .list_move_tail entry head => list_move_tail m entry head

def without (rows : Rows) (entry : Nat) : Rows := fun h => (rows h).map fun row => row.erase entry

def edit (rows : Rows) (head : Nat) (f : List Nat → List Nat) : Rows :=
  fun h => if h = head then (rows h).map f else rows h

def effect (rows : Rows) : Call → Rows
  | .INIT_LIST_HEAD h => fun a => if a = h then some [] else rows a
  | .list_add new head => edit rows head (new :: ·)
  | .list_add_tail new head => edit rows head (· ++ [new])
  | .list_del entry => without rows entry
  | .list_move entry head => edit (without rows entry) head (entry :: ·)
  | .list_move_tail entry head => edit (without rows entry) head (· ++ [entry])

def Free (rows : Rows) (a : Nat) : Prop := ∀ h row, rows h = some row → a ∉ h :: row

def Listed (rows : Rows) (entry : Nat) : Prop := ∃ h row, rows h = some row ∧ entry ∈ row

/-- What the caller of a list function promises: a new node is in no list, an entry is. -/
def Proper (rows : Rows) : Call → Prop
  | .INIT_LIST_HEAD h => Free rows h
  | .list_add new head | .list_add_tail new head => Free rows new ∧ (rows head).isSome
  | .list_del entry => Listed rows entry
  | .list_move entry head | .list_move_tail entry head =>
    Listed rows entry ∧ (rows head).isSome

structure Holds (m : Mem) (rows : Rows) : Prop where
  on : ∀ h row, rows h = some row → On m h row
  apart : ∀ h row h' row' a, rows h = some row → rows h' = some row' → a ∈ h :: row →
    a ∈ h' :: row' → h = h'

variable {rows : Rows}

theorem holdsInit (holds : Holds m rows) (free : Free rows head) :
    Holds (INIT_LIST_HEAD m head) (effect rows (.INIT_LIST_HEAD head)) where
  on h row here := by
    dsimp only [effect] at here
    split at here
    next same =>
      cases here
      exact same ▸ onInit m head
    next other =>
      refine onCongr (holds.on h row here) fun c member => ?_
      have apart : c ≠ head := fun same => free h row here (same ▸ member)
      simp [INIT_LIST_HEAD, setNext, setPrev, Function.update_of_ne apart]
  apart h row h' row' a here there first second := by
    dsimp only [effect] at here there
    split at here <;> split at there
    next same same' => rw [same, same']
    next same other =>
      cases here
      rw [List.mem_singleton.mp first] at second
      exact absurd (same ▸ second) (free h' row' there)
    next other same =>
      cases there
      rw [List.mem_singleton.mp second] at first
      exact absurd (same ▸ first) (free h row here)
    next => exact holds.apart h row h' row' a here there first second

theorem holdsAdd (holds : Holds m rows) (free : Free rows new) (here : rows head = some (xs ++ ys))
    {f : List Nat → List Nat} (made : f (xs ++ ys) = xs ++ new :: ys) :
    Holds (__list_add m new (xs.getLastD head) (ys.headD head)) (edit rows head f) where
  on h row there := by
    unfold edit at there
    split at there
    next same =>
      subst same
      rw [here] at there
      cases there
      rw [made]
      exact onAddBetween (holds.on h _ here) (free h _ here)
    next other =>
      refine onCongr (holds.on h row there) fun c member => ?_
      have away : ∀ d ∈ head :: (xs ++ ys), c ≠ d := fun d inside same =>
        other (holds.apart h row head _ d there here (same ▸ member) inside)
      exact addElsewhere m (fun same => free h row there (same ▸ member)) (away _ memLeft)
        (away _ memFirst)
  apart h row h' row' a one two first second := by
    have old : ∀ h row, edit rows head f h = some row → a ∈ h :: row →
        ∃ row, rows h = some row ∧ (a ∈ h :: row ∨ h = head ∧ a = new) := by
      intro h row there member
      unfold edit at there
      split at there
      next same =>
        subst same
        rw [here] at there
        cases there
        rw [made] at member
        refine ⟨_, here, ?_⟩
        simp only [List.mem_cons, List.mem_append] at member ⊢
        tauto
      next => exact ⟨row, there, .inl member⟩
    obtain ⟨r, oneOld, first⟩ := old h row one first
    obtain ⟨r', twoOld, second⟩ := old h' row' two second
    rcases first with first | ⟨same, isNew⟩
    · rcases second with second | ⟨same', isNew⟩
      · exact holds.apart h r h' r' a oneOld twoOld first second
      · exact absurd (isNew ▸ first) (free h r oneOld)
    · rcases second with second | ⟨same', _⟩
      · exact absurd (isNew ▸ second) (free h' r' twoOld)
      · rw [same, same']

theorem withoutInv (there : without rows entry head = some row) :
    ∃ old, rows head = some old ∧ row = old.erase entry := by
  obtain ⟨old, found, made⟩ := Option.map_eq_some_iff.mp there
  exact ⟨old, found, made.symm⟩

theorem holdsDel (holds : Holds m rows) (listed : Listed rows entry) :
    Holds (__list_del m (m entry).prev (m entry).next) (without rows entry) ∧
      Free (without rows entry) entry := by
  obtain ⟨owner, all, here, member⟩ := listed
  have on := holds.on owner all here
  have own : ∀ h row, rows h = some row → entry ∈ h :: row → h = owner ∧ row = all := by
    intro h row there inside
    have same := holds.apart h row owner all entry there here inside
      (List.mem_cons_of_mem owner member)
    subst same
    exact ⟨rfl, Option.some.inj (there.symm.trans here)⟩
  have outside : entry ≠ owner := fun same =>
    (List.nodup_cons.mp on.once).1 (same ▸ member)
  constructor
  · constructor
    · intro h row there
      obtain ⟨old, found, rfl⟩ := withoutInv there
      by_cases same : h = owner
      · subst same
        obtain rfl := Option.some.inj (found.symm.trans here)
        obtain ⟨xs, ys, _, parts, rest⟩ := List.exists_erase_eq member
        rw [rest]
        rw [parts] at on
        exact onDelBetween on
      · have apart : entry ∉ h :: old := fun inside => same (own h old found inside).1
        rw [List.erase_of_not_mem fun inside => apart (List.mem_cons_of_mem h inside)]
        refine onCongr (holds.on h old found) fun c inside => ?_
        have away : ∀ d ∈ owner :: all, c ≠ d := fun d there' equal =>
          same (holds.apart h old owner all d found here (equal ▸ inside) there')
        obtain ⟨xs, ys, parts⟩ := List.append_of_mem member
        subst parts
        obtain ⟨next, prev⟩ := RingOf.neighbours on
        rw [next, prev]
        have kept := ((List.sublist_cons_self entry ys).append_left xs).cons_cons owner
        exact delElsewhere m (away _ memLeft) (away _ (kept.subset memFirst))
    · intro h row h' row' a one two first second
      obtain ⟨old, found, rfl⟩ := withoutInv one
      obtain ⟨old', found', rfl⟩ := withoutInv two
      exact holds.apart h old h' old' a found found'
        (List.cons_subset_cons h List.erase_subset first)
        (List.cons_subset_cons h' List.erase_subset second)
  · intro h row there inside
    obtain ⟨old, found, rfl⟩ := withoutInv there
    obtain ⟨rfl, rfl⟩ := own h old found (List.cons_subset_cons h List.erase_subset inside)
    rcases List.mem_cons.mp inside with same | inside
    · exact outside same
    · have once : old.Nodup := on.once.of_cons
      exact absurd inside once.not_mem_erase

theorem holdsFront (holds : Holds m rows) (free : Free rows new) (here : (rows head).isSome) :
    Holds (list_add m new head) (edit rows head (new :: ·)) := by
  obtain ⟨row, here⟩ := Option.isSome_iff_exists.mp here
  have first : (m head).next = row.headD head := (holds.on head row here).first
  have added := @holdsAdd _ _ _ [] _ _ holds free here (new :: ·) rfl
  rwa [← first] at added

theorem holdsTail (holds : Holds m rows) (free : Free rows new) (here : (rows head).isSome) :
    Holds (list_add_tail m new head) (edit rows head (· ++ [new])) := by
  obtain ⟨row, here⟩ := Option.isSome_iff_exists.mp here
  have last : (m head).prev = row.getLastD head := (holds.on head row here).last
  rw [← List.append_nil row] at here
  have added := holdsAdd holds free here (f := (· ++ [new])) (by simp)
  rwa [← last] at added

theorem freeCongr (free : Free rows a) (same : ∀ c ≠ a, m' c = m c) (holds : Holds m rows) :
    Holds m' rows where
  on h row here := onCongr (holds.on h row here) fun c member =>
    same c fun equal => free h row here (equal ▸ member)
  apart := holds.apart

theorem withoutSome (here : (rows head).isSome) : (without rows entry head).isSome := by
  unfold without
  rwa [Option.isSome_map]

theorem execHolds {c : Call} (holds : Holds m rows) (proper : Proper rows c) :
    Holds (exec m c) (effect rows c) := by
  cases c with
  | INIT_LIST_HEAD h => exact holdsInit holds proper
  | list_add new head => exact holdsFront holds proper.1 proper.2
  | list_add_tail new head => exact holdsTail holds proper.1 proper.2
  | list_del entry =>
    obtain ⟨gone, free⟩ := holdsDel holds proper
    refine freeCongr free (fun c other => ?_) gone
    exact (Function.update_of_ne other _ _).trans (Function.update_of_ne other _ _)
  | list_move entry head =>
    obtain ⟨gone, free⟩ := holdsDel holds proper.1
    exact holdsFront gone free (withoutSome proper.2)
  | list_move_tail entry head =>
    obtain ⟨gone, free⟩ := holdsDel holds proper.1
    exact holdsTail gone free (withoutSome proper.2)

/-! ## Walks -/

theorem walkPath {fuel : Nat} (path : PathOf (fun a => (m a).next) a row head)
    (others : head ∉ row) (enough : row.length < fuel) :
    list_for_each m head fuel (m a).next = some row := by
  induction row generalizing a fuel with
  | nil =>
    obtain ⟨fuel, rfl⟩ := Nat.exists_eq_add_of_lt enough
    exact if_pos path
  | cons x row ih =>
    obtain ⟨more, rfl⟩ := Nat.exists_eq_succ_of_ne_zero (Nat.ne_zero_of_lt enough)
    obtain ⟨first, later⟩ := path
    have other : x ≠ head := fun same => others (same ▸ List.mem_cons_self)
    have rest := ih later (fun member => others (List.mem_cons_of_mem x member))
      (Nat.lt_of_succ_lt_succ enough)
    rw [show (m a).next = x from first, list_for_each, if_neg other, rest]
    rfl

theorem eraseMiddle (once : (xs ++ a :: ys).Nodup) : (xs ++ a :: ys).erase a = xs ++ ys := by
  have apart : a ∉ xs := fun member =>
    (List.nodup_append.mp once).2.2 a member a List.mem_cons_self rfl
  rw [List.erase_append_right _ apart, List.erase_cons_head]

theorem sweepHolds (gone : Nat → Bool) (todo : List Nat) {fuel : Nat} {m : Mem} {rows : Rows}
    (done : List Nat) (holds : Holds m rows) (here : rows head = some (done ++ todo))
    (enough : todo.length < fuel) :
    ∃ m', list_for_each_safe gone head fuel m (todo.headD head) (m (todo.headD head)).next =
        some (m', todo) ∧ Holds m' ((todo.filter gone).foldl without rows) := by
  induction todo generalizing fuel m rows done with
  | nil =>
    obtain ⟨fuel, rfl⟩ := Nat.exists_eq_add_of_lt enough
    exact ⟨m, if_pos rfl, holds⟩
  | cons x todo ih =>
    obtain ⟨more, rfl⟩ := Nat.exists_eq_succ_of_ne_zero (Nat.ne_zero_of_lt enough)
    have on := holds.on head _ here
    have other : x ≠ head := fun same => (List.nodup_cons.mp on.once).1 (by simp [same])
    have next : (m x).next = todo.headD head := (RingOf.neighbours on).1
    have short := Nat.lt_of_succ_lt_succ enough
    rw [List.headD_cons, list_for_each_safe, if_neg other, next]
    cases named : gone x with
    | false =>
      rw [← List.singleton_append, ← List.append_assoc] at here
      obtain ⟨m', ran, after⟩ := ih _ holds here short
      refine ⟨m', ?_, ?_⟩
      · dsimp only
        rw [if_neg Bool.false_ne_true, ran]
        rfl
      · rwa [List.filter_cons, named, if_neg Bool.false_ne_true]
    | true =>
      have listed : Listed rows x := ⟨head, _, here, by simp⟩
      have after : Holds (list_del m x) (without rows x) := execHolds (c := .list_del x) holds listed
      have left : without rows x head = some (done ++ todo) := by
        unfold without
        rw [here, Option.map_some, eraseMiddle on.once.of_cons]
      obtain ⟨m', ran, after⟩ := ih _ after left short
      refine ⟨m', ?_, ?_⟩
      · dsimp only
        rw [if_pos rfl, ran]
        rfl
      · rwa [List.filter_cons, named, if_pos rfl]

theorem withoutAll (xs : List Nat) (rows : Rows) (h : Nat) :
    xs.foldl without rows h = (rows h).map (·.diff xs) := by
  induction xs generalizing rows with
  | nil => simp
  | cons x xs ih =>
    rw [List.foldl_cons, ih, without, Option.map_map]
    congr 1
    funext row
    exact (List.diff_cons row xs x).symm

theorem sweepRows {gone : Nat → Bool} (holds : Holds m rows) (here : rows head = some row) :
    (row.filter gone).foldl without rows =
      fun h => if h = head then some (row.filter fun a => !gone a) else rows h := by
  funext h
  rw [withoutAll]
  split
  next same =>
    rw [same, here, Option.map_some]
    have once : row.Nodup := (holds.on head row here).once.of_cons
    rw [once.sdiff_eq_filter]
    congr 1
    refine List.filter_congr fun a member => ?_
    simp [member]
  next other =>
    cases there : rows h with
    | none => rfl
    | some old =>
      have apart : ∀ a ∈ old, a ∉ row.filter gone := fun a member swept =>
        other (holds.apart h old head row a there here (List.mem_cons_of_mem h member)
          (List.mem_cons_of_mem head (List.mem_of_mem_filter swept)))
      have once : old.Nodup := (holds.on h old there).once.of_cons
      rw [Option.map_some, once.sdiff_eq_filter]
      congr 1
      refine List.filter_eq_self.mpr fun a member => ?_
      simpa [imp_iff_not_or] using apart a member

/-! ## Main results -/

def step (s : Mem × Rows) (c : Call) : Option (Mem × Rows) := some (exec s.1 c, effect s.2 c)

def noRows : Rows := fun _ => none

theorem runHolds {calls : List Call} {s t : Mem × Rows} (holds : Holds s.1 s.2)
    (proper : Run.Meets step (fun s c => Proper s.2 c) s calls)
    (ran : Run.run step s calls = some t) : Holds t.1 t.2 :=
  Run.invariantMeets (P := fun s => Holds s.1 s.2) (fun _ _ _ holds proper stepped => by
    cases stepped
    exact execHolds holds proper) holds proper ran

theorem startHolds (m : Mem) : Holds m noRows where
  on _ _ here := nomatch here
  apart _ _ _ _ _ here := nomatch here

def sampleCalls : List Call := [.INIT_LIST_HEAD 1, .list_add_tail 2 1, .list_add_tail 3 1]

theorem sampleProper :
    Run.Meets step (fun s c => Proper s.2 c) (fun _ => ⟨7, 7⟩, noRows) sampleCalls := by
  constructor
  · intro h row here
    exact nomatch here
  rintro _ ⟨⟩
  refine ⟨⟨fun h row here => ?_, rfl⟩, ?_⟩
  · simp only [effect, noRows] at here
    grind
  rintro _ ⟨⟩
  refine ⟨⟨fun h row here => ?_, rfl⟩, fun _ _ => trivial⟩
  simp only [effect, edit, noRows] at here
  grind

/-- Whatever the memory was and however the calls on its lists are interleaved, each list
reads forth and back as the plain list that its calls made. -/
theorem listsStand {calls : List Call} {m : Mem} {t : Mem × Rows}
    (proper : Run.Meets step (fun s c => Proper s.2 c) (m, noRows) calls)
    (ran : Run.run step (m, noRows) calls = some t) (here : t.2 head = some row)
    {fuel : Nat} (enough : row.length < fuel) :
    list_for_each t.1 head fuel (t.1 head).next = some row ∧
      PathOf (fun a => (t.1 a).prev) head row.reverse head ∧
      (list_empty t.1 head = true ↔ row = []) := by
  have on := (runHolds (startHolds m) proper ran).on head row here
  exact ⟨walkPath on.forth (List.nodup_cons.mp on.once).1 enough, on.back, emptyIff on⟩

theorem listsStandTwo : ∃ t, Run.run step (fun _ => ⟨7, 7⟩, noRows) sampleCalls = some t ∧
    list_for_each t.1 1 3 (t.1 1).next = some [2, 3] :=
  ⟨_, rfl, (listsStand sampleProper rfl rfl (by decide)).1⟩

/-- A loop that deletes the entries it is at visits all of them and leaves the others, in
their order, and every other list as it was. -/
theorem safeWalkDeletes {calls : List Call} {m : Mem} {t : Mem × Rows}
    (proper : Run.Meets step (fun s c => Proper s.2 c) (m, noRows) calls)
    (ran : Run.run step (m, noRows) calls = some t) (here : t.2 head = some row)
    (gone : Nat → Bool) {fuel : Nat} (enough : row.length < fuel) :
    ∃ m', list_for_each_safe gone head fuel t.1 (t.1 head).next (t.1 (t.1 head).next).next =
        some (m', row) ∧
      Holds m' fun h => if h = head then some (row.filter fun a => !gone a) else t.2 h := by
  have holds := runHolds (startHolds m) proper ran
  have first : (t.1 head).next = row.headD head := (holds.on head row here).first
  obtain ⟨m', walked, after⟩ := sweepHolds gone row [] holds here enough
  rw [sweepRows holds here] at after
  rw [first]
  exact ⟨m', walked, after⟩

theorem safeWalkDeletesTwo : ∃ t, Run.run step (fun _ => ⟨7, 7⟩, noRows) sampleCalls = some t ∧
    ∃ m', list_for_each_safe (· == 2) 1 3 t.1 (t.1 1).next (t.1 (t.1 1).next).next =
        some (m', [2, 3]) ∧
      Holds m' fun h => if h = 1 then some [3] else t.2 h :=
  ⟨_, rfl, safeWalkDeletes sampleProper rfl rfl (· == 2) (by decide)⟩

end Scepter.ListHead
