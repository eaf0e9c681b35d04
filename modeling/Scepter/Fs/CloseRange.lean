import Scepter.Fs.Descriptors
import Scepter.Kernel.Errno

/-! close_range (fs/vfs.c, kernel/syscall_new.c) as the walk over the list that it is.
The bounds are unsigned in the call and int in the comparison. The position is an index
into the table as it is at that moment: fs_close takes out the first entry with the
number, which is not behind the position, and so the entry saved as the next one has
the index of the entry it was called for. -/
namespace Scepter.Descriptors
open OpenFiles (FdEntry)

def entries (s : State) (t : Nat) : List FdEntry :=
  match s.tasks[t]? with
  | none => []
  | some task => task.files

def asked (first last : Int) (e : FdEntry) : Bool := first ≤ e.fd ∧ e.fd ≤ last

def closeRangeLoop (first last : Int) (t : Nat) : Nat → State → Nat → Nat → State × Nat
  | 0, s, _, closed => (s, closed)
  | left + 1, s, i, closed =>
    match (entries s t)[i]? with
    | none => (s, closed)
    | some e =>
      if asked first last e then closeRangeLoop first last t left (fsClose s t e.fd) i (closed + 1)
      else closeRangeLoop first last t left s (i + 1) closed

/-- The casts of both bounds to int are `toInt`. -/
def closeRange (s : State) (t : Nat) (first last : BitVec 32) : State × Nat :=
  closeRangeLoop first.toInt last.toInt t (entries s t).length s 0 0

def sysCloseRange (s : State) (t : Nat) (first last : BitVec 32) : State × Int :=
  if first > last then (s, -EINVAL)
  else
    let (s, closed) := closeRange s t first last
    (s, closed)

variable {s : State} {t : Nat} {e : FdEntry} {first last : Int}

theorem entriesClose (fd : Int) :
    entries (fsClose s t fd) t = (entries s t).eraseP fun e => e.fd = fd := by
  unfold entries
  cases here : s.tasks[t]? with
  | none =>
    unfold fsClose
    rw [here]
    dsimp only
    rw [here]
    rfl
  | some task => rw [closeHere here]

theorem othersClose {other : Nat} (differ : other ≠ t) (fd : Int) :
    (fsClose s t fd).tasks[other]? = s.tasks[other]? := by
  unfold fsClose
  split
  · rfl
  · split
    · rfl
    · dsimp only [openFilePut, setFile]
      rw [List.getElem?_modify_ne _ _ (Ne.symm differ)]

theorem othersCloseAll {other : Nat} (differ : other ≠ t) (fds : List Int) :
    (closeAll s t fds).tasks[other]? = s.tasks[other]? := by
  unfold closeAll
  induction fds generalizing s with
  | nil => rfl
  | cons fd fds ih => exact ih.trans (othersClose differ fd)

theorem erasedHere {passed rest : List FdEntry} (before : ∀ e ∈ passed, asked first last e = false)
    (hit : asked first last e = true) :
    ((passed ++ e :: rest).eraseP fun e' => e'.fd = e.fd) = passed ++ rest := by
  rw [List.eraseP_append_right _ fun e' member same => ?_]
  · rw [List.eraseP_cons_of_pos (by simp)]
  · have number : e'.fd = e.fd := by simpa using same
    have outside := before e' member
    unfold asked at outside hit
    rw [number, hit] at outside
    cases outside

theorem closeRangeLoopSpec {passed rest : List FdEntry} (closed : Nat)
    (here : entries s t = passed ++ rest) (before : ∀ e ∈ passed, asked first last e = false) :
    let ran := closeRangeLoop first last t rest.length s passed.length closed
    ran.1 = closeAll s t ((rest.filter (asked first last)).map FdEntry.fd) ∧
      entries ran.1 t = passed ++ rest.filter (fun e => !asked first last e) ∧
      ran.2 = closed + rest.countP (asked first last) := by
  induction rest generalizing s passed closed with
  | nil => exact ⟨rfl, here, rfl⟩
  | cons e rest ih =>
    have found : (entries s t)[passed.length]? = some e := by
      rw [here, List.getElem?_append_right (Nat.le_refl _), Nat.sub_self]
      rfl
    have unfolded : closeRangeLoop first last t (e :: rest).length s passed.length closed =
        if asked first last e then
          closeRangeLoop first last t rest.length (fsClose s t e.fd) passed.length (closed + 1)
        else closeRangeLoop first last t rest.length s (passed.length + 1) closed := by
      rw [List.length_cons, closeRangeLoop, found]
    dsimp only
    rw [unfolded]
    cases hit : asked first last e with
    | true =>
      have after : entries (fsClose s t e.fd) t = passed ++ rest := by
        rw [entriesClose, here, erasedHere before hit]
      obtain ⟨closes, kept, count⟩ := ih (closed + 1) after before
      rw [if_pos rfl, List.filter_cons_of_pos hit, List.filter_cons_of_neg (by simp [hit]),
        List.countP_cons_of_pos hit]
      exact ⟨closes, kept, by omega⟩
    | false =>
      have after : entries s t = (passed ++ [e]) ++ rest := by rw [here]; simp
      have before' : ∀ e' ∈ passed ++ [e], asked first last e' = false := by
        intro e' member
        rcases List.mem_append.mp member with old | new
        · exact before e' old
        · exact List.mem_singleton.mp new ▸ hit
      have next := ih closed after before'
      rw [List.length_append, List.length_singleton] at next
      obtain ⟨closes, kept, count⟩ := next
      rw [if_neg (by decide), List.filter_cons_of_neg (by simp [hit]),
        List.filter_cons_of_pos (by simp [hit]), List.countP_cons_of_neg (by simp [hit])]
      exact ⟨closes, by rw [kept, List.append_assoc]; rfl, count⟩

theorem closeRangeSpec (s : State) (t : Nat) (first last : BitVec 32) :
    let ran := closeRange s t first last
    ran.1 = closeAll s t (((entries s t).filter (asked first.toInt last.toInt)).map FdEntry.fd) ∧
      entries ran.1 t = (entries s t).filter (fun e => !asked first.toInt last.toInt e) ∧
      ran.2 = (entries s t).countP (asked first.toInt last.toInt) := by
  obtain ⟨closes, kept, count⟩ := @closeRangeLoopSpec s t first.toInt last.toInt []
    (entries s t) 0 rfl (List.forall_mem_nil _)
  exact ⟨closes, kept, by rw [← Nat.zero_add (List.countP _ _)]; exact count⟩

/-- Of the task's descriptors those numbered from `first` to `last` are gone and the others
are as they were, and so are those of every other task. -/
structure ClosesExactly (s s' : State) (t : Nat) (first last : BitVec 32) : Prop where
  table : entries s' t =
    (entries s t).filter fun e => !decide ((first.toNat : Int) ≤ e.fd ∧ e.fd ≤ (last.toNat : Int))
  others : ∀ other, other ≠ t → s'.tasks[other]? = s.tasks[other]?

theorem filterSame {α : Type} {l : List α} {p q : α → Bool} :
    (l.filter fun a => !p a) = (l.filter fun a => !q a) ↔ ∀ a ∈ l, p a = q a := by
  constructor
  · intro same a member
    have both : a ∈ (l.filter fun a => !p a) ↔ a ∈ (l.filter fun a => !q a) := by rw [same]
    simp only [List.mem_filter, member, true_and] at both
    cases one : p a <;> cases other : q a <;> simp_all
  · intro same
    refine List.filter_congr fun a member => ?_
    rw [same a member]

theorem closesExactlyIff (s : State) (t : Nat) (first last : BitVec 32) :
    ClosesExactly s (closeRange s t first last).1 t first last ↔
      ∀ e ∈ entries s t, (first.toInt ≤ e.fd ∧ e.fd ≤ last.toInt) ↔
        ((first.toNat : Int) ≤ e.fd ∧ e.fd ≤ last.toNat) := by
  obtain ⟨closes, kept, _⟩ := closeRangeSpec s t first last
  have table : entries (closeRange s t first last).1 t =
      ((entries s t).filter fun e => !decide ((first.toNat : Int) ≤ e.fd ∧ e.fd ≤ (last.toNat : Int))) ↔
        ∀ e ∈ entries s t, asked first.toInt last.toInt e =
          decide ((first.toNat : Int) ≤ e.fd ∧ e.fd ≤ last.toNat) := by
    rw [kept]
    exact filterSame
  constructor
  · intro exact' e member
    exact decide_eq_decide.mp (table.mp exact'.table e member)
  · intro agree
    refine ⟨table.mpr fun e member => decide_eq_decide.mpr (agree e member), fun other differ => ?_⟩
    rw [closes]
    exact othersCloseAll differ _

/-- No open descriptor has a number from `first` to `last`, nor, where both are past INT_MAX,
one of the negative numbers that the casts make of them. -/
def NoneAsked (s : State) (t : Nat) (first last : BitVec 32) : Prop :=
  ∀ e ∈ entries s t, ¬ ((first.toNat : Int) ≤ e.fd ∧ e.fd ≤ last.toNat) ∧
    (2 ^ 31 ≤ first.toNat → ¬ ((first.toNat : Int) - 2 ^ 32 ≤ e.fd ∧ e.fd ≤ last.toNat - 2 ^ 32))

theorem boundsAgree {f l : Nat} {n fi li : Int} (order : f ≤ l) (high : l < 2 ^ 32)
    (castFirst : fi = if f < 2 ^ 31 then (f : Int) else (f : Int) - 2 ^ 32)
    (castLast : li = if l < 2 ^ 31 then (l : Int) else (l : Int) - 2 ^ 32) :
    ((fi ≤ n ∧ n ≤ li) ↔ ((f : Int) ≤ n ∧ n ≤ l)) ↔
      l < 2 ^ 31 ∨ ¬ ((f : Int) ≤ n ∧ n ≤ l) ∧
        (2 ^ 31 ≤ f → ¬ ((f : Int) - 2 ^ 32 ≤ n ∧ n ≤ l - 2 ^ 32)) := by
  by_cases small : l < 2 ^ 31
  · rw [if_pos (by omega)] at castFirst
    rw [if_pos small] at castLast
    subst castFirst castLast
    simp only [small, true_or]
  · rw [if_neg small] at castLast
    by_cases low : f < 2 ^ 31
    · rw [if_pos low] at castFirst
      subst castFirst castLast
      omega
    · rw [if_neg low] at castFirst
      subst castFirst castLast
      omega

theorem toIntCast (n : BitVec 32) :
    n.toInt = if n.toNat < 2 ^ 31 then (n.toNat : Int) else (n.toNat : Int) - 2 ^ 32 := by
  rw [BitVec.toInt_eq_toNat_cond]
  have bound := n.isLt
  split <;> split <;> omega

theorem closeRangeExactIff (s : State) (t : Nat) (first last : BitVec 32) (order : first ≤ last) :
    ClosesExactly s (sysCloseRange s t first last).1 t first last ↔
      last.toNat < 2 ^ 31 ∨ NoneAsked s t first last := by
  have passes : (sysCloseRange s t first last).1 = (closeRange s t first last).1 := by
    unfold sysCloseRange
    rw [if_neg (BitVec.not_lt.mpr order)]
  rw [passes, closesExactlyIff]
  have each : ∀ e : FdEntry, ((first.toInt ≤ e.fd ∧ e.fd ≤ last.toInt) ↔
      ((first.toNat : Int) ≤ e.fd ∧ e.fd ≤ last.toNat)) ↔ _ := fun e =>
    @boundsAgree _ _ e.fd _ _ (BitVec.le_def.mp order) last.isLt (toIntCast first) (toIntCast last)
  constructor
  · intro agree
    by_cases small : last.toNat < 2 ^ 31
    · exact .inl small
    · exact .inr fun e member => ((each e).mp (agree e member)).resolve_left small
  · rintro (small | none) e member
    · exact (each e).mpr (.inl small)
    · exact (each e).mpr (.inr (none e member))

def fiveOpen : State :=
  ⟨fun _ => ⟨1, 0⟩, 5, [⟨[⟨0, 0, false⟩, ⟨1, 1, false⟩, ⟨2, 2, false⟩, ⟨3, 3, false⟩, ⟨4, 4, false⟩],
    5, none, false⟩], false⟩

theorem closeRangeThreeFour :
    ClosesExactly fiveOpen (sysCloseRange fiveOpen 0 3 4).1 0 3 4 :=
  (closeRangeExactIff fiveOpen 0 3 4 (by decide)).mpr (.inl (by decide))

/- close_range(3, ~0U): descriptor 3 is in the range and stays open. -/
theorem closeRangeAllFromThree :
    ¬ ClosesExactly fiveOpen (sysCloseRange fiveOpen 0 3 0xFFFFFFFF).1 0 3 0xFFFFFFFF := by
  intro exact'
  have lengths := congrArg List.length exact'.table
  revert lengths
  decide

end Scepter.Descriptors
