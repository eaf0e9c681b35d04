import Scepter.Fs.Locks

/-! The two fcntl record-lock calls side by side (fs/locks.c). F_SETLK leaves a process
one lock on an open file, whatever ranges it had; F_GETLK asks rec_conflict about a
write lock, whatever type the caller asks about. -/
namespace Scepter.Locks
open OpenFiles Run

/-! ## What F_SETLK leaves -/

/- The records a request puts in place of the caller's: the one asked for, or none for
an unlock. No other l_type is a request. -/
def lockAsked (s : State) (task : Task) (file : Nat) (flk : FlockK) (size : BitVec 32) :
    Option (List FlockRec) :=
  if flk.lType = F_UNLCK then some []
  else (recTypeOf flk.lType).map fun type =>
    [⟨type, lockStart (s.files file) flk size, flk.lLen, task.pid⟩]

/- A granted call has put `new` in place of all the owner's records on the open file,
and one that is refused, interrupted or asleep has changed no open file. Nothing is
said of a call that was out of memory. -/
structure Replaces (s : State) (file owner : Nat) (new : List FlockRec)
    (result : State × Option Int) : Prop where
  granted : result.2 = some 0 → result.1.files = Function.update s.files file
    {s.files file with locks := (recRemoveOwner (s.files file) owner).locks ++ new}
  refused : result.2 ≠ some 0 → result.2 ≠ some (-ENOMEM) → result.1.files = s.files

theorem refusedReplaces {s u : State} {ret : Option Int} (file owner : Nat)
    (new : List FlockRec) (refused : ret ≠ some 0) (same : u.files = s.files) :
    Replaces s file owner new (u, ret) :=
  ⟨fun zero => absurd zero refused, fun _ _ => same⟩

theorem setlkPassReplaces (s : State) (t : Nat) (task : Task) (file : Nat) (type : RecType)
    (start len : BitVec 32) (waits allocFails : Bool) :
    Replaces s file task.pid [⟨type, start, len, task.pid⟩]
      (setlkPass s t task file type start len waits allocFails) := by
  unfold setlkPass
  dsimp only
  split
  · split
    · have failed : some (-ENOMEM) ≠ some 0 := by decide
      exact ⟨fun zero => absurd zero failed, fun _ noMem => absurd rfl noMem⟩
    · exact ⟨fun _ => rfl, fun refused => absurd rfl refused⟩
  · split
    · exact refusedReplaces _ _ _ (by decide) rfl
    · exact refusedReplaces _ _ _ (by decide) rfl

theorem resumeReplaces (s : State) (t : Nat) (task : Task) (file : Nat) (type : RecType)
    (start len : BitVec 32) (pending allocFails : Bool) :
    Replaces s file task.pid [⟨type, start, len, task.pid⟩]
      (resumeLock s t task (.setlk file type start len) pending allocFails) := by
  unfold resumeLock
  cases pending with
  | true => exact refusedReplaces _ _ _ (by decide) rfl
  | false => exact setlkPassReplaces s t task file type start len true allocFails

theorem unlockReplaces (s : State) (file owner : Nat) :
    Replaces s file owner []
      (wakeLocks (setOpen s file (recRemoveOwner (s.files file) owner)), some 0) := by
  refine ⟨fun _ => ?_, fun refused => absurd rfl refused⟩
  simp only [wakeLocks, setOpen, List.append_nil]
  rfl

/-- One lock per owner: a request that is granted, at once or after waiting, replaces
all the caller's locks on the open file, and one that is refused changes none. -/
theorem setlkReplaces {s : State} {t : Nat} {task : Task} {fd cmd : Int} {file : Nat}
    (found : findOpenFile task fd = some file) (set : cmd = F_SETLK ∨ cmd = F_SETLKW)
    (flk : FlockK) (size : BitVec 32) (allocFails : Bool) :
    (match lockAsked s task file flk size with
      | some new => Replaces s file task.pid new (fsFcntlLock s t task fd cmd flk size allocFails).1
      | none => (fsFcntlLock s t task fd cmd flk size allocFails).1 = (s, some (-EINVAL))) ∧
    ∀ type start len pending, Replaces s file task.pid [⟨type, start, len, task.pid⟩]
      (resumeLock s t task (.setlk file type start len) pending allocFails) := by
  refine ⟨?_, fun type start len pending =>
    resumeReplaces s t task file type start len pending allocFails⟩
  simp only [fsFcntlLock, found, if_pos set, lockAsked]
  by_cases unlock : flk.lType = F_UNLCK
  · simp only [if_pos unlock]
    exact unlockReplaces s file task.pid
  · simp only [if_neg unlock]
    cases typed : recTypeOf flk.lType with
    | none => rfl
    | some type => exact setlkPassReplaces ..

def readLock (lStart lLen : BitVec 32) : FlockK := ⟨F_RDLCK, 0, lStart, lLen, 0⟩
def unlock (lStart lLen : BitVec 32) : FlockK := ⟨F_UNLCK, 0, lStart, lLen, 0⟩

-- One process with a write lock on the first 200 bytes of a file.
def lockFirst : List Action :=
  [.open 0 3 hammer, .fcntl 0 3 F_SETLK (writeLock 0 200) 0 false]

def locker : Task := ⟨1, [⟨3, 0, false⟩], .ready⟩

def lockedFirst : State := (run step (start 1) lockFirst).getD (start 1)

theorem lockFirstReplaced :
    run step (start 1) lockFirst = some lockedFirst ∧
      (lockedFirst.files 0).locks = [⟨.wrlck, 0, 200, 1⟩] ∧
      ((fsFcntlLock lockedFirst 0 locker 3 F_SETLK (readLock 50 10) 0 false).1.1.files 0).locks =
        [⟨.rdlck, 50, 10, 1⟩] := by
  refine ⟨rfl, rfl, ?_⟩
  have replaces : Replaces lockedFirst 0 1 [⟨.rdlck, 50, 10, 1⟩]
      (fsFcntlLock lockedFirst 0 locker 3 F_SETLK (readLock 50 10) 0 false).1 :=
    (@setlkReplaces lockedFirst 0 locker 3 F_SETLK 0 rfl (.inl rfl) (readLock 50 10) 0 false).1
  rw [replaces.granted rfl]
  rfl

-- The owner has a lock of the type on the byte.
def HasLock (locks : List FlockRec) (owner : Nat) (type : RecType) (b : Nat) : Prop :=
  ∃ r ∈ locks, r.owner = owner ∧ r.type = type ∧ covers r.start r.len b

/-- An unlock of the first ten bytes loses the lock on byte 100. -/
theorem unlockDropsRest :
    run step (start 1) lockFirst = some lockedFirst ∧
      (fsFcntlLock lockedFirst 0 locker 3 F_SETLK (unlock 0 10) 0 false).1.2 = some 0 ∧
      ¬ covers 0 10 100 ∧ HasLock (lockedFirst.files 0).locks 1 .wrlck 100 ∧
      ¬ HasLock ((fsFcntlLock lockedFirst 0 locker 3 F_SETLK (unlock 0 10) 0 false).1.1.files
        0).locks 1 .wrlck 100 := by
  refine ⟨rfl, rfl, ?_, ⟨⟨.wrlck, 0, 200, 1⟩, List.mem_cons_self, rfl, rfl, ?_⟩, ?_⟩
  · rintro ⟨-, -, zero | inside⟩
    · exact absurd zero (by decide)
    · exact absurd inside (by decide)
  · exact ⟨by decide, by decide, .inr (by decide)⟩
  · rintro ⟨r, member, -⟩
    cases member

/-! ## What F_GETLK reports -/

-- The records rec_conflict looks at, in its order.
def recordsMet (s : State) (file : Nat) : List FlockRec :=
  (allEntries s).flatMap fun e =>
    if e.file = file ∨ sameFile (s.files file) (s.files e.file) = false then []
    else (s.files e.file).locks

def firstOther (s : State) (file : Nat) (start len : BitVec 32) (owner : Nat) : Option FlockRec :=
  (recordsMet s file).find? fun rec => rec.owner ≠ owner ∧ rangesOverlap start len rec.start rec.len

def Alive (s : State) (pid : Nat) : Prop := ∃ task ∈ s.tasks, task.pid = pid ∧ task.phase ≠ .exited

/- The answer of F_GETLK beside what F_SETLK of the same parameters returns: `set`. A
lock that is reported is on the same file, conflicts with the request and has a living
owner. -/
structure GetlkAgrees (s : State) (file : Nat) (wanted : FlockRec) (out : FlockK)
    (set : Option Int) : Prop where
  unlocked : out.lType = F_UNLCK ↔ set ≠ some (-EAGAIN)
  reported : out.lType ≠ F_UNLCK → ∃ g r, out = ⟨lTypeOf r.type, 0, r.start, r.len, r.owner⟩ ∧
    RecClash s file wanted g r ∧ Alive s r.owner

theorem lTypeOfInj {a b : RecType} (same : lTypeOf a = lTypeOf b) : a = b := by
  cases a <;> cases b <;> first | rfl | exact absurd same (by decide)

theorem recConflictMet (s : State) (file : Nat) (type : RecType) (start len : BitVec 32)
    (owner : Nat) :
    recConflict s file type start len owner =
      (recordsMet s file).find? fun rec =>
        rec.owner ≠ owner ∧ rangesOverlap start len rec.start rec.len ∧
          (type = .wrlck ∨ rec.type = .wrlck) := by
  unfold recConflict recordsMet
  rw [List.find?_flatMap]
  congr 1
  funext e
  split <;> rfl

theorem recConflictWrite (s : State) (file : Nat) (start len : BitVec 32) (owner : Nat) :
    recConflict s file .wrlck start len owner = firstOther s file start len owner := by
  rw [recConflictMet]
  simp only [firstOther, true_or, and_true]

theorem overlapByte {aStart aLen bStart bLen : BitVec 32}
    (overlap : rangesOverlap aStart aLen bStart bLen = true) :
    ∃ b, covers aStart aLen b ∧ covers bStart bLen b := by
  have ends (start len : BitVec 32) (x : Nat) (before : x < (rangeEnd start len).toNat) :
      len = 0 ∨ x < start.toNat + len.toNat := by
    unfold rangeEnd at before
    split at before
    · rw [BitVec.toNat_add] at before
      exact .inr (Nat.lt_of_lt_of_le before (Nat.mod_le _ _))
    · rename_i zero
      exact .inl (not_not.mp zero)
  have own (start len : BitVec 32) : len = 0 ∨ start.toNat < start.toNat + len.toNat := by
    rcases Nat.eq_zero_or_pos len.toNat with zero | some
    · exact .inl (BitVec.eq_of_toNat_eq zero)
    · exact .inr (by omega)
  unfold rangesOverlap at overlap
  split at overlap
  · cases overlap
  split at overlap
  · cases overlap
  rename_i first second
  rw [BitVec.le_def, Nat.not_le] at first second
  rcases Nat.le_total aStart.toNat bStart.toNat with order | order
  · exact ⟨bStart.toNat, ⟨order, bStart.isLt, ends _ _ _ second⟩,
      ⟨Nat.le_refl _, bStart.isLt, own _ _⟩⟩
  · exact ⟨aStart.toNat, ⟨Nat.le_refl _, aStart.isLt, own _ _⟩,
      ⟨order, aStart.isLt, ends _ _ _ first⟩⟩

section Query

variable {s : State} {t : Nat} {task : Task} {fd : Int} {file : Nat} {type : RecType}
  (found : findOpenFile task fd = some file)
include found

theorem setlkCall (flk : FlockK) (typed : recTypeOf flk.lType = some type)
    (size : BitVec 32) (allocFails : Bool) :
    (fsFcntlLock s t task fd F_SETLK flk size allocFails).1 =
      setlkPass s t task file type (lockStart (s.files file) flk size) flk.lLen false allocFails := by
  have lock : flk.lType ≠ F_UNLCK := by
    intro unlock
    rw [unlock] at typed
    cases typed
  unfold fsFcntlLock
  rw [found]
  dsimp only
  rw [if_pos (.inl rfl), if_neg lock, typed]
  rfl

theorem setlkRefused (flk : FlockK) (typed : recTypeOf flk.lType = some type)
    (size : BitVec 32) (allocFails : Bool) :
    (fsFcntlLock s t task fd F_SETLK flk size allocFails).1.2 ≠ some (-EAGAIN) ↔
      recConflict s file type (lockStart (s.files file) flk size) flk.lLen task.pid = none := by
  have noMem : some (-ENOMEM) ≠ some (-EAGAIN) := by decide
  have zero : some (0 : Int) ≠ some (-EAGAIN) := by decide
  rw [setlkCall found flk typed]
  unfold setlkPass
  dsimp only
  split <;> rename_i conflict
  · simp only [conflict, iff_true]
    split
    · exact noMem
    · exact zero
  · simp [conflict]

theorem getlkAnswer (flk : FlockK) (size : BitVec 32) (allocFails : Bool) :
    (fsFcntlLock s t task fd F_GETLK flk size allocFails).2 =
      match firstOther s file (lockStart (s.files file) flk size) flk.lLen task.pid with
      | some rec => ⟨lTypeOf rec.type, 0, rec.start, rec.len, rec.owner⟩
      | none => ⟨F_UNLCK, 0, lockStart (s.files file) flk size, flk.lLen, 0⟩ := by
  have set : ¬ (F_GETLK = F_SETLK ∨ F_GETLK = F_SETLKW) := by decide
  unfold fsFcntlLock
  rw [found]
  dsimp only
  rw [if_neg set, if_pos rfl]
  unfold getlkOut
  split <;> rename_i met <;> rw [recConflictWrite] at met <;> rw [met]

/-- The query and the request agree exactly as long as the first lock of another process
on the range, if there is one, is a write lock or asked about for writing, is on that
very file and has an owner that lives. -/
theorem getlkAgreesIff (flk : FlockK) (typed : recTypeOf flk.lType = some type)
    (size : BitVec 32) (allocFails : Bool) :
    GetlkAgrees s file ⟨type, lockStart (s.files file) flk size, flk.lLen, task.pid⟩
        (fsFcntlLock s t task fd F_GETLK flk size allocFails).2
        (fsFcntlLock s t task fd F_SETLK flk size allocFails).1.2 ↔
      ∀ r, firstOther s file (lockStart (s.files file) flk size) flk.lLen task.pid = some r →
        (type = .wrlck ∨ r.type = .wrlck) ∧ Alive s r.owner ∧
          ∃ g, fileId (s.files g) = fileId (s.files file) ∧ r ∈ (s.files g).locks := by
  have answer := @getlkAnswer s t task fd file found flk size allocFails
  have refused := @setlkRefused s t task fd file type found flk typed size allocFails
  generalize (fsFcntlLock s t task fd F_GETLK flk size allocFails).2 = out at answer ⊢
  generalize (fsFcntlLock s t task fd F_SETLK flk size allocFails).1.2 = set at refused ⊢
  generalize lockStart (s.files file) flk size = start at answer refused ⊢
  have isLock (type : RecType) : lTypeOf type ≠ F_UNLCK := by cases type <;> decide
  have conflict := recConflictMet s file type start flk.lLen task.pid
  cases first : firstOther s file start flk.lLen task.pid with
  | none =>
    rw [first] at answer
    have free : set ≠ some (-EAGAIN) := by
      rw [refused, conflict, List.find?_eq_none]
      intro rec member clash
      have missed := List.find?_eq_none.mp first rec member
      simp only [decide_eq_true_eq] at missed clash
      exact missed ⟨clash.1, clash.2.1⟩
    subst answer
    simp only [reduceCtorEq, false_implies, implies_true, iff_true]
    exact ⟨⟨fun _ => free, fun _ => rfl⟩, fun lock => absurd rfl lock⟩
  | some r =>
    rw [first] at answer
    subst answer
    constructor
    · rintro agrees q same
      cases same
      obtain ⟨g, q, same, clash, alive⟩ := agrees.reported (isLock r.type)
      have reported : r = q := by
        cases r
        cases q
        simp only [FlockK.mk.injEq, true_and] at same
        obtain ⟨types, rfl, rfl, rfl⟩ := same
        rw [lTypeOfInj types]
      subst reported
      exact ⟨clash.writes, alive, g, clash.same, clash.held⟩
    · intro careful
      obtain ⟨writes, alive, g, same, held⟩ := careful r rfl
      have overlap := List.find?_some first
      have met := List.mem_of_find?_eq_some first
      simp only [decide_eq_true_eq] at overlap
      refine ⟨⟨fun unlocked => absurd unlocked (isLock r.type), fun free => ?_⟩,
        fun _ => ⟨g, r, rfl, ⟨same, held, overlap.1, overlapByte overlap.2, writes⟩, alive⟩⟩
      rw [refused, conflict, List.find?_eq_none] at free
      have missed := free r met
      simp only [decide_eq_true_eq] at missed
      exact absurd ⟨overlap.1, overlap.2, writes⟩ missed

end Query

-- The first process reads the whole file under a lock, the second looks for one.
def readByTwo : List Action :=
  [.open 0 3 hammer, .fork 0 2, .open 1 4 hammer, .fcntl 0 3 F_SETLK (readLock 0 0) 0 false]

def reader : Task := ⟨2, [⟨3, 0, false⟩, ⟨4, 1, false⟩], .ready⟩

def sharedRead : State := (run step (start 1) readByTwo).getD (start 1)

theorem sharedReadAgrees :
    run step (start 1) readByTwo = some sharedRead ∧
      GetlkAgrees sharedRead 1 ⟨.wrlck, 0, 5, 2⟩
        (fsFcntlLock sharedRead 1 reader 4 F_GETLK (writeLock 0 5) 0 false).2
        (fsFcntlLock sharedRead 1 reader 4 F_SETLK (writeLock 0 5) 0 false).1.2 := by
  refine ⟨rfl, (@getlkAgreesIff sharedRead 1 reader 4 1 .wrlck rfl (writeLock 0 5) rfl 0
    false).mpr fun r first => ?_⟩
  cases first
  exact ⟨.inl rfl, ⟨_, List.mem_cons_self, rfl, by decide⟩, 0, rfl, List.mem_cons_self⟩

/-- A read lock is in the way of no other read lock: F_SETLK grants it, and F_GETLK has
reported the lock there is. -/
theorem readLockReported :
    ¬ ∀ (acts : List Action) (s : State) (t : Nat) (task : Task) (fd : Int) (file : Nat)
        (type : RecType) (flk : FlockK) (size : BitVec 32) (allocFails : Bool),
      run step (start 1) acts = some s → s.tasks[t]? = some task →
      findOpenFile task fd = some file → recTypeOf flk.lType = some type →
      GetlkAgrees s file ⟨type, lockStart (s.files file) flk size, flk.lLen, task.pid⟩
        (fsFcntlLock s t task fd F_GETLK flk size allocFails).2
        (fsFcntlLock s t task fd F_SETLK flk size allocFails).1.2 := by
  intro claimed
  have agrees := claimed readByTwo sharedRead 1 reader 4 1 .rdlck (readLock 0 5) 0 false
    rfl rfl rfl rfl
  have unlocked := agrees.unlocked.mpr (by decide)
  exact absurd unlocked (by decide)

end Scepter.Locks
