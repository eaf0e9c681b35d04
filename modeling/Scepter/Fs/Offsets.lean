import Scepter.Lib.Run
import Mathlib.Logic.Function.Basic

/-! The two positions of an open regular file: the offset of the VFS in open_file_t and that
of the driver behind it (fs/vfs.c; open, read, write, seek and truncate of minix3, ext2, tmpfs
and procfs). size_t has 32 bits. -/
namespace Scepter.Offsets

-- those with regular files
inductive Driver where
  | minix3 | ext2 | tmpfs | procfs
  deriving DecidableEq

-- SEEK_SET, SEEK_CUR, SEEK_END and every other value
inductive Whence where
  | set | cur | fromEnd | other

def O_RDONLY : BitVec 32 := 0x1
def O_WRONLY : BitVec 32 := 0x2
def O_RDWR : BitVec 32 := 0x3
def O_APPEND : BitVec 32 := 0x200
def O_TRUNC : BitVec 32 := 0x800

structure OpenFile where
  flags : BitVec 32
  offset : BitVec 32
  -- the driver's offset
  pos : BitVec 32
  -- i_size of the driver's copy of the inode, or the length of the text that procfs has made
  size : BitVec 32

/-- One file and what is open of it. `fileEnd` is n->size in tmpfs; elsewhere it is what the
writes and truncations of all open files have made of the size, for the statements only. -/
structure State where
  driver : Driver
  -- i_size in the inode on the disk
  disk : BitVec 32
  fileEnd : BitVec 32
  files : Nat → Option OpenFile

def State.put (s : State) (h : Nat) (f : OpenFile) : State :=
  {s with files := Function.update s.files h (some f)}

def sizeOf (s : State) (f : OpenFile) : BitVec 32 :=
  if s.driver = .tmpfs then s.fileEnd else f.size

def onDisk (driver : Driver) : Bool := driver = .minix3 ∨ driver = .ext2

/-! ## The calls -/

def fsOpen (s : State) (h : Nat) (flags text : BitVec 32) : Int × State :=
  if (s.files h).isSome then (-1, s)
  else
    let trunc := flags &&& O_TRUNC ≠ 0 ∧ s.driver ≠ .procfs
    let size := if trunc then 0 else match s.driver with
      | .procfs => text
      | .tmpfs => s.fileEnd
      | _ => s.disk
    let pos := if flags &&& O_APPEND ≠ 0 ∧ onDisk s.driver then size else 0
    (h, {s with fileEnd := if trunc then 0 else s.fileEnd}.put h ⟨flags, 0, pos, size⟩)

def readCount (driver : Driver) (pos size count : BitVec 32) : BitVec 32 :=
  if pos ≥ size then 0
  else match driver with
    | .ext2 => if count > size - pos then size - pos else count
    | _ => if pos + count > size then size - pos else count

/-- Both layers after a transfer of `n` bytes: minix3, ext2 and the VFS take the count for a
signed number. -/
def OpenFile.moveBy (f : OpenFile) (driver : Driver) (n : BitVec 32) : OpenFile :=
  {f with
    pos := if onDisk driver ∧ n.toInt ≤ 0 then f.pos else f.pos + n
    offset := if n.toInt > 0 then f.offset + n else f.offset}

def fsRead (s : State) (h : Nat) (count : BitVec 32) (ok : Bool) : Int × State :=
  match s.files h with
  | none => (-1, s)
  | some f =>
    if f.flags &&& O_RDWR = O_WRONLY then (-1, s)
    else if !ok then (-1, s)
    else
      let n := readCount s.driver f.pos (sizeOf s f) count
      (n.toInt, s.put h (f.moveBy s.driver n))

/-- How a driver's write ends. minix3 alone may stop behind the first bytes, and leaves the
size then. -/
inductive Transfer where
  | full
  | part (n : BitVec 32)
  | failed

def written (driver : Driver) (count : BitVec 32) : Transfer → Option (BitVec 32)
  | .full => if driver = .procfs then none else some count
  | .part n => if driver = .minix3 ∧ 0 < n ∧ n < count then some n else none
  | .failed => none

def grow (size upto : BitVec 32) : BitVec 32 := if upto > size then upto else size

def sizes (driver : Driver) (count : BitVec 32) : Transfer → Bool
  | .full => ¬(driver = .tmpfs ∧ count = 0)
  | _ => false

def fsWrite (s : State) (h : Nat) (count : BitVec 32) (transfer : Transfer) : Int × State :=
  match s.files h with
  | none => (-1, s)
  | some f =>
    if f.flags &&& O_RDWR = O_RDONLY then (-1, s)
    else match written s.driver count transfer with
      | none => (-1, s)
      | some n =>
        let f' := f.moveBy s.driver n
        if sizes s.driver count transfer then
          (n.toInt, {s with fileEnd := grow s.fileEnd (f.pos + n)}.put h
            {f' with size := grow f.size (f.pos + n)})
        else (n.toInt, s.put h f')

def driverSeek (s : State) (f : OpenFile) (offset : BitVec 32) (whence : Whence) :
    Option (BitVec 32) :=
  let target : Option (BitVec 32) := match whence with
    | .set => some offset
    | .cur => some (f.pos + offset)
    | .fromEnd => if s.driver = .procfs then none else some (sizeOf s f + offset)
    | .other => none
  target.filter fun target => ¬ target.toInt < 0

def fsSeek (s : State) (h : Nat) (offset : BitVec 32) (whence : Whence) : Int × State :=
  match s.files h with
  | none => (-1, s)
  | some f => match driverSeek s f offset whence with
    | none => (-1, s)
    | some target => (target.toInt, s.put h {f with offset := target, pos := target})

def fsTruncate (s : State) (h : Nat) (length : BitVec 32) (ok : Bool) : Int × State :=
  match s.files h with
  | none => (-1, s)
  | some f =>
    if f.flags &&& O_RDWR = O_RDONLY then (-1, s)
    else if s.driver = .procfs ∨ !ok then (-1, s)
    else
      let pos := if onDisk s.driver ∧ f.pos > length then length else f.pos
      (0, {s with fileEnd := length}.put h {f with pos := pos, size := length})

def atOffset (s : State) (h : Nat) (offset : BitVec 32) (io : State → Int × State) :
    Int × State :=
  match s.files h with
  | none => (-1, s)
  | some f =>
    let saved := f.offset
    let (r, s) := fsSeek s h offset .set
    if r < 0 then (-1, s)
    else
      let (n, s) := io s
      (n, (fsSeek s h saved .set).2)

def fsPread (s : State) (h : Nat) (offset count : BitVec 32) (ok : Bool) : Int × State :=
  atOffset s h offset fun s => fsRead s h count ok

def fsPwrite (s : State) (h : Nat) (offset count : BitVec 32) (transfer : Transfer) :
    Int × State :=
  atOffset s h offset fun s => fsWrite s h count transfer

/-! ## Runs -/

inductive Action where
  | openFile (h : Nat) (flags text : BitVec 32)
  | read (h : Nat) (count : BitVec 32) (ok : Bool)
  | write (h : Nat) (count : BitVec 32) (transfer : Transfer)
  | lseek (h : Nat) (offset : BitVec 32) (whence : Whence)
  | truncate (h : Nat) (length : BitVec 32) (ok : Bool)
  | pread (h : Nat) (offset count : BitVec 32) (ok : Bool)
  | pwrite (h : Nat) (offset count : BitVec 32) (transfer : Transfer)

def perform (s : State) : Action → Int × State
  | .openFile h flags text => fsOpen s h flags text
  | .read h count ok => fsRead s h count ok
  | .write h count transfer => fsWrite s h count transfer
  | .lseek h offset whence => fsSeek s h offset whence
  | .truncate h length ok => fsTruncate s h length ok
  | .pread h offset count ok => fsPread s h offset count ok
  | .pwrite h offset count transfer => fsPwrite s h offset count transfer

def step (s : State) (a : Action) : Option State := some (perform s a).2

def start (driver : Driver) (size : BitVec 32) : State := ⟨driver, size, size, fun _ => none⟩

/-! ## What should hold -/

def Agree (s : State) : Prop := ∀ h f, s.files h = some f → f.offset = f.pos

def Action.positional (h : Nat) : Action → Bool
  | .pread g .. | .pwrite g .. => g = h
  | _ => false

def OpenFile.position (f : OpenFile) : BitVec 32 × BitVec 32 := (f.offset, f.pos)

/-- The two positions agree after the call, pread and pwrite leave them, and what a write has
appended lies behind the end that the file had. -/
structure CallRight (s : State) (a : Action) : Prop where
  agree : Agree (perform s a).2
  stays : ∀ h, a.positional h = true →
    ((perform s a).2.files h).map OpenFile.position = (s.files h).map OpenFile.position
  appends : ∀ h count transfer f f', a = .write h count transfer → s.files h = some f →
    f.flags &&& O_APPEND ≠ 0 → (perform s a).1 > 0 → (perform s a).2.files h = some f' →
    f'.pos = s.fileEnd + BitVec.ofInt 32 (perform s a).1

def Counted (driver : Driver) (n : BitVec 32) : Prop := onDisk driver = false → 0 ≤ n.toInt
instance (driver n) : Decidable (Counted driver n) := by unfold Counted; infer_instance

def Returns (f : OpenFile) (offset : BitVec 32) : Prop :=
  0 ≤ f.offset.toInt ∨ offset.toInt < 0
instance (f offset) : Decidable (Returns f offset) := by unfold Returns; infer_instance

/-- minix3 and ext2 are not asked to append to a file that has bytes, nor to cut one before the
position. Who appends is at the end already, and who transfers at an offset has a position
below 2^31. -/
def Careful (s : State) : Action → Prop
  | .openFile h flags _ => s.files h = none → flags &&& O_APPEND ≠ 0 → onDisk s.driver →
    flags &&& O_TRUNC ≠ 0 ∨ s.disk = 0
  | .read h count ok => match s.files h with
    | none => True
    | some f => f.flags &&& O_RDWR ≠ O_WRONLY → ok →
      Counted s.driver (readCount s.driver f.pos (sizeOf s f) count)
  | .write h count transfer => match s.files h with
    | none => True
    | some f => f.flags &&& O_RDWR ≠ O_RDONLY → (written s.driver count transfer).isSome →
      Counted s.driver count ∧ (f.flags &&& O_APPEND ≠ 0 → count ≠ 0 → f.pos = s.fileEnd)
  | .lseek .. => True
  | .truncate h length ok => match s.files h with
    | none => True
    | some f => f.flags &&& O_RDWR ≠ O_RDONLY → ok → onDisk s.driver → f.pos ≤ length
  | .pread h offset .. | .pwrite h offset .. => match s.files h with
    | none => True
    | some f => Returns f offset

instance (s a) : Decidable (Careful s a) := by
  unfold Careful
  cases a <;> dsimp only <;> first | infer_instance | (split <;> infer_instance)

section calls
variable {s t : State} {f : OpenFile} {h : Nat} {driver : Driver} {offset count length n : BitVec 32}
variable {ok : Bool} {transfer : Transfer} {io : State → Int × State}

/-! ## One call -/

theorem agreePut (agree : Agree s) (same : f.offset = f.pos) (fileEnd : BitVec 32) :
    Agree ({s with fileEnd := fileEnd}.put h f) := by
  intro g f' there
  unfold State.put at there
  dsimp only at there
  by_cases here : g = h
  · rw [here, Function.update_self] at there
    cases there
    exact same
  · rw [Function.update_of_ne here] at there
    exact agree g f' there

theorem moveAgree (same : f.offset = f.pos) (counted : Counted driver n) :
    (f.moveBy driver n).offset = (f.moveBy driver n).pos := by
  unfold OpenFile.moveBy
  dsimp only
  by_cases up : n.toInt > 0
  · rw [if_pos up, if_neg fun both => absurd up (Int.not_lt.mpr both.2), same]
  · rw [if_neg up]
    cases disk : onDisk driver
    · have least := counted disk
      have zero : n = 0#32 := BitVec.eq_of_toInt_eq (by rw [BitVec.toInt_zero]; omega)
      rw [if_neg (by simp), zero, BitVec.add_zero, same]
    · rw [if_pos ⟨rfl, Int.not_lt.mp up⟩, same]

theorem readSpec : fsRead s h count ok = (-1, s) ∨ ∃ f, s.files h = some f ∧
    f.flags &&& O_RDWR ≠ O_WRONLY ∧ ok = true ∧
    (fsRead s h count ok).2 =
      s.put h (f.moveBy s.driver (readCount s.driver f.pos (sizeOf s f) count)) := by
  unfold fsRead
  cases there : s.files h with
  | none => exact .inl rfl
  | some f =>
    dsimp only
    split
    · exact .inl rfl
    · rename_i readable
      cases ok with
      | false => exact .inl rfl
      | true => exact .inr ⟨f, rfl, readable, rfl, rfl⟩

theorem writeSpec : fsWrite s h count transfer = (-1, s) ∨ ∃ f f' n fileEnd,
    s.files h = some f ∧ f.flags &&& O_RDWR ≠ O_RDONLY ∧
    written s.driver count transfer = some n ∧ f'.position = (f.moveBy s.driver n).position ∧
    fsWrite s h count transfer = (n.toInt, {s with fileEnd := fileEnd}.put h f') := by
  unfold fsWrite
  cases there : s.files h with
  | none => exact .inl rfl
  | some f =>
    dsimp only
    split
    · exact .inl rfl
    · rename_i writable
      cases done : written s.driver count transfer with
      | none => exact .inl rfl
      | some n =>
        dsimp only
        split
        · exact .inr ⟨f, {f.moveBy s.driver n with size := grow f.size (f.pos + n)}, n,
            grow s.fileEnd (f.pos + n), rfl, writable, rfl, rfl, rfl⟩
        · exact .inr ⟨f, f.moveBy s.driver n, n, s.fileEnd, rfl, writable, rfl, rfl, rfl⟩

theorem seekSpec (whence : Whence) : fsSeek s h offset whence = (-1, s) ∨
    ∃ (f : OpenFile) (target : BitVec 32),
    (fsSeek s h offset whence).2 = s.put h {f with offset := target, pos := target} := by
  unfold fsSeek
  cases s.files h with
  | none => exact .inl rfl
  | some f =>
    dsimp only
    split
    · exact .inl rfl
    · exact .inr ⟨f, _, rfl⟩

theorem seekSet (there : s.files h = some f) (fits : 0 ≤ offset.toInt) :
    fsSeek s h offset .set = (offset.toInt, s.put h {f with offset := offset, pos := offset}) := by
  have taken : driverSeek s f offset .set = some offset := by
    unfold driverSeek
    exact Option.filter_eq_some_iff.mpr ⟨rfl, decide_eq_true (Int.not_lt.mpr fits)⟩
  unfold fsSeek
  rw [there]
  dsimp only
  rw [taken]

theorem seekFails (there : s.files h = some f) (negative : offset.toInt < 0) :
    fsSeek s h offset .set = (-1, s) := by
  have refused : driverSeek s f offset .set = none := by
    unfold driverSeek
    dsimp only
    rw [Option.filter_some, if_neg (by simpa using negative)]
  unfold fsSeek
  rw [there]
  dsimp only
  rw [refused]

theorem truncateSpec : fsTruncate s h length ok = (-1, s) ∨ ∃ f, s.files h = some f ∧
    f.flags &&& O_RDWR ≠ O_RDONLY ∧ ok = true ∧
    (fsTruncate s h length ok).2 = {s with fileEnd := length}.put h
      {f with
        pos := if onDisk s.driver ∧ f.pos > length then length else f.pos
        size := length} := by
  unfold fsTruncate
  cases there : s.files h with
  | none => exact .inl rfl
  | some f =>
    dsimp only
    split
    · exact .inl rfl
    · rename_i writable
      split
      · exact .inl rfl
      · rename_i works
        cases ok with
        | false => exact absurd (.inr rfl) works
        | true => exact .inr ⟨f, rfl, writable, rfl, rfl⟩

structure OnlyAt (h : Nat) (s t : State) : Prop where
  others : ∀ g, g ≠ h → t.files g = s.files g
  there : ∀ f, s.files h = some f → ∃ f', t.files h = some f'

theorem onlySelf : OnlyAt h s s := ⟨fun _ _ => rfl, fun f there => ⟨f, there⟩⟩

theorem onlyPut (fileEnd : BitVec 32) : OnlyAt h s ({s with fileEnd := fileEnd}.put h f) :=
  ⟨fun _ other => Function.update_of_ne other _ _, fun _ _ => ⟨f, Function.update_self ..⟩⟩

theorem readOnly (s : State) : OnlyAt h s (fsRead s h count ok).2 := by
  rcases @readSpec s h count ok with same | ⟨f, _, _, _, same⟩
  · rw [same]
    exact onlySelf
  · rw [same]
    exact onlyPut s.fileEnd

theorem writeOnly (s : State) : OnlyAt h s (fsWrite s h count transfer).2 := by
  rcases @writeSpec s h count transfer with same | ⟨f, f', n, fileEnd, _, _, _, _, same⟩
  · rw [same]
    exact onlySelf
  · rw [same]
    exact onlyPut fileEnd

theorem atOffsetSpec (there : s.files h = some f) (returns : Returns f offset)
    (only : ∀ s, OnlyAt h s (io s).2) : (atOffset s h offset io).2 = s ∨
    (∃ f', (atOffset s h offset io).2.files h = some f' ∧ f'.position = (f.offset, f.offset)) ∧
      ∀ g, g ≠ h → (atOffset s h offset io).2.files g = s.files g := by
  unfold atOffset
  rw [there]
  dsimp only
  by_cases negative : offset.toInt < 0
  · rw [seekFails there negative]
    exact .inl rfl
  · right
    have fits := Int.not_lt.mp negative
    have back : 0 ≤ f.offset.toInt := returns.resolve_right negative
    rw [seekSet there fits]
    dsimp only
    rw [if_neg negative]
    have moved := only (s.put h {f with offset := offset, pos := offset})
    obtain ⟨f₂, there₂⟩ := moved.there _ (Function.update_self ..)
    rw [seekSet there₂ back]
    refine ⟨⟨_, Function.update_self .., rfl⟩, fun g other => ?_⟩
    refine (Function.update_of_ne other _ _).trans ((moved.others g other).trans ?_)
    exact Function.update_of_ne other _ _

/-! ## Every call -/

theorem openAgree {flags text : BitVec 32} (agree : Agree s)
    (careful : Careful s (.openFile h flags text)) : Agree (fsOpen s h flags text).2 := by
  unfold fsOpen
  cases free : s.files h with
  | some _ => exact agree
  | none =>
    rw [if_neg (by simp)]
    dsimp only
    refine agreePut agree ?_ _
    dsimp only
    by_cases appends : flags &&& O_APPEND ≠ 0 ∧ onDisk s.driver
    · have known : s.driver = .minix3 ∨ s.driver = .ext2 := of_decide_eq_true appends.2
      have other : s.driver ≠ .procfs := by rcases known with same | same <;> rw [same] <;> decide
      rw [if_pos appends]
      rcases careful free appends.1 appends.2 with trunc | empty
      · rw [if_pos ⟨trunc, other⟩]
      · split
        · rfl
        · rcases known with same | same <;> rw [same] <;> exact empty.symm
    · rw [if_neg appends]

theorem readAgree (agree : Agree s) (careful : Careful s (.read h count ok)) :
    Agree (fsRead s h count ok).2 := by
  rcases @readSpec s h count ok with same | ⟨f, there, readable, works, same⟩
  · rw [same]
    exact agree
  · unfold Careful at careful
    dsimp only at careful
    rw [there] at careful
    rw [same]
    exact agreePut agree (moveAgree (agree h f there) (careful readable works)) s.fileEnd

theorem writtenCounted (done : written driver count transfer = some n)
    (counted : Counted driver count) : Counted driver n := by
  unfold written at done
  cases transfer with
  | full =>
    dsimp only at done
    split at done
    · cases done
    · cases done
      exact counted
  | part _ =>
    dsimp only at done
    split at done
    · rename_i minix3
      intro off
      rw [minix3.1] at off
      cases off
    · cases done
  | failed => cases done

theorem writtenFilled (done : written driver count transfer = some n) (some_ : n.toInt > 0) :
    count ≠ 0 := by
  rintro rfl
  unfold written at done
  cases transfer with
  | full =>
    dsimp only at done
    split at done
    · cases done
    · cases done
      exact absurd some_ (by decide)
  | part m =>
    dsimp only at done
    split at done
    · rename_i less
      exact absurd less.2.2 (by simp)
    · cases done
  | failed => cases done

theorem writeMoves (agree : Agree s) (careful : Careful s (.write h count transfer)) :
    fsWrite s h count transfer = (-1, s) ∨ ∃ f f' n fileEnd, s.files h = some f ∧
      f'.position = (f.moveBy s.driver n).position ∧ f'.offset = f'.pos ∧
      (f.flags &&& O_APPEND ≠ 0 → n.toInt > 0 → f.pos = s.fileEnd) ∧
      fsWrite s h count transfer = (n.toInt, {s with fileEnd := fileEnd}.put h f') := by
  rcases @writeSpec s h count transfer with
    same | ⟨f, f', n, fileEnd, there, writable, done, moved, same⟩
  · exact .inl same
  · unfold Careful at careful
    dsimp only at careful
    rw [there] at careful
    obtain ⟨counted, atEnd⟩ := careful writable (by rw [done]; rfl)
    have moves := moveAgree (agree h f there) (writtenCounted done counted)
    have both := Prod.mk.inj moved
    exact .inr ⟨f, f', n, fileEnd, there, moved, by rw [both.1, moves, both.2],
      fun appends some_ => atEnd appends (writtenFilled done some_), same⟩

theorem writeAgree (agree : Agree s) (careful : Careful s (.write h count transfer)) :
    Agree (fsWrite s h count transfer).2 := by
  rcases writeMoves agree careful with same | ⟨f, f', n, fileEnd, _, _, moves, _, same⟩
  · rw [same]
    exact agree
  · rw [same]
    exact agreePut agree moves fileEnd

theorem seekAgree (agree : Agree s) (whence : Whence) : Agree (fsSeek s h offset whence).2 := by
  rcases @seekSpec s h offset whence with same | ⟨f, target, same⟩
  · rw [same]
    exact agree
  · rw [same]
    exact agreePut agree rfl s.fileEnd

theorem truncateAgree (agree : Agree s) (careful : Careful s (.truncate h length ok)) :
    Agree (fsTruncate s h length ok).2 := by
  rcases @truncateSpec s h length ok with same | ⟨f, there, writable, works, same⟩
  · rw [same]
    exact agree
  · unfold Careful at careful
    dsimp only at careful
    rw [there] at careful
    rw [same]
    refine agreePut agree ?_ length
    dsimp only
    rw [if_neg fun cut => BitVec.not_lt.mpr (careful writable works cut.1) cut.2]
    exact agree h f there

theorem atOffsetRight (agree : Agree s) (only : ∀ s, OnlyAt h s (io s).2)
    (returns : ∀ f, s.files h = some f → Returns f offset) :
    Agree (atOffset s h offset io).2 ∧
      ((atOffset s h offset io).2.files h).map OpenFile.position =
        (s.files h).map OpenFile.position := by
  cases there : s.files h with
  | none =>
    have same : atOffset s h offset io = (-1, s) := by
      unfold atOffset
      rw [there]
    rw [same, there]
    exact ⟨agree, rfl⟩
  | some f =>
    rcases atOffsetSpec there (returns f there) only with same | ⟨⟨f', there', position⟩, others⟩
    · rw [same, there]
      exact ⟨agree, rfl⟩
    · have before := agree h f there
      refine ⟨fun g f₂ there₂ => ?_, ?_⟩
      · by_cases here : g = h
        · rw [here, there'] at there₂
          cases there₂
          have both := Prod.mk.inj position
          rw [both.1, both.2]
        · rw [others g here] at there₂
          exact agree g f₂ there₂
      · rw [there', Option.map_some, Option.map_some, position]
        unfold OpenFile.position
        rw [← before]

theorem preadRight {a : Action} (agree : Agree s) (only : ∀ s, OnlyAt h s (io s).2)
    (returns : ∀ f, s.files h = some f → Returns f offset)
    (made : perform s a = atOffset s h offset io) (own : ∀ g, a.positional g = true → g = h)
    (apart : ∀ g count transfer, a ≠ .write g count transfer) : CallRight s a := by
  obtain ⟨agrees, kept⟩ := atOffsetRight agree only returns
  refine ⟨by rw [made]; exact agrees, fun g same => ?_, fun g count transfer _ _ same => ?_⟩
  · rw [own g same, made]
    exact kept
  · exact absurd same (apart g count transfer)

theorem carefulRight {a : Action} (agree : Agree s) (careful : Careful s a) : CallRight s a := by
  cases a with
  | openFile h flags text => exact ⟨openAgree agree careful, nofun, nofun⟩
  | read h count ok => exact ⟨readAgree agree careful, nofun, nofun⟩
  | write h count transfer =>
    refine ⟨writeAgree agree careful, nofun, ?_⟩
    rintro _ _ _ f f' ⟨⟩ there appends some_ there'
    unfold perform at some_ there' ⊢
    dsimp only at some_ there' ⊢
    rcases writeMoves agree careful with
      same | ⟨f₁, f₂, n, fileEnd, there₁, moved, _, atEnd, same⟩
    · rw [same] at some_
      cases some_
    · rw [same] at some_ there' ⊢
      dsimp only at some_ there' ⊢
      have put : ({s with fileEnd := fileEnd}.put h f₂).files h = some f₂ :=
        Function.update_self ..
      cases there.symm.trans there₁
      cases put.symm.trans there'
      have moves : (f.moveBy s.driver n).pos = f.pos + n :=
        if_neg fun both => absurd some_ (Int.not_lt.mpr both.2)
      rw [(Prod.mk.inj moved).2, moves, atEnd appends some_, BitVec.ofInt_toInt]
  | lseek h offset whence => exact ⟨seekAgree agree whence, nofun, nofun⟩
  | truncate h length ok => exact ⟨truncateAgree agree careful, nofun, nofun⟩
  | pread h offset count ok =>
    refine preadRight agree readOnly (fun f there => ?_) rfl (fun g same => ?_) nofun
    · unfold Careful at careful
      dsimp only at careful
      rwa [there] at careful
    · exact (of_decide_eq_true same).symm
  | pwrite h offset count transfer =>
    refine preadRight agree writeOnly (fun f there => ?_) rfl (fun g same => ?_) nofun
    · unfold Careful at careful
      dsimp only at careful
      rwa [there] at careful
    · exact (of_decide_eq_true same).symm

end calls

/-! ## Every run -/

theorem startAgree (driver : Driver) (size : BitVec 32) : Agree (start driver size) :=
  fun _ _ there => nomatch there

theorem meetsRight {s : State} (acts : List Action) (agree : Agree s)
    (careful : Run.Meets step Careful s acts) : Run.Meets step CallRight s acts := by
  induction acts generalizing s with
  | nil => trivial
  | cons a rest ih =>
    have right := carefulRight agree careful.1
    refine ⟨right, fun t taken => ih ?_ (careful.2 t taken)⟩
    cases taken
    exact right.agree

/-- In every run of calls on a file that is opened any number of times the two positions agree
after each call, pread and pwrite leave them, and appended bytes lie behind the end, as long as
every call is a careful one. -/
theorem offsetsRight (driver : Driver) (size : BitVec 32) (acts : List Action)
    (careful : Run.Meets step Careful (start driver size) acts) :
    Run.Meets step CallRight (start driver size) acts :=
  meetsRight acts (startAgree driver size) careful

/-- Two descriptors of a new file on ext2: one appends, the other writes and is sought. -/
theorem twoWriters : Run.Meets step CallRight (start .ext2 0)
    [.openFile 0 (O_RDWR ||| O_APPEND) 0, .openFile 1 O_RDWR 0, .write 0 5 .full,
      .pread 0 1 3 true, .write 1 9 .full, .lseek 1 4 .set, .lseek 0 9 .set, .write 0 2 .full,
      .truncate 1 6 true] :=
  offsetsRight .ext2 0 _ (by decide)

/-- A file of three bytes on minix3, opened to append: the driver is at its end, the VFS at 0. -/
theorem appendApart : ¬ ∀ (driver : Driver) (size : BitVec 32) (acts : List Action),
    Run.Meets step CallRight (start driver size) acts := by
  intro every
  have right := every .minix3 3 [.openFile 0 (O_WRONLY ||| O_APPEND) 0, .write 0 1 .full]
  have apart := (right.2 _ rfl).1.agree 0 ⟨O_WRONLY ||| O_APPEND, 1, 4, 4⟩ rfl
  cases apart

end Scepter.Offsets
