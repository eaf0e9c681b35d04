import Mathlib.Data.Nat.Digits.Defs
import Scepter.Lib.Crc

/-! cksum (crt/coreutil/cksum.c): the table-driven sum is what a shift register leaves of
the file and its length, however read cuts the file up. -/
namespace Scepter.Cksum
open Crc (turn turns feed turnsTable feedInjective burstSeen)

abbrev Byte := BitVec 8

def POLY : BitVec 32 := 0xEDB88320

structure Globals where
  crc_table : Nat → BitVec 32
  table_ready : Bool

def start : Globals := ⟨fun _ => 0, false⟩

def tableEntry (i : Nat) : BitVec 32 :=
  (List.range 8).foldl
    (fun c _ => if c &&& 1 ≠ 0 then POLY ^^^ c >>> 1 else c >>> 1) (BitVec.ofNat 32 i)

def build_table (g : Globals) : Globals where
  crc_table i := if i < 256 then tableEntry i else g.crc_table i
  table_ready := true

def crcByte (g : Globals) (crc : BitVec 32) (b : Byte) : BitVec 32 :=
  g.crc_table ((crc ^^^ b.setWidth 32) &&& 0xFF#32).toNat ^^^ crc >>> 8

def lengthLoop (g : Globals) (crc : BitVec 32) (l : Nat) : BitVec 32 :=
  if l = 0 then crc else lengthLoop g (crcByte g crc (BitVec.ofNat 8 l)) (l / 256)
  termination_by l
  decreasing_by omega

-- `reads` is what the calls of read give before the first that gives nothing.
def cksum_fd (longBits : Nat) (g : Globals) (reads : List (List Byte)) :
    BitVec 32 × Nat × Globals :=
  let g := if g.table_ready then g else build_table g
  let crc := reads.foldl (fun crc buf => buf.foldl (crcByte g) crc) 0xFFFFFFFF
  let len := reads.foldl (fun len buf => (len + buf.length) % 2 ^ longBits) 0
  (lengthLoop g crc len ^^^ 0xFFFFFFFF, len, g)

def main (longBits : Nat) (g : Globals) : List (Option (List (List Byte))) →
    List (BitVec 32 × Nat) × Int
  | [] => ([], 0)
  | none :: files => ((main longBits g files).1, 1)
  | some reads :: files =>
    let (crc, size, g) := cksum_fd longBits g reads
    let (lines, ret) := main longBits g files
    ((crc, size) :: lines, ret)

/-! ## What the sum is -/

def lengthBytes (l : Nat) : List Byte := (Nat.digits 256 l).map (BitVec.ofNat 8)

def register (bytes : List Byte) (size : Nat) : BitVec 32 :=
  feed POLY 0xFFFFFFFF (bytes ++ lengthBytes size) ^^^ 0xFFFFFFFF

def line (longBits : Nat) (reads : List (List Byte)) : BitVec 32 × Nat :=
  (register reads.flatten (reads.flatten.length % 2 ^ longBits),
    reads.flatten.length % 2 ^ longBits)

def Ready (g : Globals) : Prop := ∀ i < 256, g.crc_table i = tableEntry i

variable {g : Globals} {longBits : Nat}

theorem lowBit (c : BitVec 32) : c &&& 1 ≠ 0 ↔ c.getLsbD 0 = true := by
  have low : c &&& 1 = BitVec.setWidth 32 (BitVec.ofBool (c.getLsbD 0)) :=
    BitVec.and_one_eq_setWidth_ofBool_getLsbD
  rw [low]
  cases c.getLsbD 0 <;> decide

theorem entryTurns (i : Nat) : tableEntry i = turns POLY 8 (BitVec.ofNat 32 i) := by
  have one : ∀ c : BitVec 32, (if c &&& 1 ≠ 0 then POLY ^^^ c >>> 1 else c >>> 1) = turn POLY c :=
    fun c => if_congr (lowBit c) rfl rfl
  unfold tableEntry
  simp only [one]
  rfl

theorem byteTurns (ready : Ready g) (crc : BitVec 32) (b : Byte) :
    crcByte g crc b = turns POLY 8 (crc ^^^ b.setWidth 32) := by
  have masked : ((crc ^^^ b.setWidth 32) &&& 0xFF#32).toNat < 256 := by
    rw [BitVec.toNat_and]
    exact Nat.lt_succ_of_le Nat.and_le_right
  have high : (b.setWidth 32) >>> 8 = (0 : BitVec 32) := by
    apply BitVec.eq_of_getLsbD_eq
    intro i _
    simp
  rw [turnsTable, BitVec.ushiftRight_xor_distrib, high, crcByte, ready _ masked, entryTurns,
    BitVec.ofNat_toNat, BitVec.setWidth_eq]
  exact congrArg _ (BitVec.xor_zero).symm

theorem lengthFeeds (ready : Ready g) (crc : BitVec 32) (l : Nat) :
    lengthLoop g crc l = feed POLY crc (lengthBytes l) := by
  induction l using Nat.strong_induction_on generalizing crc with
  | _ l ih =>
    unfold lengthLoop
    split
    next none_ => rw [none_]; rfl
    next some_ =>
      have low : BitVec.ofNat 8 (l % 256) = BitVec.ofNat 8 l := by
        apply BitVec.eq_of_toNat_eq
        rw [BitVec.toNat_ofNat, BitVec.toNat_ofNat, Nat.mod_mod]
      have digits : lengthBytes l = BitVec.ofNat 8 l :: lengthBytes (l / 256) := by
        rw [lengthBytes, Nat.digits_eq_cons_digits_div (by decide) some_, List.map_cons, low]
        rfl
      rw [ih (l / 256) (by omega), byteTurns ready, digits]
      rfl

theorem chunksFeed (ready : Ready g) (reads : List (List Byte)) (crc : BitVec 32) :
    reads.foldl (fun crc buf => buf.foldl (crcByte g) crc) crc = feed POLY crc reads.flatten := by
  have step : crcByte g = fun c b => turns POLY 8 (c ^^^ b.setWidth 32) :=
    funext fun c => funext (byteTurns ready c)
  rw [step, ← List.foldl_flatten]
  rfl

theorem chunksLength (reads : List (List Byte)) (l : Nat) :
    reads.foldl (fun len buf => (len + buf.length) % 2 ^ longBits) (l % 2 ^ longBits) =
      (l + reads.flatten.length) % 2 ^ longBits := by
  induction reads generalizing l with
  | nil => simp
  | cons buf rest ih =>
    rw [List.foldl_cons, Nat.mod_add_mod, ih, List.flatten_cons, List.length_append, Nat.add_assoc]

theorem cksumSpec (ready : g.table_ready = true → Ready g) (reads : List (List Byte)) :
    ∃ g', Ready g' ∧ cksum_fd longBits g reads =
      (register reads.flatten (reads.flatten.length % 2 ^ longBits),
        reads.flatten.length % 2 ^ longBits, g') := by
  have now : Ready (if g.table_ready then g else build_table g) := by
    split
    next built => exact ready built
    next => exact fun i inside => if_pos inside
  refine ⟨_, now, ?_⟩
  have size := @chunksLength longBits reads 0
  rw [Nat.zero_mod, Nat.zero_add] at size
  unfold cksum_fd register
  dsimp only
  rw [size, chunksFeed now, lengthFeeds now]
  unfold feed
  rw [List.foldl_append]

theorem mainFrom (ready : g.table_ready = true → Ready g)
    (files : List (Option (List (List Byte)))) : main longBits g files =
      (files.filterMap (Option.map (line longBits)), if none ∈ files then 1 else 0) := by
  induction files generalizing g with
  | nil => rfl
  | cons file files ih =>
    cases file with
    | none => simp [main, ih ready]
    | some reads =>
      obtain ⟨g', now, sum⟩ := @cksumSpec _ longBits ready reads
      simp [main, sum, ih fun _ => now, line]

theorem startReady : start.table_ready = true → Ready start := fun built => absurd built (by decide)

/-! ## Main results -/

/-- Each file that opens gets its line: its length and the word that a shift register is left
with by its bytes and those of the length. The table of one file serves the next. -/
theorem mainSums (longBits : Nat) (files : List (Option (List (List Byte)))) :
    main longBits start files =
      (files.filterMap (Option.map (line longBits)), if none ∈ files then 1 else 0) :=
  mainFrom startReady files

/-- Files that differ in up to four bytes in a row have different sums, whatever is around
these bytes and however the files are read. -/
theorem burstChangesSum (longBits : Nat) {before xs ys after : List Byte}
    {reads reads' : List (List Byte)} (differ : xs ≠ ys) (long : xs.length = ys.length)
    (short : xs.length ≤ 4) (bytes : reads.flatten = before ++ xs ++ after)
    (bytes' : reads'.flatten = before ++ ys ++ after) :
    (cksum_fd longBits start reads).1 ≠ (cksum_fd longBits start reads').1 := by
  obtain ⟨_, _, sum⟩ := @cksumSpec _ longBits startReady reads
  obtain ⟨_, _, sum'⟩ := @cksumSpec _ longBits startReady reads'
  have size : reads'.flatten.length = reads.flatten.length := by
    simp [bytes, bytes', long]
  rw [sum, sum', size]
  intro same
  have fed := (BitVec.xor_left_inj _).mp same
  unfold feed at fed
  rw [bytes, bytes'] at fed
  simp only [List.foldl_append] at fed
  have top : POLY.msb = true := by decide
  exact differ (burstSeen top long (by omega) (feedInjective top (feedInjective top fed)))

theorem burstChangesSumBit :
    (cksum_fd 32 start [[1, 2], [3]]).1 ≠ (cksum_fd 32 start [[1], [6, 3]]).1 :=
  @burstChangesSum 32 [1] [2] [6] [3] [[1, 2], [3]] [[1], [6, 3]] (by decide) rfl (by decide)
    rfl rfl

end Scepter.Cksum
