import Storm.Library.ByteMemory

/-! # Segments of the i386

A segment register holds a selector, which says where in the global descriptor table the descriptor
of the segment is. The descriptor gives the base and the limit of the segment: an address is an
offset in a segment, and is linear when the base is added (`Segment.linear`). -/

namespace I386

open ByteMemory

/-- A segment descriptor, decoded. -/
@[ext] structure Segment where
  /-- Whether the segment may be used. -/
  present : Bool
  dpl : BitVec 2
  /-- Code or data, not a system segment. -/
  codeOrData : Bool
  executable : Bool
  /-- Whether data may be written; for code, whether it may be read. -/
  accessible : Bool
  /-- For data, whether the offsets grow down from the base. -/
  expandDown : Bool
  /-- Whether operands and addresses have 32 bits. -/
  is32 : Bool
  base : Word
  /-- The last offset. -/
  limit : ℕ
  deriving DecidableEq, Repr

namespace Segment

/-- The last offset, in bytes, or in pages of four kilobytes. -/
def limitOf (granularity : Bool) (raw : BitVec 20) : ℕ :=
  if granularity then raw.toNat * 4096 + 4095 else raw.toNat

/-- Decode the two words of a descriptor. -/
def decode (low high : Word) : Segment where
  present := high.getLsbD 15
  dpl := high.extractLsb' 13 2
  codeOrData := high.getLsbD 12
  executable := high.getLsbD 11
  accessible := high.getLsbD 9
  expandDown := !high.getLsbD 11 && high.getLsbD 10
  is32 := high.getLsbD 22
  base := high.extractLsb' 24 8 ++ high.extractLsb' 0 8 ++ low.extractLsb' 16 16
  limit := limitOf (high.getLsbD 23) (high.extractLsb' 16 4 ++ low.extractLsb' 0 16)

/-- The linear address of an offset, if the segment may be used and has this offset. -/
def linear (offset : Word) (s : Segment) : Option Word :=
  if s.present ∧ s.codeOrData ∧ ¬ s.expandDown ∧ offset.toNat ≤ s.limit then some (s.base + offset)
  else none

/-- A segment of ring 0 with 32 bits that is the whole memory. -/
def flat (executable : Bool) : Segment where
  present := true
  dpl := 0
  codeOrData := true
  executable
  accessible := true
  expandDown := false
  is32 := true
  base := 0
  limit := 2 ^ 32 - 1

/-- **In a flat segment** an offset is a linear address. -/
theorem linear_flat (executable : Bool) (offset : Word) :
    (flat executable).linear offset = some offset := by
  have hlimit : offset.toNat ≤ 2 ^ 32 - 1 := Nat.le_pred_of_lt offset.isLt
  rw [linear, if_pos ⟨rfl, rfl, Bool.false_ne_true, hlimit⟩]
  exact congrArg some (BitVec.zero_add offset)

end Segment

/-- The segment of a selector in a table of descriptors with its last byte at `tableLimit`. The first
entry is not used, and bit 2 of the selector stands for another table. -/
def segmentOf (table : ℕ → Word × Word) (tableLimit : BitVec 16) (selector : BitVec 16) :
    Option Segment :=
  let index := (selector >>> 3).toNat
  if index ≠ 0 ∧ selector.getLsbD 2 = false ∧ index * 8 + 7 ≤ tableLimit.toNat then
    some (.decode (table index).1 (table index).2)
  else none

/-- A selector of an entry inside of the table. -/
theorem segmentOf_of_index {table : ℕ → Word × Word} {tableLimit selector : BitVec 16} {i : ℕ}
    (hindex : (selector >>> 3).toNat = i) (hi : i ≠ 0) (htable : selector.getLsbD 2 = false)
    (hlimit : i * 8 + 7 ≤ tableLimit.toNat) :
    segmentOf table tableLimit selector = some (.decode (table i).1 (table i).2) := by
  subst hindex
  exact if_pos ⟨hi, htable, hlimit⟩

end I386
