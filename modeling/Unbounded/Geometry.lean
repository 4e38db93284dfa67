/-
This file models the dimensions of a slab: the direct-I/O alignment, the file
ranges it admits, and the geometry that cuts a slab into segments. Each type
carries what its constructor checked, so that a misaligned geometry or an empty
extent cannot be built.

`usize` is 64 bits wide here, so converting a `u64` to it never fails.
-/

import Unbounded.Word

namespace Unbounded.Alloc

open Word

/-- Storage failures. -/
inductive Error
  | unsupported
  | invalidConfiguration
  | busy
  | corrupt
  | stale
  | unavailable
  | io
  | systemIo (operation : String) (errno : Option Int)
  deriving DecidableEq, Repr

/-- Maximum number of slots retained by a segment allocation table. -/
def maxSegments : Nat := 1000000

/-- Conservative single-transfer limit of 1 GiB. -/
def maxTransferLength : Nat := 2 ^ 30

/-! ### Alignment and extents -/

def isPowerOfTwo (value : Nat) : Bool := value ≠ 0 && (value &&& (value - 1)) == 0

/-- Direct-I/O alignment requirements. Offset and length units may be any positive integers. -/
structure Alignment where
  memory : Nat
  offset : Nat
  length : Nat
  memory_power : isPowerOfTwo memory = true
  offset_pos : 0 < offset
  length_pos : 0 < length
  deriving DecidableEq, Repr

/-- Validate alignment units. -/
def Alignment.new (memory offset length : Nat) : Except Error Alignment :=
  if power : isPowerOfTwo memory = true then
    if units : 0 < offset ∧ 0 < length then
      if memory > 2 ^ 63 - 1 then .error .unsupported
      else .ok ⟨memory, offset, length, power, units.1, units.2⟩
    else .error .unsupported
  else .error .unsupported

/-- A nonempty, non-overflowing file range for one bounded I/O transfer. -/
structure Extent where
  offset : Nat
  length : Nat
  length_pos : 0 < length
  length_le : length ≤ maxTransferLength
  fits : offset + length < 2 ^ 64
  deriving DecidableEq, Repr

/-- Reject empty ranges, offset overflow, and lengths above the transfer cap. -/
def Extent.new (offset length : Nat) : Except Error Extent :=
  if valid : 0 < length ∧ length ≤ maxTransferLength ∧ offset + length < 2 ^ 64 then
    .ok ⟨offset, length, valid.1, valid.2.1, valid.2.2⟩
  else .error .corrupt

/-- Two extents share no byte. -/
def Extent.Disjoint (first second : Extent) : Prop :=
  first.offset + first.length ≤ second.offset ∨ second.offset + second.length ≤ first.offset

/-- Round up to the least common multiple of the offset and length units, so that the next
appended extent is also offset-aligned. The unit's divisor is what the source computes with
Euclid's algorithm. -/
def Alignment.extent (alignment : Alignment) (offset logical : Nat) : Except Error Extent :=
  if ¬ alignment.offset ∣ offset ∨ logical = 0 ∨ logical > maxTransferLength then
    .error .invalidConfiguration
  else match checkedMul 64 (alignment.offset / Nat.gcd alignment.offset alignment.length)
      alignment.length with
    | none => .error .invalidConfiguration
    | some unit =>
      match (checkedAdd 64 logical (unit - 1)).bind fun raised =>
          checkedMul 64 (raised / unit) unit with
      | none => .error .invalidConfiguration
      | some length =>
        if length > maxTransferLength then .error .invalidConfiguration
        else Extent.new offset length

theorem Extent.new_eq_ok {offset length : Nat} {extent : Extent}
    (made : Extent.new offset length = .ok extent) :
    extent.offset = offset ∧ extent.length = length := by
  unfold Extent.new at made
  split at made
  · cases made
    exact ⟨rfl, rfl⟩
  · cases made

/-- An extent the alignment grants starts where it was asked to, and its length is the request
rounded up to a multiple of both units. -/
theorem Alignment.extent_eq_ok {alignment : Alignment} {offset logical : Nat} {extent : Extent}
    (made : alignment.extent offset logical = .ok extent) :
    extent.offset = offset ∧ alignment.offset ∣ extent.length ∧ alignment.length ∣ extent.length ∧
      ∀ other otherExtent, alignment.extent other logical = .ok otherExtent →
        otherExtent.length = extent.length := by
  unfold Alignment.extent at made
  split at made
  · cases made
  split at made
  · cases made
  rename_i unit product
  split at made
  · cases made
  rename_i length rounded
  split at made
  · cases made
  obtain ⟨starts, long⟩ := Extent.new_eq_ok made
  obtain ⟨-, unitEq⟩ := checkedMul_eq_some.mp product
  have unitLcm : unit = Nat.lcm alignment.offset alignment.length := by
    rw [unitEq, Nat.lcm, Nat.div_mul_right_comm (Nat.gcd_dvd_left _ _)]
  obtain ⟨_, -, multiplied⟩ := Option.bind_eq_some_iff.mp rounded
  obtain ⟨-, lengthEq⟩ := checkedMul_eq_some.mp multiplied
  have unitDvd : unit ∣ extent.length := by
    rw [long, lengthEq]
    exact Dvd.intro_left _ rfl
  rw [unitLcm] at unitDvd
  refine ⟨starts, (Nat.dvd_lcm_left _ _).trans unitDvd, (Nat.dvd_lcm_right _ _).trans unitDvd, ?_⟩
  intro other otherExtent otherMade
  unfold Alignment.extent at otherMade
  simp only [product, rounded] at otherMade
  split at otherMade
  · cases otherMade
  rw [(Extent.new_eq_ok otherMade).2, long]

/-! ### Geometry -/

/-- Validated physical dimensions of a slab cut into segments. -/
structure SegmentGeometry where
  slabBytes : Nat
  segmentBytes : Nat
  segmentCount : Nat
  alignment : Alignment
  segmentBytes_pos : 0 < segmentBytes
  slabBytes_pos : 0 < slabBytes
  segmentCount_pos : 0 < segmentCount
  segments_fill : segmentBytes ∣ slabBytes
  segments_fit : segmentCount ≤ slabBytes / segmentBytes
  offset_aligned : alignment.offset ∣ segmentBytes
  length_aligned : alignment.length ∣ segmentBytes
  addressable : segmentCount * segmentBytes < 2 ^ 64
  deriving DecidableEq, Repr

/-- Validate physical geometry. -/
def SegmentGeometry.new (slabBytes segmentBytes segmentCount : Nat) (alignment : Alignment) :
    Except Error SegmentGeometry :=
  if valid : 0 < segmentBytes ∧ 0 < slabBytes ∧ 0 < segmentCount ∧ segmentBytes ∣ slabBytes ∧
      segmentCount ≤ slabBytes / segmentBytes ∧ alignment.offset ∣ segmentBytes ∧
      alignment.length ∣ segmentBytes ∧ segmentCount * segmentBytes < 2 ^ 64 then
    .ok {
      slabBytes, segmentBytes, segmentCount, alignment
      segmentBytes_pos := valid.1
      slabBytes_pos := valid.2.1
      segmentCount_pos := valid.2.2.1
      segments_fill := valid.2.2.2.1
      segments_fit := valid.2.2.2.2.1
      offset_aligned := valid.2.2.2.2.2.1
      length_aligned := valid.2.2.2.2.2.2.1
      addressable := valid.2.2.2.2.2.2.2 }
  else .error .corrupt

theorem SegmentGeometry.new_eq_ok {slabBytes segmentBytes segmentCount : Nat}
    {alignment : Alignment} {geometry : SegmentGeometry}
    (made : SegmentGeometry.new slabBytes segmentBytes segmentCount alignment = .ok geometry) :
    geometry.segmentBytes = segmentBytes ∧ geometry.segmentCount = segmentCount ∧
      geometry.alignment = alignment := by
  unfold SegmentGeometry.new at made
  split at made
  · cases made
    exact ⟨rfl, rfl, rfl⟩
  · cases made

end Unbounded.Alloc
