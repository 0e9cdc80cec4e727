import UidGenerator.Spec.Basic

/-! `bits-allocator.ts`: the 64 bits of a UID, sign (fixed 1 bit), delta seconds,
worker id and sequence within the second. -/

namespace UID

def TOTAL_BITS : ℤ := numberShiftLeft 1 6

structure BitsAllocator where
  signBits : ℤ := 1
  timestampBits : ℤ
  workerIdBits : ℤ
  sequenceBits : ℤ
  maxDeltaSeconds : ℤ
  maxWorkerId : ℤ
  maxSequence : ℤ
  timestampShift : ℤ
  workerIdShift : ℤ
  deriving DecidableEq, Repr

namespace BitsAllocator

/-- The constructor. Only the sum of the widths is checked, a sum of doubles like every
sum of numbers. -/
def new (timestampBits workerIdBits sequenceBits : ℤ) : Except Throwable BitsAllocator := do
  let allocateTotalBits :=
    roundToDouble (roundToDouble (roundToDouble (1 + timestampBits) + workerIdBits) + sequenceBits)
  isTrue (allocateTotalBits = TOTAL_BITS) "allocate not enough 64 bits"
  return {
    timestampBits
    workerIdBits
    sequenceBits
    maxDeltaSeconds := not (shiftLeft (-1) timestampBits)
    maxWorkerId := not (shiftLeft (-1) workerIdBits)
    maxSequence := not (shiftLeft (-1) sequenceBits)
    timestampShift := roundToDouble (workerIdBits + sequenceBits)
    workerIdShift := sequenceBits }

def allocate (A : BitsAllocator) (deltaSeconds workerId sequence : ℤ) : ℤ :=
  or (or (shiftLeft deltaSeconds A.timestampShift) (shiftLeft workerId A.workerIdShift)) sequence

end BitsAllocator

structure UidFields where
  deltaSeconds : ℤ
  workerId : ℤ
  sequence : ℤ
  deriving DecidableEq, Repr

/-- The shifts of `DefaultUidGenerator.parseUID`. -/
def BitsAllocator.parse (A : BitsAllocator) (uid : ℤ) : UidFields where
  sequence :=
    unsignedShiftRight (shiftLeft uid (roundToDouble (TOTAL_BITS - A.sequenceBits)))
      (roundToDouble (TOTAL_BITS - A.sequenceBits))
  workerId :=
    unsignedShiftRight (shiftLeft uid (roundToDouble (A.timestampBits + A.signBits)))
      (roundToDouble (TOTAL_BITS - A.workerIdBits))
  deltaSeconds := unsignedShiftRight uid (roundToDouble (A.workerIdBits + A.sequenceBits))

end UID
