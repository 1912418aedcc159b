import Mathlib.Data.BitVec
import Mathlib.Logic.Function.Basic
/-!
# Header — the snapshot file header and `setJvmInfo`

`TSnapShotFileHeader` field by field, its GC cause an 80-byte buffer.  `setJvmInfo` copies the GC cause with `strcpy`
and measures it with `strlen` when the snapshot was caused by a GC, and otherwise writes the empty cause (length `1`,
a single NUL in front).  An empty cause after a GC so gets length `0`, which the file format, where the empty cause
has length `1`, does not allow.  `strcpy` has no bound: a cause that does not fit writes past `gcCause`, which is
undefined behaviour, and the model gives `none` there.

`TJvmInfo` lives in `jvmInfo.hpp`, which is not among the sources: it is the record of what its getters return, and
the value of the `GC` enumerator of `TInvokeCause` is a parameter.
-/
namespace HeapStats

/-- `TSnapShotFileHeader` (`#pragma pack(1)`); `jlong` and `jint` fields as their two's-complement bits. -/
structure TSnapShotFileHeader where
  magicNumber : UInt8
  byteOrderMark : UInt8
  snapShotTime : BitVec 64
  size : BitVec 64
  cause : BitVec 32
  gcCauseLen : BitVec 64
  gcCause : Fin 80 → UInt8
  FGCCount : BitVec 64
  YGCCount : BitVec 64
  gcWorktime : BitVec 64
  newAreaSize : BitVec 64
  oldAreaSize : BitVec 64
  totalHeapSize : BitVec 64
  metaspaceUsage : BitVec 64
  metaspaceCapacity : BitVec 64

end HeapStats
