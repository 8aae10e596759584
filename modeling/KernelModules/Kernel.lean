import KernelModules.Lib.CString
import KernelModules.Lib.SearchTree
import Mathlib.Data.List.Nodup

/-!
What the modules take from the kernel they are loaded into: the width of `long`,
the tick rate, the hash of a table index, the rebalancing of red-black trees,
and the copy of a user buffer into a command.

Everything here that lives outside the modules' own source is a field of
`Kernel`, together with the facts the modules rely on. The results hold for
every kernel; `Kernel.x86_64` is one of them, for examples.
-/

namespace KernelModules

open Lib

/-- `int`, and the types that are one. -/
abbrev CInt := BitVec 32

/-- `pid_t`. -/
abbrev PidT := BitVec 32

/-- The identity of an allocation. `kmalloc` never hands out the same identity
twice, so a stale pointer stays recognisable after its memory is reused. -/
abbrev Addr := ℕ

/-- Characters in a command name, its terminator included. -/
abbrev TASK_COMM_LEN : ℕ := 16

abbrev PROCESS_HASH_BITS : ℕ := 8

/-- A bucket of `process_hash`. -/
abbrev Bucket := Fin (2 ^ PROCESS_HASH_BITS)

/-- The kernel a module is loaded into. Of its red-black trees only the in-order
sequence matters: rebalancing after a link keeps it, and erasing a node takes
that node out of it. -/
structure Kernel where
  bitsPerLong : ℕ
  HZ : ℕ
  hashMin : PidT → Bucket
  rbInsertColor : Addr → RbTree Addr → RbTree Addr
  rbErase : Addr → RbTree Addr → RbTree Addr
  bitsPerLong_ge : 32 ≤ bitsPerLong
  HZ_pos : 0 < HZ
  HZ_lt : HZ < 2 ^ bitsPerLong
  toList_rbInsertColor : ∀ node tree, (rbInsertColor node tree).toList = tree.toList
  toList_rbErase : ∀ node tree, tree.toList.Nodup → node ∈ tree.toList →
    (rbErase node tree).toList = tree.toList.erase node

/-- `unsigned long`. -/
abbrev ULong (K : Kernel) := BitVec K.bitsPerLong

theorem Kernel.bitsPerLong_pos (K : Kernel) : 0 < K.bitsPerLong := by
  have hge := K.bitsPerLong_ge
  omega

/-! ### Writes from user space -/

/-- The errors the write handlers return. -/
inductive Errno
  | EINVAL
  | EFAULT
  deriving DecidableEq

/-- One `write` system call: the bytes of the user buffer, and whether reading
them faults. -/
structure UserWrite where
  bytes : List UInt8
  faults : Bool := false
  deriving DecidableEq

/-- The head of every command handler with a buffer of `size` characters: the
length check, then `copy_from_user`. The bytes returned are followed by the
terminator stored at `cmd[count]`. -/
def UserWrite.copy (w : UserWrite) (size : ℕ) : Except Errno (List UInt8) :=
  if size ≤ w.bytes.length then .error .EINVAL
  else if w.faults then .error .EFAULT
  else .ok w.bytes

/-- `if (cmd[count-1] == '\n') cmd[count-1] = '\0';` An empty write makes the
handler look at the byte before its buffer; no byte of the buffer changes. -/
def stripNewline (cmd : List UInt8) : List UInt8 :=
  if cmd.getLast? = some 10 then cmd.dropLast else cmd

/-! ### Two concrete kernels -/

/-- `hash_32`: a multiplicative hash, of which the upper bits are kept. -/
def hash32 (val : PidT) : Bucket :=
  Fin.ofNat _ ((val * 0x61C88647#32) >>> (32 - PROCESS_HASH_BITS)).toNat

/-- A 64-bit kernel with 250 ticks a second. -/
def Kernel.x86_64 : Kernel where
  bitsPerLong := 64
  HZ := 250
  hashMin := hash32
  rbInsertColor _ tree := tree.blacken
  rbErase node tree := (tree.remove node).blacken
  bitsPerLong_ge := by decide
  HZ_pos := by decide
  HZ_lt := by decide
  toList_rbInsertColor _ tree := RbTree.toList_blacken tree
  toList_rbErase node tree _ _ := by rw [RbTree.toList_blacken, RbTree.toList_remove]

/-- The same on 32 bits, where `jiffies` wraps after some months. -/
def Kernel.i386 : Kernel :=
  { Kernel.x86_64 with
    bitsPerLong := 32
    bitsPerLong_ge := by decide
    HZ_lt := by decide }

end KernelModules
