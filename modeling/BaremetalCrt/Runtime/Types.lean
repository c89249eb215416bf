/-
# BaremetalCrt.Runtime.Types — the constants and the plain records of the runtime.

Error codes and memory flags (`CL/cl.h`), the object magic (`config_cl.h`), the alignment macro
(`type_cl.h`) and the three records of the communication area (`drivers/comm.h`) with their layout
in memory.  Fixed-width fields are fixed-width words, so sums wrap exactly where the source's do.
The host is little-endian.

The codes carry the reason in their names, and most of them stand for a handle that failed its check.
`CommAreaHeader` and `CommArgHeader` have their layout in `toBytes`, which `ofBytes` reads back.
-/
import BaremetalCrt.Lib.Bytes

namespace BaremetalCrt

open Lib

/-! ## Error codes -/

/-- `cl_int` as a return code: zero, or the negative number of an error. -/
abbrev ClInt := Int

/-- `CL_SUCCESS`: the only code that is not an error. -/
def clSuccess : ClInt := 0
/-- `CL_DEVICE_NOT_FOUND`: no device of the type is in the list. -/
def clDeviceNotFound : ClInt := -1
/-- `CL_OUT_OF_RESOURCES`: the device, the socket or a file does not do what it should. -/
def clOutOfResources : ClInt := -5
/-- `CL_OUT_OF_HOST_MEMORY`: an allocation failed, or a buffer of the runtime is too small. -/
def clOutOfHostMemory : ClInt := -6
/-- `CL_INVALID_VALUE`: an argument is out of range. -/
def clInvalidValue : ClInt := -30

/-- `CL_INVALID_PLATFORM`: the handle of a platform. -/
def clInvalidPlatform : ClInt := -32
/-- `CL_INVALID_DEVICE`: the handle of a device, or what a driver found there. -/
def clInvalidDevice : ClInt := -33

/-- `CL_INVALID_CONTEXT`: the handle of a context. -/
def clInvalidContext : ClInt := -34

/-- `CL_INVALID_COMMAND_QUEUE`: the handle of a queue, and what every release of one returns. -/
def clInvalidCommandQueue : ClInt := -36
/-- `CL_INVALID_HOST_PTR`: the flags of a buffer ask for host memory, and there is none. -/
def clInvalidHostPtr : ClInt := -37

/-- `CL_INVALID_MEM_OBJECT`: the handle of a buffer. -/
def clInvalidMemObject : ClInt := -38
/-- `CL_INVALID_BINARY`: the loader does not take the file. -/
def clInvalidBinary : ClInt := -42

/-- `CL_INVALID_PROGRAM`: the handle of a program. -/
def clInvalidProgram : ClInt := -44

/-- `CL_INVALID_KERNEL_NAME`: no name was given for a kernel. -/
def clInvalidKernelName : ClInt := -46

/-- `CL_INVALID_KERNEL`: the handle of a kernel. -/
def clInvalidKernel : ClInt := -48
/-- `CL_INVALID_ARG_VALUE`: the pointer to a value is `NULL`. -/
def clInvalidArgValue : ClInt := -50
/-- `CL_INVALID_BUFFER_SIZE`: a buffer of no bytes. -/
def clInvalidBufferSize : ClInt := -61

/-! ## Flags and magic numbers -/

/-- `CL_MEM_READ_WRITE`: the device reads and writes the buffer. -/
def clMemReadWrite : UInt32 := 1
/-- `CL_MEM_WRITE_ONLY`: the device writes it, so that it is not sent. -/
def clMemWriteOnly : UInt32 := 2
/-- `CL_MEM_READ_ONLY`: the device reads it, so that it is not read back. -/
def clMemReadOnly : UInt32 := 4
/-- `CL_MEM_USE_HOST_PTR`: the storage of the buffer is the host's own. -/
def clMemUseHostPtr : UInt32 := 8

/-- `CL_MEM_ALLOC_HOST_PTR`: the flag is refused. -/
def clMemAllocHostPtr : UInt32 := 16
/-- `CL_MEM_COPY_HOST_PTR`: the storage is new, and a copy of the host's bytes. -/
def clMemCopyHostPtr : UInt32 := 32

/-- `OPENCL_ICD_MAGIC`: the tag every live object carries. -/
def openclIcdMagic : UInt32 := 0xdeadbeaf

/-- `BAREMETAL_CRT_COMM_MAGIC`: the tag of the communication area and of its section. -/
def baremetalCrtCommMagic : UInt32 := 0xbadcafe5

/-- The bytes of a string literal, without the terminator. -/
def ascii (s : String) : List UInt8 := s.toList.map fun c => UInt8.ofNat c.toNat

/-- `ALIGN_OF(x, align)`, in the 64-bit arithmetic of the macro's uses. -/
def alignOf (x align : UInt64) : UInt64 :=
  if x % align = 0 then x else (x / align + 1) * align

/-! ## The communication area (`drivers/comm.h`) -/

/-- `__COMM_ARG_NOTUSED`: no argument was set. -/
def commArgNotused : UInt32 := 0
/-- `__COMM_ARG_VAL`: the bytes behind a pointer, which are sent with the argument. -/
def commArgVal : UInt32 := 1
/-- `__COMM_ARG_MEM`: a buffer, whose bytes are sent and read back as its flags say. -/
def commArgMem : UInt32 := 2

/-- `struct __comm_area_header`, which is in front of the communication area: the tag, the number of
arguments, whether the kernel is done, and what its `main` returned. -/
structure CommAreaHeader where
  magic : UInt32
  numArgs : UInt32
  done : UInt32
  retMain : UInt32
  deriving DecidableEq, Repr

/-- `struct __comm_arg_header`, which is in front of every argument in the area: its type, its number, and
how many bytes of it follow. -/
structure CommArgHeader where
  argtype : UInt32
  index : UInt32
  size : UInt64
  deriving DecidableEq, Repr

/-- `sizeof(struct __comm_area_header)`, of four words. -/
def sizeofCommAreaHeader : UInt64 := 16

/-- `sizeof(struct __comm_arg_header)`: two words and a size of eight bytes. -/
def sizeofCommArgHeader : UInt64 := 16

/-- The record as it lies in memory: little-endian, without padding. -/
def CommAreaHeader.toBytes (h : CommAreaHeader) : List UInt8 :=
  leBytes 4 h.magic.toNat ++ leBytes 4 h.numArgs.toNat ++ leBytes 4 h.done.toNat ++
    leBytes 4 h.retMain.toNat

/-- The record that sixteen bytes of memory are read as. -/
def CommAreaHeader.ofBytes (bs : List UInt8) : CommAreaHeader where
  magic := UInt32.ofNat (leNat (bs.take 4))
  numArgs := UInt32.ofNat (leNat ((bs.drop 4).take 4))
  done := UInt32.ofNat (leNat ((bs.drop 8).take 4))
  retMain := UInt32.ofNat (leNat ((bs.drop 12).take 4))

/-- The record as it lies in memory, likewise. -/
def CommArgHeader.toBytes (h : CommArgHeader) : List UInt8 :=
  leBytes 4 h.argtype.toNat ++ leBytes 4 h.index.toNat ++ leBytes 8 h.size.toNat

/-- The record that sixteen bytes of memory are read as. -/
def CommArgHeader.ofBytes (bs : List UInt8) : CommArgHeader where
  argtype := UInt32.ofNat (leNat (bs.take 4))
  index := UInt32.ofNat (leNat ((bs.drop 4).take 4))
  size := UInt64.ofNat (leNat ((bs.drop 8).take 8))

@[simp] theorem CommAreaHeader.length_toBytes (h : CommAreaHeader) : h.toBytes.length = 16 := by
  simp [toBytes]

@[simp] theorem CommArgHeader.length_toBytes (h : CommArgHeader) : h.toBytes.length = 16 := by
  simp [toBytes]

/-- A header written to memory is read back as it was. -/
@[simp] theorem CommAreaHeader.ofBytes_toBytes (h : CommAreaHeader) : ofBytes h.toBytes = h := by
  obtain ⟨m, n, d, r⟩ := h
  have hdrop (v k : Nat) (hk : 4 ≤ k) : (leBytes 4 v).drop k = [] :=
    List.drop_eq_nil_of_le (by simpa using hk)
  have htake (v : Nat) : (leBytes 4 v).take 4 = leBytes 4 v :=
    List.take_of_length_le (by simp)
  simp [ofBytes, toBytes, List.drop_append, leNat_leBytes, hdrop, htake]

@[simp] theorem CommArgHeader.ofBytes_toBytes (h : CommArgHeader) : ofBytes h.toBytes = h := by
  obtain ⟨t, i, n⟩ := h
  have hdrop (w v k : Nat) (hk : w ≤ k) : (leBytes w v).drop k = [] :=
    List.drop_eq_nil_of_le (by simpa using hk)
  have htake (w v : Nat) : (leBytes w v).take w = leBytes w v :=
    List.take_of_length_le (by simp)
  simp [ofBytes, toBytes, List.drop_append, leNat_leBytes, hdrop, htake]

/-- `struct program_comm`: where the communication area lies on the device. -/
structure ProgramComm where
  addr : UInt64
  size : UInt64
  deriving DecidableEq, Repr

end BaremetalCrt
