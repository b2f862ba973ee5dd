import Mathlib.Data.BitVec
import Mathlib.Logic.Function.Basic

set_option autoImplicit false

/- The data of the xv6 kernel log (`klog.h`, `klog.c`): the record, the per-CPU rings and
the two globals. Spinlocks are not modelled; each critical section is one step of the model. -/
namespace Klog

/-- `KLOG_BUF_SIZE`: slots of each per-CPU ring. -/
def klogBufSize : Nat := 256

/-- `sizeof(struct klog_entry)`: six `uint` fields and `char msg[64]`. -/
def klogEntrySize : Nat := 88

/-- `KLOG_INFO`, the level `klog_printf` logs at. -/
def klogInfo : BitVec 32 := 1

/-- The `char` 0 that ends a C string. -/
def nul : Char := Char.ofNat 0

/-- A C string, by its characters before the terminator. -/
structure CStr where
  chars : List Char
  nul_not_mem : nul ∉ chars

/-- `struct klog_entry`. `msg` is the whole 64-byte array: the bytes after the terminator keep
what the slot held before. -/
structure KlogEntry where
  seq : BitVec 32
  timestampHi : BitVec 32
  timestampLo : BitVec 32
  cpu : BitVec 32
  pid : BitVec 32
  level : BitVec 32
  msg : List Char
  msg_length : msg.length = 64
deriving DecidableEq

/-- An entry of zero bytes, as the static `cpu_logs` holds it before any append. -/
def KlogEntry.zero : KlogEntry :=
  ⟨0, 0, 0, 0, 0, 0, List.replicate 64 nul, List.length_replicate _ _⟩

/-- The slot `p % KLOG_BUF_SIZE` that cursor position `p` uses. -/
def slotOf (p : Nat) : Fin klogBufSize :=
  ⟨p % klogBufSize, Nat.mod_lt _ (by decide)⟩

theorem slotOf_eq_iff (p q : Nat) : slotOf p = slotOf q ↔ p % 256 = q % 256 := by
  simp only [slotOf, klogBufSize, Fin.mk.injEq]

/-- `struct klog_cpu_buf` without its lock. -/
structure KlogCpuBuf where
  entries : Fin klogBufSize → KlogEntry
  head : BitVec 32
  dropped : BitVec 32

/-- The globals `cpu_logs[NCPU]` and `global_seq`; the code touches no CPU at or above `NCPU`. -/
structure KlogState where
  cpuLogs : Nat → KlogCpuBuf
  globalSeq : BitVec 32

/-- The zero-initialised statics at boot. -/
def staticState : KlogState :=
  ⟨fun _ => ⟨fun _ => KlogEntry.zero, 0, 0⟩, 0⟩

/-- Replace the ring of CPU `c`. -/
def KlogState.setLog (s : KlogState) (c : Nat) (log : KlogCpuBuf) : KlogState :=
  { s with cpuLogs := Function.update s.cpuLogs c log }

@[simp] theorem KlogState.setLog_same (s : KlogState) (c : Nat) (log : KlogCpuBuf) :
    (s.setLog c log).cpuLogs c = log := by
  simp only [setLog, Function.update_same]

@[simp] theorem KlogState.setLog_ne (s : KlogState) {c d : Nat} (log : KlogCpuBuf) (other : d ≠ c) :
    (s.setLog c log).cpuLogs d = s.cpuLogs d := by
  simp only [setLog, Function.update_noteq other]

@[simp] theorem KlogState.setLog_globalSeq (s : KlogState) (c : Nat) (log : KlogCpuBuf) :
    (s.setLog c log).globalSeq = s.globalSeq := rfl

end Klog
