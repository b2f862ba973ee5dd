import Klog.Format
import Mathlib.Logic.Relation

set_option autoImplicit false

/- The writers of the log: the critical section of `klog_printf_internal`, `klog_clear`
and `klog_init`; and the log's history, kept beside the state as a ghost. Each critical
section is one step: it holds the ring's lock, takes `next_seq` under `seq_lock` inside it, and
rings of different CPUs are disjoint, so a reader that takes the locks sees the appends one
at a time in `seq` order. -/
namespace Klog

/-- What a call of `klog_printf_internal` reads besides its arguments: `cpuid()`, the pid of
`myproc()` when there is one, the two halves of `rdtsc`, and the stale bytes of `buf`. -/
structure KlogCtx where
  cpuId : BitVec 32
  curPid : Option (BitVec 32)
  tsc : BitVec 32 × BitVec 32
  stack : Nat → Char

/-- An `int` is below `2^31`. -/
theorem toInt_lt_two_pow (x : BitVec 32) : x.toInt < 2 ^ 31 := by
  have bound := x.isLt
  rw [BitVec.toInt_eq_toNat_cond]
  split <;> omega

/-- A non-negative `int` is its bits read unsigned. -/
theorem toInt_eq_toNat_of_nonneg {x : BitVec 32} (nonneg : 0 ≤ x.toInt) : x.toInt = x.toNat := by
  have bound := x.isLt
  rw [BitVec.toInt_eq_toNat_cond] at nonneg ⊢
  split_ifs at nonneg ⊢ <;> omega

/-- `next_seq`: the value of `global_seq`, and the counter after `global_seq++`. -/
def nextSeq (globalSeq : BitVec 32) : BitVec 32 × BitVec 32 :=
  (globalSeq, globalSeq + 1)

/-- The entry `klog_printf_internal` fills in on CPU `c` from the formatted `buf`. -/
def appendEntry (s : KlogState) (c : Nat) (level pid : BitVec 32)
    (tsc : BitVec 32 × BitVec 32) (buf : Nat → Char) : KlogEntry :=
  let old := (s.cpuLogs c).entries (slotOf (s.cpuLogs c).head.toNat)
  ⟨(nextSeq s.globalSeq).1, tsc.1, tsc.2, BitVec.ofNat 32 c, pid, level, msgCopy buf old.msg,
    msgCopy_length buf old.msg old.msg_length⟩

/-- The critical section of `klog_printf_internal` under the ring's lock:
`idx = log->head % KLOG_BUF_SIZE`, the entry at `idx` filled in, then `log->head++`. -/
def klogAppend (s : KlogState) (c : Nat) (level pid : BitVec 32)
    (tsc : BitVec 32 × BitVec 32) (buf : Nat → Char) : KlogState :=
  let log := s.cpuLogs c
  ⟨Function.update s.cpuLogs c
    ⟨Function.update log.entries (slotOf log.head.toNat) (appendEntry s c level pid tsc buf),
      log.head + 1, log.dropped⟩,
    (nextSeq s.globalSeq).2⟩

/-- `klog_printf_internal(level, fmt, ap)`: nothing on a CPU id outside `[0, NCPU)`; otherwise
the message is formatted, which faults where `klogFormat` does, and appended. -/
def klogPrintfInternal (NCPU : Nat) (s : KlogState) (ctx : KlogCtx) (level : BitVec 32)
    (fmt : CStr) (args : FmtArgs) : Option KlogState :=
  if ctx.cpuId.toInt < 0 ∨ NCPU ≤ ctx.cpuId.toInt then some s
  else (klogFormat args fmt ctx.stack).map fun buf =>
    klogAppend s ctx.cpuId.toInt.toNat level (ctx.curPid.getD 0) ctx.tsc buf

/-- `klog_printf(fmt, ...)`, at `KLOG_INFO`. -/
def klogPrintf (NCPU : Nat) (s : KlogState) (ctx : KlogCtx) (fmt : CStr) (args : FmtArgs) :
    Option KlogState :=
  klogPrintfInternal NCPU s ctx klogInfo fmt args

/-- `klog_printf_level(level, fmt, ...)`. -/
def klogPrintfLevel (NCPU : Nat) (s : KlogState) (ctx : KlogCtx) (level : BitVec 32)
    (fmt : CStr) (args : FmtArgs) : Option KlogState :=
  klogPrintfInternal NCPU s ctx level fmt args

/-- One iteration of the loops of `klog_clear` and `klog_init`: `head = 0; dropped = 0;`. -/
def clearCpu (s : KlogState) (c : Nat) : KlogState :=
  s.setLog c ⟨(s.cpuLogs c).entries, 0, 0⟩

/-- `klog_clear`: `clearCpu` on each CPU in turn, each under its own lock. -/
def klogClear (NCPU : Nat) (s : KlogState) : KlogState :=
  (List.range NCPU).foldl clearCpu s

/-- The template `klog_init` logs. -/
def initFmt : CStr :=
  ⟨"klog: logging subsystem initialized".toList, by decide⟩

/-- `klog_init`: every cursor and drop counter reset, then the first record. -/
def klogInit (NCPU : Nat) (s : KlogState) (ctx : KlogCtx) (args : FmtArgs) :
    Option KlogState :=
  klogPrintf NCPU (klogClear NCPU s) ctx initFmt args

/-- `klog_get_dropped`: the `uint` sum of the drop counters. -/
def klogGetDropped (NCPU : Nat) (s : KlogState) : BitVec 32 :=
  (List.range NCPU).foldl (fun total c => total + (s.cpuLogs c).dropped) 0

section Simp

variable (s : KlogState) (c : Nat) (level pid : BitVec 32) (tsc : BitVec 32 × BitVec 32)
  (buf : Nat → Char)

@[simp] theorem klogAppend_same :
    (klogAppend s c level pid tsc buf).cpuLogs c =
      ⟨Function.update (s.cpuLogs c).entries (slotOf (s.cpuLogs c).head.toNat)
        (appendEntry s c level pid tsc buf), (s.cpuLogs c).head + 1, (s.cpuLogs c).dropped⟩ :=
  Function.update_same _ _ _

@[simp] theorem klogAppend_ne {d : Nat} (other : d ≠ c) :
    (klogAppend s c level pid tsc buf).cpuLogs d = s.cpuLogs d :=
  Function.update_noteq other _ _

@[simp] theorem klogAppend_globalSeq :
    (klogAppend s c level pid tsc buf).globalSeq = s.globalSeq + 1 := rfl

@[simp] theorem appendEntry_seq : (appendEntry s c level pid tsc buf).seq = s.globalSeq := rfl

@[simp] theorem appendEntry_cpu : (appendEntry s c level pid tsc buf).cpu = BitVec.ofNat 32 c :=
  rfl

@[simp] theorem clearCpu_same : (clearCpu s c).cpuLogs c = ⟨(s.cpuLogs c).entries, 0, 0⟩ :=
  KlogState.setLog_same _ _ _

@[simp] theorem clearCpu_ne {d : Nat} (other : d ≠ c) : (clearCpu s c).cpuLogs d = s.cpuLogs d :=
  KlogState.setLog_ne _ _ other

@[simp] theorem clearCpu_globalSeq : (clearCpu s c).globalSeq = s.globalSeq := rfl

end Simp

/-- A call of `klog_printf_internal` either changes nothing (a CPU id out of range) or is
one `klogAppend` of the formatted buffer on CPU `cpuId`. -/
theorem klogPrintfInternal_eq_some {NCPU : Nat} {s s' : KlogState} {ctx : KlogCtx}
    {level : BitVec 32} {fmt : CStr} {args : FmtArgs}
    (ran : klogPrintfInternal NCPU s ctx level fmt args = some s') :
    s' = s ∨ ∃ buf, ctx.cpuId.toInt.toNat < NCPU ∧ klogFormat args fmt ctx.stack = some buf ∧
      s' = klogAppend s ctx.cpuId.toInt.toNat level (ctx.curPid.getD 0) ctx.tsc buf := by
  unfold klogPrintfInternal at ran
  split at ran
  · exact .inl (Option.some.inj ran).symm
  · obtain ⟨buf, formatted, rfl⟩ := Option.map_eq_some'.mp ran
    exact .inr ⟨buf, by omega, formatted, rfl⟩

/-- The log's history: every record issued so far, in order, and for each CPU the records
appended to it since its ring was last cleared. -/
structure AbsLog where
  issued : List KlogEntry
  since : Nat → List KlogEntry

def AbsLog.empty : AbsLog :=
  ⟨[], fun _ => []⟩

/-- Record `e`, appended on CPU `c`. -/
def AbsLog.record (a : AbsLog) (c : Nat) (e : KlogEntry) : AbsLog :=
  ⟨a.issued ++ [e], Function.update a.since c (a.since c ++ [e])⟩

/-- The ring of CPU `c` cleared. -/
def AbsLog.reset (a : AbsLog) (c : Nat) : AbsLog :=
  ⟨a.issued, Function.update a.since c []⟩

section Simp

variable (a : AbsLog) (c : Nat) (e : KlogEntry)

@[simp] theorem AbsLog.record_issued : (a.record c e).issued = a.issued ++ [e] := rfl

@[simp] theorem AbsLog.record_same : (a.record c e).since c = a.since c ++ [e] :=
  Function.update_same _ _ _

@[simp] theorem AbsLog.record_ne {d : Nat} (other : d ≠ c) : (a.record c e).since d = a.since d :=
  Function.update_noteq other _ _

@[simp] theorem AbsLog.reset_issued : (a.reset c).issued = a.issued := rfl

@[simp] theorem AbsLog.reset_same : (a.reset c).since c = [] :=
  Function.update_same _ _ _

@[simp] theorem AbsLog.reset_ne {d : Nat} (other : d ≠ c) : (a.reset c).since d = a.since d :=
  Function.update_noteq other _ _

end Simp

/-- The atomic steps of the log, each under one ring's lock: the critical section of
`klog_printf_internal` on CPU `c`, whose index is a checked `int`, and one iteration of
`klog_clear`. A `klog_clear` call is `NCPU` such steps, which other CPUs may interleave. -/
inductive LogStep (NCPU : Nat) : KlogState × AbsLog → KlogState × AbsLog → Prop
  | append {s : KlogState} {a : AbsLog} {c : Nat} (level pid : BitVec 32)
      (tsc : BitVec 32 × BitVec 32) (buf : Nat → Char) (valid : c < NCPU) (small : c < 2 ^ 31) :
      LogStep NCPU (s, a)
        (klogAppend s c level pid tsc buf, a.record c (appendEntry s c level pid tsc buf))
  | clear {s : KlogState} {a : AbsLog} {c : Nat} (valid : c < NCPU) :
      LogStep NCPU (s, a) (clearCpu s c, a.reset c)

/-- The states the log reaches from the zero-initialised statics, with their history. -/
def Reachable (NCPU : Nat) (s : KlogState) (a : AbsLog) : Prop :=
  Relation.ReflTransGen (LogStep NCPU) (staticState, AbsLog.empty) (s, a)

theorem Reachable.boot (NCPU : Nat) : Reachable NCPU staticState AbsLog.empty :=
  Relation.ReflTransGen.refl

theorem Reachable.step {NCPU : Nat} {s s' : KlogState} {a a' : AbsLog}
    (reach : Reachable NCPU s a) (step : LogStep NCPU (s, a) (s', a')) : Reachable NCPU s' a' :=
  Relation.ReflTransGen.tail reach step

theorem foldl_reset_issued (a : AbsLog) :
    ∀ cpus : List Nat, (cpus.foldl AbsLog.reset a).issued = a.issued
  | [] => rfl
  | c :: cs => by rw [List.foldl_cons, foldl_reset_issued _ cs, AbsLog.reset_issued]

/-- A call of `klog_printf_internal` from a reachable state is a step of the log, which issues
at most one record. -/
theorem Reachable.printf {NCPU : Nat} {s s' : KlogState} {a : AbsLog} {ctx : KlogCtx}
    {level : BitVec 32} {fmt : CStr} {args : FmtArgs} (reach : Reachable NCPU s a)
    (ran : klogPrintfInternal NCPU s ctx level fmt args = some s') :
    ∃ a', Reachable NCPU s' a' ∧ a'.issued.length ≤ a.issued.length + 1 := by
  rcases klogPrintfInternal_eq_some ran with rfl | ⟨buf, valid, -, rfl⟩
  · exact ⟨a, reach, Nat.le_succ _⟩
  · have small : ctx.cpuId.toInt.toNat < 2 ^ 31 := by
      have := toInt_lt_two_pow ctx.cpuId
      omega
    refine ⟨_, reach.step (.append _ _ _ buf valid small), ?_⟩
    rw [AbsLog.record_issued, List.length_append, List.length_singleton]

/-- `klogClear` on the CPUs of `cpus`, one step each. -/
theorem Reachable.foldl_clear {NCPU : Nat} (cpus : List Nat) (valid : ∀ c ∈ cpus, c < NCPU) :
    ∀ {s : KlogState} {a : AbsLog}, Reachable NCPU s a →
      Reachable NCPU (cpus.foldl clearCpu s) (cpus.foldl AbsLog.reset a) := by
  induction cpus with
  | nil => exact id
  | cons c cpus ih =>
    intro s a reach
    exact ih (fun d mem => valid d (List.mem_cons_of_mem c mem))
      (reach.step (.clear (valid c (List.mem_cons_self c cpus))))

theorem Reachable.klogClear {NCPU : Nat} {s : KlogState} {a : AbsLog}
    (reach : Reachable NCPU s a) :
    Reachable NCPU (klogClear NCPU s) ((List.range NCPU).foldl AbsLog.reset a) :=
  Reachable.foldl_clear _ (fun _ mem => List.mem_range.mp mem) reach

/-- `klog_init` from the zeroed statics reaches a state of the log, with at most one record
issued. -/
theorem klogInit_reachable {NCPU : Nat} {s : KlogState} {ctx : KlogCtx} {args : FmtArgs}
    (booted : klogInit NCPU staticState ctx args = some s) :
    ∃ a, Reachable NCPU s a ∧ a.issued.length ≤ 1 := by
  obtain ⟨a, reach, grew⟩ := (Reachable.boot NCPU).klogClear.printf booted
  exact ⟨a, reach, by rwa [foldl_reset_issued] at grew⟩

/-! ### Clients of the log -/

/-- A call of the log's interface: `klog_printf_internal` from a caller's context (the
`klog_printf` macros are such calls), or `klog_clear`. -/
inductive LogCall
  | printf (ctx : KlogCtx) (level : BitVec 32) (fmt : CStr) (args : FmtArgs)
  | clear

/-- One call of the interface. -/
def LogCall.run (NCPU : Nat) (s : KlogState) : LogCall → Option KlogState
  | .printf ctx level fmt args => klogPrintfInternal NCPU s ctx level fmt args
  | .clear => some (klogClear NCPU s)

/-- Calls of the interface one after another, as a client of the log makes them. -/
def logRun (NCPU : Nat) : KlogState → List LogCall → Option KlogState
  | s, [] => some s
  | s, call :: calls => (call.run NCPU s).bind fun s' => logRun NCPU s' calls

/-- A call of the interface from a reachable state reaches a state, with at most one more
record issued. -/
theorem Reachable.call {NCPU : Nat} {s s' : KlogState} {a : AbsLog} (reach : Reachable NCPU s a)
    {call : LogCall} (ran : call.run NCPU s = some s') :
    ∃ a', Reachable NCPU s' a' ∧ a'.issued.length ≤ a.issued.length + 1 := by
  cases call with
  | printf ctx level fmt args => exact reach.printf ran
  | clear =>
    cases Option.some.inj ran
    exact ⟨_, reach.klogClear, by rw [foldl_reset_issued]; exact Nat.le_succ _⟩

/-- A run of the interface from a reachable state reaches a state, with at most one record
issued per call. -/
theorem Reachable.logRun {NCPU : Nat} :
    ∀ (calls : List LogCall) {s s' : KlogState} {a : AbsLog}, Reachable NCPU s a →
      logRun NCPU s calls = some s' →
      ∃ a', Reachable NCPU s' a' ∧ a'.issued.length ≤ a.issued.length + calls.length
  | [], _, _, a, reach, ran => ⟨a, Option.some.inj ran ▸ reach, Nat.le_add_right _ _⟩
  | call :: calls, s, s', a, reach, ran => by
    obtain ⟨s1, first, rest⟩ := Option.bind_eq_some.mp ran
    obtain ⟨a1, reach1, grew⟩ := reach.call first
    obtain ⟨a', reach', grew'⟩ := Reachable.logRun calls reach1 rest
    exact ⟨a', reach', by rw [List.length_cons]; omega⟩

end Klog
