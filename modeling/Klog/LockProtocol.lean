import Klog.SnapshotInterleaved

set_option autoImplicit false

/- The critical section of `klog_printf_internal` at the grain of its locks. With interrupts
off, the writer on CPU `c` formats its message, takes the lock of ring `c`, draws its sequence
number with `next_seq` under `seq_lock` and stores it in the slot at `head % N`
(`entry->seq = next_seq()`), fills in the other fields and the message, moves `head` and
releases the lock. Between any two of these steps the writers of the other CPUs run theirs, and
so do the per-CPU steps of `klog_clear` and the visits of a `klog_snapshot` collector; these
two take the ring's lock, so they wait while the ring's writer holds it.

The atomic model of `Klog.Append` is what this protocol looks like to a reader that takes the
locks: completing the write each lock holder has drawn for (`LockState.flush`) maps every step
to a step of `LogStep` or to none, an append taking effect at its `next_seq`. -/
namespace Klog

/-- What a call of `klog_printf_internal` on a valid CPU brings into its critical section:
the level, the pid, the two halves of `rdtsc` and the formatted `buf`. -/
structure WriterCall where
  level : BitVec 32
  pid : BitVec 32
  tsc : BitVec 32 × BitVec 32
  buf : Nat → Char

/-- Where the writer of one CPU stands: outside the ring's lock, holding it before
`next_seq`, or holding it with its sequence number stored in the slot. -/
inductive WriterPhase
  | idle
  | locked (call : WriterCall)
  | drawn (call : WriterCall)

/-- `entry->seq = next_seq();`: the slot at `head % N` with its sequence number replaced. -/
def drawSlot (log : KlogCpuBuf) (seq : BitVec 32) : KlogCpuBuf :=
  ⟨Function.update log.entries (slotOf log.head.toNat)
    { log.entries (slotOf log.head.toNat) with seq := seq }, log.head, log.dropped⟩

/-- The rest of the critical section on CPU `c`: the timestamp, `cpu`, `pid`, `level` and the
message written into the slot, then `log->head++`. -/
def fillSlot (log : KlogCpuBuf) (c : Nat) (call : WriterCall) : KlogCpuBuf :=
  let old := log.entries (slotOf log.head.toNat)
  ⟨Function.update log.entries (slotOf log.head.toNat)
    ⟨old.seq, call.tsc.1, call.tsc.2, BitVec.ofNat 32 c, call.pid, call.level,
      msgCopy call.buf old.msg, msgCopy_length call.buf old.msg old.msg_length⟩,
    log.head + 1, log.dropped⟩

/-- The log, its history, and where the writer of each CPU stands. -/
structure LockState where
  log : KlogState
  hist : AbsLog
  writers : Nat → WriterPhase

/-- The zero-initialised statics, no lock held. -/
def LockState.boot : LockState :=
  ⟨staticState, AbsLog.empty, fun _ => .idle⟩

/-- The steps of the writers and of `klog_clear`, one CPU at a time. A writer takes the lock
of its own ring when no one holds it; `next_seq` draws `global_seq` and the history records the
append there; the fill completes the slot and releases the lock. A step of `klog_clear` takes
the ring's lock, so it waits for the ring's writer. -/
inductive LockStep (NCPU : Nat) : LockState → LockState → Prop
  | acquire {x : LockState} {c : Nat} (call : WriterCall) (valid : c < NCPU) (small : c < 2 ^ 31)
      (free : x.writers c = .idle) :
      LockStep NCPU x ⟨x.log, x.hist, Function.update x.writers c (.locked call)⟩
  | draw {x : LockState} {c : Nat} {call : WriterCall} (holding : x.writers c = .locked call) :
      LockStep NCPU x
        ⟨⟨Function.update x.log.cpuLogs c (drawSlot (x.log.cpuLogs c) (nextSeq x.log.globalSeq).1),
            (nextSeq x.log.globalSeq).2⟩,
          x.hist.record c (appendEntry x.log c call.level call.pid call.tsc call.buf),
          Function.update x.writers c (.drawn call)⟩
  | fill {x : LockState} {c : Nat} {call : WriterCall} (holding : x.writers c = .drawn call) :
      LockStep NCPU x
        ⟨x.log.setLog c (fillSlot (x.log.cpuLogs c) c call), x.hist,
          Function.update x.writers c .idle⟩
  | clear {x : LockState} {c : Nat} (valid : c < NCPU) (free : x.writers c = .idle) :
      LockStep NCPU x ⟨clearCpu x.log c, x.hist.reset c, x.writers⟩

/-- The states the protocol reaches from boot. -/
def LockReachable (NCPU : Nat) (x : LockState) : Prop :=
  Relation.ReflTransGen (LockStep NCPU) LockState.boot x

/-- Only a CPU the code can run a writer on holds a ring's lock. -/
def LockState.Busy (NCPU : Nat) (x : LockState) : Prop :=
  ∀ c, x.writers c ≠ .idle → c < NCPU ∧ c < 2 ^ 31

/-! ### The log as the lock-respecting readers find it -/

/-- Ring `c` with the write of its lock holder completed, if it has drawn. -/
def WriterPhase.complete (c : Nat) : WriterPhase → KlogCpuBuf → KlogCpuBuf
  | .drawn call, log => fillSlot log c call
  | _, log => log

/-- Every drawn write completed: the state a reader sees once it gets each lock. -/
def LockState.flush (x : LockState) : KlogState :=
  ⟨fun c => (x.writers c).complete c (x.log.cpuLogs c), x.log.globalSeq⟩

@[simp] theorem complete_idle (c : Nat) (log : KlogCpuBuf) : WriterPhase.idle.complete c log = log :=
  rfl

@[simp] theorem complete_locked (c : Nat) (call : WriterCall) (log : KlogCpuBuf) :
    (WriterPhase.locked call).complete c log = log := rfl

@[simp] theorem complete_drawn (c : Nat) (call : WriterCall) (log : KlogCpuBuf) :
    (WriterPhase.drawn call).complete c log = fillSlot log c call := rfl

@[simp] theorem flush_globalSeq (x : LockState) : x.flush.globalSeq = x.log.globalSeq := rfl

theorem flush_cpuLogs (x : LockState) (c : Nat) :
    x.flush.cpuLogs c = (x.writers c).complete c (x.log.cpuLogs c) := rfl

/-- An unlocked ring is as the readers find it. -/
theorem flush_of_idle {x : LockState} {c : Nat} (free : x.writers c = .idle) :
    x.flush.cpuLogs c = x.log.cpuLogs c := by
  rw [flush_cpuLogs, free, complete_idle]

/-- Drawing `next_seq` into the slot and then filling it is the atomic append. -/
theorem fillSlot_drawSlot (s : KlogState) (c : Nat) (call : WriterCall) :
    fillSlot (drawSlot (s.cpuLogs c) s.globalSeq) c call =
      (klogAppend s c call.level call.pid call.tsc call.buf).cpuLogs c := by
  rw [klogAppend_same]
  simp only [fillSlot, drawSlot, Function.update_same, Function.update_idem]
  rfl

/-! ### One step of the protocol is one atomic step or none -/

theorem KlogState.eq_of_logs {s t : KlogState} (logs : ∀ c, s.cpuLogs c = t.cpuLogs c)
    (seq : s.globalSeq = t.globalSeq) : s = t := by
  cases s
  cases t
  exact (KlogState.mk.injEq _ _ _ _).mpr ⟨funext logs, seq⟩

section Steps

variable {x : LockState} {c : Nat}

theorem flush_acquire (call : WriterCall) (free : x.writers c = .idle) :
    LockState.flush ⟨x.log, x.hist, Function.update x.writers c (.locked call)⟩ = x.flush := by
  refine KlogState.eq_of_logs (fun d => ?_) rfl
  simp only [flush_cpuLogs]
  by_cases same : d = c
  · subst same
    rw [Function.update_same, free, complete_locked, complete_idle]
  · rw [Function.update_noteq same]

theorem flush_draw {call : WriterCall} (holding : x.writers c = .locked call) :
    LockState.flush
        ⟨⟨Function.update x.log.cpuLogs c (drawSlot (x.log.cpuLogs c) (nextSeq x.log.globalSeq).1),
            (nextSeq x.log.globalSeq).2⟩,
          x.hist.record c (appendEntry x.log c call.level call.pid call.tsc call.buf),
          Function.update x.writers c (.drawn call)⟩ =
      klogAppend x.flush c call.level call.pid call.tsc call.buf := by
  have ringC : x.log.cpuLogs c = x.flush.cpuLogs c := by
    rw [flush_cpuLogs, holding, complete_locked]
  refine KlogState.eq_of_logs (fun d => ?_) rfl
  simp only [flush_cpuLogs]
  by_cases same : d = c
  · subst same
    rw [Function.update_same, Function.update_same, complete_drawn, ringC]
    exact fillSlot_drawSlot x.flush d call
  · rw [Function.update_noteq same, Function.update_noteq same, klogAppend_ne _ _ _ _ _ _ same]
    rfl

theorem flush_fill {call : WriterCall} (holding : x.writers c = .drawn call) :
    LockState.flush ⟨x.log.setLog c (fillSlot (x.log.cpuLogs c) c call), x.hist,
      Function.update x.writers c .idle⟩ = x.flush := by
  refine KlogState.eq_of_logs (fun d => ?_) rfl
  simp only [flush_cpuLogs]
  by_cases same : d = c
  · subst same
    rw [Function.update_same, KlogState.setLog_same, holding, complete_idle, complete_drawn]
  · rw [Function.update_noteq same, KlogState.setLog_ne _ _ same]

theorem flush_clear (free : x.writers c = .idle) :
    LockState.flush ⟨clearCpu x.log c, x.hist.reset c, x.writers⟩ = clearCpu x.flush c := by
  refine KlogState.eq_of_logs (fun d => ?_) rfl
  simp only [flush_cpuLogs]
  by_cases same : d = c
  · subst same
    rw [clearCpu_same, free, complete_idle, clearCpu_same, flush_of_idle free]
  · rw [clearCpu_ne _ _ same, clearCpu_ne _ _ same]
    rfl

end Steps

/-- Moving one writer keeps the lock holders on CPUs the code can run a writer on, when the
moved writer is on one or lets its lock go. -/
theorem busy_update {NCPU : Nat} {writers : Nat → WriterPhase}
    (busy : ∀ d, writers d ≠ .idle → d < NCPU ∧ d < 2 ^ 31) {c : Nat} {p : WriterPhase}
    (mine : p ≠ .idle → c < NCPU ∧ c < 2 ^ 31) :
    ∀ d, Function.update writers c p d ≠ .idle → d < NCPU ∧ d < 2 ^ 31 := by
  intro d held
  by_cases same : d = c
  · subst same
    rw [Function.update_same] at held
    exact mine held
  · rw [Function.update_noteq same] at held
    exact busy d held

/-- Each step of the protocol is, on the flushed state and the history, one step of the
atomic log (a `next_seq` or a step of `klog_clear`) or no change (taking or releasing a lock);
and lock holders stay on CPUs the code can run a writer on. -/
theorem LockStep.flush {NCPU : Nat} {x y : LockState} (busy : x.Busy NCPU)
    (step : LockStep NCPU x y) :
    y.Busy NCPU ∧ (LogStep NCPU (x.flush, x.hist) (y.flush, y.hist) ∨
      (y.flush = x.flush ∧ y.hist = x.hist)) := by
  cases step with
  | @acquire c call valid small free =>
    exact ⟨busy_update busy fun _ => ⟨valid, small⟩, .inr ⟨flush_acquire call free, rfl⟩⟩
  | @draw c call holding =>
    have mine := busy c (by rw [holding]; exact WriterPhase.noConfusion)
    refine ⟨busy_update busy fun _ => mine, .inl ?_⟩
    have entry : appendEntry x.log c call.level call.pid call.tsc call.buf =
        appendEntry x.flush c call.level call.pid call.tsc call.buf := by
      simp only [appendEntry, flush_cpuLogs, holding, complete_locked, flush_globalSeq]
    rw [flush_draw holding, entry]
    exact .append _ _ _ _ mine.1 mine.2
  | @fill c call holding =>
    exact ⟨busy_update busy fun idle => absurd rfl idle, .inr ⟨flush_fill holding, rfl⟩⟩
  | @clear c valid free =>
    exact ⟨busy, .inl (by rw [flush_clear free]; exact .clear valid)⟩

/-- Every state the protocol reaches from boot completes to a state of the atomic log,
reachable with the same history, and only CPUs below `NCPU` hold a lock. -/
theorem LockReachable.flush {NCPU : Nat} {x : LockState} (reach : LockReachable NCPU x) :
    x.Busy NCPU ∧ Reachable NCPU x.flush x.hist := by
  induction reach with
  | refl => exact ⟨fun _ held => absurd rfl held, Reachable.boot NCPU⟩
  | tail _ step ih =>
    obtain ⟨busy, atomic | ⟨same, kept⟩⟩ := step.flush ih.1
    · exact ⟨busy, ih.2.step atomic⟩
    · rw [same, kept]
      exact ⟨busy, ih.2⟩

/-- The protocol refines the atomic log: completing the writes drawn under a lock gives a
state reachable by atomic appends and clears with the same history, each append placed at its
`next_seq`. Across every interleaving `next_seq` hands out each number once and in order: the
records issued carry `0, 1, ..., n - 1` (mod `2^32`) and `global_seq` is `n`. A ring whose lock
is free holds, as its valid records, the last `min(k mod 2^32, 256)` of the `k` records
appended to it since its last clear: whoever takes the lock finds no half-written record. -/
theorem lockReachable_refines {NCPU : Nat} {x : LockState} (reach : LockReachable NCPU x) :
    Reachable NCPU x.flush x.hist ∧
      x.hist.issued.map KlogEntry.seq =
        (List.range x.hist.issued.length).map (BitVec.ofNat 32) ∧
      x.log.globalSeq = BitVec.ofNat 32 x.hist.issued.length ∧
      ∀ c, x.writers c = .idle → validRecords (x.log.cpuLogs c) =
        (x.hist.since c).drop
          ((x.hist.since c).length - min ((x.hist.since c).length % 2 ^ 32) 256) := by
  obtain ⟨-, atomic⟩ := reach.flush
  have inv := atomic.logInv
  refine ⟨atomic, inv.seqs, inv.global, fun c free => ?_⟩
  rw [← flush_of_idle free]
  exact inv.validRecords_eq c

/-- A call at level 0 from pid 0 at time 0 with an empty message. -/
def WriterCall.blank : WriterCall :=
  ⟨0, 0, (0, 0), fun _ => nul⟩

theorem lockReachable_refines_drawn :
    ∃ x, LockReachable 1 x ∧ x.writers 0 = .drawn WriterCall.blank ∧
      (Reachable 1 x.flush x.hist ∧
        x.hist.issued.map KlogEntry.seq =
          (List.range x.hist.issued.length).map (BitVec.ofNat 32) ∧
        x.log.globalSeq = BitVec.ofNat 32 x.hist.issued.length ∧
        ∀ c, x.writers c = .idle → validRecords (x.log.cpuLogs c) =
          (x.hist.since c).drop
            ((x.hist.since c).length - min ((x.hist.since c).length % 2 ^ 32) 256)) :=
  have reach : LockReachable 1 _ :=
    (Relation.ReflTransGen.single
      (LockStep.acquire (c := 0) WriterCall.blank (by decide) (by decide) rfl)).tail
      (@LockStep.draw 1 _ 0 WriterCall.blank rfl)
  ⟨_, reach, rfl, lockReachable_refines reach⟩

/-! ### A collector against the protocol -/

/-- The system while a `klog_snapshot` runs against the protocol: the visit of the next CPU,
which takes that ring's lock and so waits while the ring's writer holds it, or a step of any
writer or of `klog_clear`. -/
inductive LockSnapStep (NCPU : Nat) (m : BitVec 32) :
    LockState × Collector → LockState × Collector → Prop
  | visit {x : LockState} {col : Collector} {buf : List KlogEntry} {count : Nat}
      (more : col.next < NCPU) (free : x.writers col.next = .idle)
      (copied : copyCpu (x.log.cpuLogs col.next) m col.buf col.count = some (buf, count)) :
      LockSnapStep NCPU m (x, col)
        (x, ⟨col.next + 1, buf, count, Function.update col.seen col.next (x.log.cpuLogs col.next)⟩)
  | step {x y : LockState} {col : Collector} (step : LockStep NCPU x y) :
      LockSnapStep NCPU m (x, col) (y, col)

/-- A visit sees the ring as the flushed state has it, since it holds the ring's lock. -/
theorem LockSnapStep.flush {NCPU : Nat} {m : BitVec 32} {x y : LockState × Collector}
    (busy : x.1.Busy NCPU) (step : LockSnapStep NCPU m x y) :
    y.1.Busy NCPU ∧ (SnapStep NCPU m (x.1.flush, x.1.hist, x.2) (y.1.flush, y.1.hist, y.2) ∨
      (y.1.flush, y.1.hist, y.2) = (x.1.flush, x.1.hist, x.2)) := by
  cases step with
  | visit more free copied =>
    refine ⟨busy, .inl ?_⟩
    rw [← flush_of_idle free] at copied ⊢
    exact .visit more copied
  | step step =>
    obtain ⟨busy', atomic | ⟨same, kept⟩⟩ := step.flush busy
    · exact ⟨busy', .inl (.writer atomic)⟩
    · exact ⟨busy', .inr (by rw [same, kept])⟩

/-- A run of the collector against the protocol is, on the flushed states, a run of the
collector against the atomic log. -/
theorem LockSnapStep.run {NCPU : Nat} {m : BitVec 32} {x y : LockState × Collector}
    (busy : x.1.Busy NCPU) (run : Relation.ReflTransGen (LockSnapStep NCPU m) x y) :
    y.1.Busy NCPU ∧
      Relation.ReflTransGen (SnapStep NCPU m) (x.1.flush, x.1.hist, x.2) (y.1.flush, y.1.hist, y.2) := by
  induction run with
  | refl => exact ⟨busy, .refl⟩
  | tail _ step ih =>
    obtain ⟨busy', atomic | same⟩ := step.flush ih.1
    · exact ⟨busy', ih.2.tail atomic⟩
    · exact ⟨busy', same ▸ ih.2⟩

/-- A `klog_snapshot` collector whose visits, each under one ring's lock, interleave with the
steps of the writers on every CPU at the grain of their locks and with the steps of
`klog_clear`, returns, once it has visited every CPU, the sorted snapshot `SnapshotSpec`
describes for the rings it saw. -/
theorem lockSnapshot_collects {NCPU : Nat} (buf : List KlogEntry) (m : BitVec 32)
    (positive : 1 ≤ m.toInt) (fits : m.toInt ≤ buf.length) {x0 x : LockState} {col : Collector}
    (start : LockReachable NCPU x0)
    (run : Relation.ReflTransGen (LockSnapStep NCPU m) (x0, Collector.start buf) (x, col))
    (done : col.next = NCPU) (few : x.hist.issued.length < 2 ^ 32)
    (nonempty : 1 ≤ (walk col.seen (List.range NCPU)).length) :
    SnapshotSpec col.seen (List.range NCPU) m buf
      ((bubbleSort col.buf col.count).map fun sorted => (col.count, sorted)) := by
  obtain ⟨busy, reach⟩ := start.flush
  obtain ⟨-, atomic⟩ := LockSnapStep.run busy run
  exact ((SnapInv.start m buf reach).run atomic).collects positive fits done few nonempty

/-- Two CPUs, room for two of three records: CPU 1 and CPU 0 each write a record, CPU 1 takes
its lock again, the collector visits CPU 0, CPU 1 draws, fills and releases, and the collector
visits CPU 1. -/
theorem lockSnapshot_collects_two_cpus :
    ∃ x col, LockReachable 2 LockState.boot ∧
      Relation.ReflTransGen (LockSnapStep 2 2)
        (LockState.boot, Collector.start (List.replicate 3 KlogEntry.zero)) (x, col) ∧
      col.next = 2 ∧ x.hist.issued.length = 3 ∧ x.hist.issued.length < 2 ^ 32 ∧
      1 ≤ (walk col.seen (List.range 2)).length ∧
      SnapshotSpec col.seen (List.range 2) 2 (List.replicate 3 KlogEntry.zero)
        ((bubbleSort col.buf col.count).map fun sorted => (col.count, sorted)) := by
  refine' ⟨_, _, .refl, ?run, ?done, ?three, ?few, ?nonempty,
    lockSnapshot_collects (List.replicate 3 KlogEntry.zero) 2 (by decide) (by decide) .refl ?run
      ?done ?few ?nonempty⟩
  case run =>
    refine' ((((((((((Relation.ReflTransGen.single
      (LockSnapStep.step (LockStep.acquire (c := 1) WriterCall.blank ?_ ?_ ?_))).tail
      (LockSnapStep.step (@LockStep.draw 2 _ 1 WriterCall.blank ?_))).tail
      (LockSnapStep.step (@LockStep.fill 2 _ 1 WriterCall.blank ?_))).tail
      (LockSnapStep.step (LockStep.acquire (c := 0) WriterCall.blank ?_ ?_ ?_))).tail
      (LockSnapStep.step (@LockStep.draw 2 _ 0 WriterCall.blank ?_))).tail
      (LockSnapStep.step (@LockStep.fill 2 _ 0 WriterCall.blank ?_))).tail
      (LockSnapStep.step (LockStep.acquire (c := 1) WriterCall.blank ?_ ?_ ?_))).tail
      (LockSnapStep.visit ?_ ?_ ?_)).tail
      (LockSnapStep.step (@LockStep.draw 2 _ 1 WriterCall.blank ?_))).tail
      (LockSnapStep.step (@LockStep.fill 2 _ 1 WriterCall.blank ?_))).tail
      (LockSnapStep.visit ?_ ?_ ?_)
    all_goals try rfl
    all_goals try decide
  all_goals decide

end Klog
