import Klog.Snapshot

set_option autoImplicit false

/- `klog_snapshot` against concurrent writers. It holds one ring's lock at a time, so between
two of its visits the writers on every CPU may append and clear. Each visit reads the ring of
one CPU as it stands at that moment; the ghost `seen` keeps that ring. -/
namespace Klog

/-- `klog_snapshot` part-way through its `cpu_id` loop: the next CPU, the caller's array and
`count`, and the ring each visited CPU held while the collector had its lock. -/
structure Collector where
  next : Nat
  buf : List KlogEntry
  count : Nat
  seen : Nat → KlogCpuBuf

/-- The collector before its first visit, on the caller's array `buf`. -/
def Collector.start (buf : List KlogEntry) : Collector :=
  ⟨0, buf, 0, staticState.cpuLogs⟩

/-- The system while a `klog_snapshot` runs: the visit of the next CPU under its lock, or a
step of any writer between two visits. -/
inductive SnapStep (NCPU : Nat) (m : BitVec 32) :
    KlogState × AbsLog × Collector → KlogState × AbsLog × Collector → Prop
  | visit {s : KlogState} {a : AbsLog} {col : Collector} {buf : List KlogEntry} {count : Nat}
      (more : col.next < NCPU)
      (copied : copyCpu (s.cpuLogs col.next) m col.buf col.count = some (buf, count)) :
      SnapStep NCPU m (s, a, col)
        (s, a, ⟨col.next + 1, buf, count, Function.update col.seen col.next (s.cpuLogs col.next)⟩)
  | writer {s s' : KlogState} {a a' : AbsLog} {col : Collector}
      (step : LogStep NCPU (s, a) (s', a')) : SnapStep NCPU m (s, a, col) (s', a', col)

theorem LogStep.issued_sublist {NCPU : Nat} {x y : KlogState × AbsLog} (step : LogStep NCPU x y) :
    x.2.issued.Sublist y.2.issued := by
  cases step with
  | append => exact List.sublist_append_left _ _
  | clear => exact List.Sublist.refl _

theorem copyCpus_append (logs : Nat → KlogCpuBuf) (m : BitVec 32) (c : Nat) :
    ∀ (cpus : List Nat) (buf : List KlogEntry) (count : Nat),
      copyCpus logs m (cpus ++ [c]) buf count =
        (copyCpus logs m cpus buf count).bind fun r => copyCpu (logs c) m r.1 r.2
  | [], _, _ => by simp [copyCpus]
  | d :: ds, buf, count => by
    simp only [List.cons_append, copyCpus, Option.bind_assoc]
    congr 1
    funext r
    exact copyCpus_append logs m c ds r.1 r.2

theorem copyCpus_congr {logs logs' : Nat → KlogCpuBuf} (m : BitVec 32) :
    ∀ (cpus : List Nat), (∀ c ∈ cpus, logs c = logs' c) → ∀ (buf : List KlogEntry) (count : Nat),
      copyCpus logs m cpus buf count = copyCpus logs' m cpus buf count
  | [], _, _, _ => rfl
  | c :: cs, same, buf, count => by
    simp only [copyCpus, same c (List.mem_cons_self c cs)]
    congr 1
    funext r
    exact copyCpus_congr m cs (fun d mem => same d (List.mem_cons_of_mem c mem)) r.1 r.2

/-- A run of the collector from `Collector.start buf`: its array and count are what the loop of
`klog_snapshot` computes on the rings it saw, and the valid records of each ring it saw were
issued and are stamped with their CPU. -/
structure SnapInv (NCPU : Nat) (m : BitVec 32) (buf : List KlogEntry) (s : KlogState)
    (a : AbsLog) (col : Collector) : Prop where
  reach : Reachable NCPU s a
  bounded : col.next ≤ NCPU
  copied : copyCpus col.seen m (List.range col.next) buf 0 = some (col.buf, col.count)
  held : ∀ c < col.next, (validRecords (col.seen c)).Sublist a.issued
  stamped : ∀ c < col.next, ∀ e ∈ validRecords (col.seen c), e.cpu.toNat = c

theorem SnapInv.start {NCPU : Nat} (m : BitVec 32) (buf : List KlogEntry) {s : KlogState}
    {a : AbsLog} (reach : Reachable NCPU s a) : SnapInv NCPU m buf s a (Collector.start buf) :=
  ⟨reach, Nat.zero_le _, rfl, fun _ none => absurd none (Nat.not_lt_zero _),
    fun _ none => absurd none (Nat.not_lt_zero _)⟩

theorem SnapInv.step {NCPU : Nat} {m : BitVec 32} {buf : List KlogEntry}
    {x y : KlogState × AbsLog × Collector} (inv : SnapInv NCPU m buf x.1 x.2.1 x.2.2)
    (step : SnapStep NCPU m x y) : SnapInv NCPU m buf y.1 y.2.1 y.2.2 := by
  cases step with
  | writer step =>
    exact ⟨inv.reach.step step, inv.bounded, inv.copied,
      fun c visited => (inv.held c visited).trans step.issued_sublist, inv.stamped⟩
  | @visit s a col buf' count' more copied =>
    dsimp only at inv ⊢
    have seenBefore : ∀ c < col.next,
        Function.update col.seen col.next (s.cpuLogs col.next) c = col.seen c :=
      fun c before => Function.update_noteq (Nat.ne_of_lt before) _ _
    have held := reach_validRecords inv.reach col.next
    refine ⟨inv.reach, more, ?_, fun c visited => ?_, fun c visited => ?_⟩
    · dsimp only
      rw [List.range_succ, copyCpus_append, copyCpus_congr m _ (fun c mem =>
        seenBefore c (List.mem_range.mp mem)), inv.copied, Option.some_bind, Function.update_same]
      exact copied
    · dsimp only at visited ⊢
      by_cases now : c = col.next
      · subst now
        rw [Function.update_same]
        exact held.1
      · rw [seenBefore c (by omega)]
        exact inv.held c (by omega)
    · dsimp only at visited ⊢
      by_cases now : c = col.next
      · subst now
        rw [Function.update_same]
        exact held.2
      · rw [seenBefore c (by omega)]
        exact inv.stamped c (by omega)

theorem SnapInv.run {NCPU : Nat} {m : BitVec 32} {buf : List KlogEntry}
    {x y : KlogState × AbsLog × Collector} (inv : SnapInv NCPU m buf x.1 x.2.1 x.2.2)
    (run : Relation.ReflTransGen (SnapStep NCPU m) x y) : SnapInv NCPU m buf y.1 y.2.1 y.2.2 := by
  induction run with
  | refl => exact inv
  | tail _ step ih => exact ih.step step

/-- A collector that has visited every CPU returns the sort of what it copied, and that meets
`SnapshotSpec` for the rings as it saw them. -/
theorem SnapInv.collects {NCPU : Nat} {m : BitVec 32} {buf : List KlogEntry} {s : KlogState}
    {a : AbsLog} {col : Collector} (inv : SnapInv NCPU m buf s a col) (positive : 1 ≤ m.toInt)
    (fits : m.toInt ≤ buf.length) (done : col.next = NCPU) (few : a.issued.length < 2 ^ 32)
    (nonempty : 1 ≤ (walk col.seen (List.range NCPU)).length) :
    SnapshotSpec col.seen (List.range NCPU) m buf
      ((bubbleSort col.buf col.count).map fun sorted => (col.count, sorted)) := by
  have visited : ∀ c ∈ List.range NCPU, c < col.next := fun c mem => done ▸ List.mem_range.mp mem
  have sorted := copy_then_sort col.seen _ buf m positive fits nonempty
    (walk_seq_distinct (inv.reach.logInv.seqs_toNat few) _ (List.nodup_range NCPU)
      (fun c mem => inv.held c (visited c mem)) (fun c mem => inv.stamped c (visited c mem)))
  rwa [← done, inv.copied, Option.some_bind, done] at sorted

/-- `klog_snapshot` meets `SnapshotSpec` on every reachable state, and so does a collector
whose visits interleave with any writers, for the rings as it saw them under their locks. -/
theorem klogSnapshot_collects {NCPU : Nat} (buf : List KlogEntry) (m : BitVec 32)
    (positive : 1 ≤ m.toInt) (fits : m.toInt ≤ buf.length) :
    (∀ s a, Reachable NCPU s a → a.issued.length < 2 ^ 32 →
      1 ≤ (walk s.cpuLogs (List.range NCPU)).length →
      SnapshotSpec s.cpuLogs (List.range NCPU) m buf (klogSnapshot NCPU s buf m)) ∧
    (∀ s0 a0 s a col, Reachable NCPU s0 a0 →
      Relation.ReflTransGen (SnapStep NCPU m) (s0, a0, Collector.start buf) (s, a, col) →
      col.next = NCPU → a.issued.length < 2 ^ 32 →
      1 ≤ (walk col.seen (List.range NCPU)).length →
      SnapshotSpec col.seen (List.range NCPU) m buf
        ((bubbleSort col.buf col.count).map fun sorted => (col.count, sorted))) :=
  ⟨fun _ _ reach few nonempty => klogSnapshot_reachable reach few buf m positive fits nonempty,
    fun _ _ _ _ _ start run done few nonempty =>
      ((SnapInv.start m buf start).run run).collects positive fits done few nonempty⟩

/-- Two CPUs and room for two of the three records: appends on CPU 1, CPU 0 and CPU 1 again.
The collector of the second part visits CPU 0, lets CPU 1 append, then visits CPU 1. -/
theorem klogSnapshot_collects_two_cpus :
    1 ≤ (2 : BitVec 32).toInt ∧ (2 : BitVec 32).toInt ≤ (List.replicate 3 KlogEntry.zero).length ∧
      (∃ s a, Reachable 2 s a ∧ a.issued.length < 2 ^ 32 ∧
        2 < (walk s.cpuLogs (List.range 2)).length ∧
        SnapshotSpec s.cpuLogs (List.range 2) 2 (List.replicate 3 KlogEntry.zero)
          (klogSnapshot 2 s (List.replicate 3 KlogEntry.zero) 2)) ∧
      ∃ s0 a0 s a col, Reachable 2 s0 a0 ∧
        Relation.ReflTransGen (SnapStep 2 2)
          (s0, a0, Collector.start (List.replicate 3 KlogEntry.zero)) (s, a, col) ∧
        col.next = 2 ∧ a0.issued.length < a.issued.length ∧ a.issued.length < 2 ^ 32 ∧
        1 ≤ (walk col.seen (List.range 2)).length ∧
        SnapshotSpec col.seen (List.range 2) 2 (List.replicate 3 KlogEntry.zero)
          ((bubbleSort col.buf col.count).map fun sorted => (col.count, sorted)) := by
  have collects :=
    @klogSnapshot_collects 2 (List.replicate 3 KlogEntry.zero) 2 (by decide) (by decide)
  have second := ((Reachable.boot 2).step (.append 0 1 (0, 0) (fun _ => nul)
    (show 1 < 2 by decide) (by decide))).step (.append 0 1 (0, 0) (fun _ => nul)
    (show 0 < 2 by decide) (by decide))
  have third := second.step (.append 0 1 (0, 0) (fun _ => nul) (show 1 < 2 by decide) (by decide))
  refine' ⟨by decide, by decide,
    ⟨_, _, third, by decide, by decide, collects.1 _ _ third (by decide) (by decide)⟩,
    _, _, _, _, _, second, ?run, ?done, ?grew, ?few, ?nonempty,
    collects.2 _ _ _ _ _ second ?run ?done ?few ?nonempty⟩
  case run =>
    refine' ((Relation.ReflTransGen.single (SnapStep.visit ?_ ?_)).tail
      (SnapStep.writer (.append 0 1 (0, 0) (fun _ => nul) (show 1 < 2 by decide)
        (by decide)))).tail (SnapStep.visit ?_ ?_)
    all_goals try rfl
    all_goals try decide
  all_goals decide

end Klog
