import Klog.Ring
import Klog.BubbleSort
import Mathlib.Algebra.Order.Ring.Nat

set_option autoImplicit false

/- `klog_snapshot`: the copy of each CPU's valid records into the caller's array, CPU by
CPU within the budget `max_entries`, then the sort. The caller's array is a list of records;
a store past its end is a fault. -/
namespace Klog

/-- `buf[count++] = ...` into the caller's array. -/
def storeEntry (buf : List KlogEntry) (k : Nat) (e : KlogEntry) : Option (List KlogEntry) :=
  if k < buf.length then some (buf.set k e) else none

/-- `for(i = start; i < end && count < max_entries; i++)
buf[count++] = log->entries[i % KLOG_BUF_SIZE];` over the positions `ps` still to visit. -/
def copyPositions (log : KlogCpuBuf) (maxEntries : BitVec 32) :
    List Nat → List KlogEntry → Nat → Option (List KlogEntry × Nat)
  | [], buf, count => some (buf, count)
  | p :: ps, buf, count =>
    if (count : Int) < maxEntries.toInt then
      (storeEntry buf count (log.entries (slotOf p))).bind fun buf =>
        copyPositions log maxEntries ps buf (count + 1)
    else some (buf, count)

/-- The body of the `cpu_id` loop for one ring, under its lock. -/
def copyCpu (log : KlogCpuBuf) (maxEntries : BitVec 32) (buf : List KlogEntry) (count : Nat) :
    Option (List KlogEntry × Nat) :=
  copyPositions log maxEntries
    (List.range' (snapshotRange log.head).1 ((snapshotRange log.head).2 - (snapshotRange log.head).1))
    buf count

/-- The `cpu_id` loop over `cpus`, reading the ring `logs c` of each CPU `c`. -/
def copyCpus (logs : Nat → KlogCpuBuf) (maxEntries : BitVec 32) :
    List Nat → List KlogEntry → Nat → Option (List KlogEntry × Nat)
  | [], buf, count => some (buf, count)
  | c :: cs, buf, count =>
    (copyCpu (logs c) maxEntries buf count).bind fun r => copyCpus logs maxEntries cs r.1 r.2

/-- `klog_snapshot(buf, max_entries)`: the count it returns, and the caller's array after it. -/
def klogSnapshot (NCPU : Nat) (s : KlogState) (buf : List KlogEntry) (maxEntries : BitVec 32) :
    Option (Nat × List KlogEntry) :=
  (copyCpus s.cpuLogs maxEntries (List.range NCPU) buf 0).bind fun r =>
    (bubbleSort r.1 r.2).map fun sorted => (r.2, sorted)

/-- The records the collector lists from the rings `logs c`: CPUs in the order of `cpus`, each
ring's valid records oldest first. -/
def walk (logs : Nat → KlogCpuBuf) (cpus : List Nat) : List KlogEntry :=
  cpus.flatMap fun c => validRecords (logs c)

theorem walk_length (logs : Nat → KlogCpuBuf) (cpus : List Nat) :
    (walk logs cpus).length = (cpus.map fun c => min (logs c).head.toNat 256).sum := by
  induction cpus with
  | nil => rfl
  | cons c cs ih =>
    rw [walk, List.flatMap_cons, List.length_append, ← walk, ih, List.map_cons, List.sum_cons,
      validRecords, List.length_map, validPositions_length]

/-- A walk over `0, ..., n - 1` in which only CPU `c` holds records is that CPU's records. -/
theorem walk_single (logs : Nat → KlogCpuBuf) {c n : Nat} (inside : c < n)
    (others : ∀ d < n, d ≠ c → validRecords (logs d) = []) :
    walk logs (List.range n) = validRecords (logs c) := by
  have split : List.range n = List.range' 0 c ++ c :: List.range' (c + 1) (n - c - 1) := by
    have whole := List.range'_append 0 c (n - c - 1 + 1) 1
    rw [Nat.zero_add, Nat.one_mul, List.range'_succ, show n - c - 1 + 1 + c = n by omega] at whole
    rw [List.range_eq_range', ← whole]
  rw [walk, split, List.flatMap_append, List.flatMap_cons,
    List.flatMap_eq_nil_iff.mpr fun d mem => others d (by rw [List.mem_range'_1] at mem; omega)
      (by rw [List.mem_range'_1] at mem; omega),
    List.flatMap_eq_nil_iff.mpr fun d mem => others d (by rw [List.mem_range'_1] at mem; omega)
      (by rw [List.mem_range'_1] at mem; omega),
    List.nil_append, List.append_nil]

theorem set_take_succ {l : List KlogEntry} {i : Nat} (e : KlogEntry) (inside : i < l.length) :
    (l.set i e).take (i + 1) = l.take i ++ [e] := by
  rw [List.set_eq_take_append_cons_drop, if_pos inside, List.take_append_eq_append_take,
    List.take_of_length_le (by simp), List.length_take, Nat.min_eq_left inside.le,
    Nat.add_sub_cancel_left, List.take_succ_cons, List.take_zero]

/-- The copy of one ring: the first `t` records of `ps`, `t` what is left of the budget, land at
`buf[count..count+t)`. -/
theorem copyPositions_eq (log : KlogCpuBuf) (m : BitVec 32) :
    ∀ (ps : List Nat) (buf : List KlogEntry) (count : Nat), m.toInt ≤ buf.length →
      copyPositions log m ps buf count =
        some (buf.take count ++
            (ps.map fun p => log.entries (slotOf p)).take (min ps.length (m.toInt - count).toNat) ++
            buf.drop (count + min ps.length (m.toInt - count).toNat),
          count + min ps.length (m.toInt - count).toNat)
  | [], buf, count, _ => by simp [copyPositions]
  | p :: ps, buf, count, fits => by
    by_cases room : (count : Int) < m.toInt
    · have inside : count < buf.length := by omega
      have rest := copyPositions_eq log m ps (buf.set count (log.entries (slotOf p))) (count + 1)
        (by rw [List.length_set]; exact fits)
      have budget : min (ps.length + 1) (m.toInt - count).toNat =
          min ps.length (m.toInt - ↑(count + 1)).toNat + 1 := by omega
      rw [copyPositions, if_pos room, storeEntry, if_pos inside, Option.some_bind, rest,
        set_take_succ _ inside, List.drop_set, if_pos (by omega), List.length_cons, budget,
        List.map_cons, List.take_succ_cons]
      simp only [List.append_assoc, List.singleton_append, List.cons_append, List.nil_append,
        Nat.add_assoc, Nat.add_comm 1]
    · have none : min (ps.length + 1) (m.toInt - count).toNat = 0 := by omega
      rw [copyPositions, if_neg room, List.length_cons, none]
      simp

theorem copyCpu_eq (log : KlogCpuBuf) (m : BitVec 32) (buf : List KlogEntry) (count : Nat)
    (fits : m.toInt ≤ buf.length) :
    copyCpu log m buf count =
      some (buf.take count ++ (validRecords log).take (min (validRecords log).length (m.toInt - count).toNat) ++
          buf.drop (count + min (validRecords log).length (m.toInt - count).toNat),
        count + min (validRecords log).length (m.toInt - count).toNat) := by
  rw [copyCpu, copyPositions_eq log m _ buf count fits, snapshotRange_eq, validRecords,
    List.length_map]

/-- A budget spent on `V` first: `W` gets something only once `V` is exhausted. -/
theorem take_append_budget (V W : List KlogEntry) {t1 t2 : Nat} (within : t1 ≤ V.length)
    (first : t1 < V.length → t2 = 0) : (V ++ W).take (t1 + t2) = V.take t1 ++ W.take t2 := by
  rw [List.take_append_eq_append_take]
  by_cases full : t1 = V.length
  · subst full
    rw [List.take_of_length_le (by omega), List.take_of_length_le le_rfl, Nat.add_sub_cancel_left]
  · rw [first (by omega), Nat.add_zero, Nat.sub_eq_zero_of_le within]

/-- The loop over `cpus` copies the first records of their walk that the budget allows. -/
theorem copyCpus_eq (logs : Nat → KlogCpuBuf) (m : BitVec 32) :
    ∀ (cpus : List Nat) (buf : List KlogEntry) (count : Nat), m.toInt ≤ buf.length →
      count ≤ buf.length →
      copyCpus logs m cpus buf count =
        some (buf.take count ++
            (walk logs cpus).take (min (walk logs cpus).length (m.toInt - count).toNat) ++
            buf.drop (count + min (walk logs cpus).length (m.toInt - count).toNat),
          count + min (walk logs cpus).length (m.toInt - count).toNat)
  | [], buf, count, _, _ => by simp [copyCpus, walk]
  | c :: cs, buf, count, fits, within => by
    have walkCons : walk logs (c :: cs) = validRecords (logs c) ++ walk logs cs :=
      List.flatMap_cons _ _ _
    rw [copyCpus, copyCpu_eq _ m buf count fits, Option.some_bind, walkCons]
    dsimp only
    set V := validRecords (logs c)
    set W := walk logs cs
    set t1 := min V.length (m.toInt - count).toNat with ht1
    have prefixLen : (buf.take count ++ V.take t1).length = count + t1 := by
      simp only [List.length_append, List.length_take]
      omega
    have bufLen : (buf.take count ++ V.take t1 ++ buf.drop (count + t1)).length = buf.length := by
      rw [List.length_append, prefixLen, List.length_drop]
      omega
    rw [copyCpus_eq logs m cs _ _ (by rw [bufLen]; exact fits) (by rw [bufLen]; omega)]
    set t2 := min W.length (m.toInt - ↑(count + t1)).toNat with ht2
    have budget : min (V ++ W).length (m.toInt - count).toNat = t1 + t2 := by
      rw [List.length_append]
      omega
    rw [budget, take_append_budget V W (Nat.min_le_left _ _) (fun _ => by omega),
      List.take_left' prefixLen,
      show count + t1 + t2 = (buf.take count ++ V.take t1).length + t2 by rw [prefixLen],
      List.drop_append, List.drop_drop, prefixLen]
    simp only [List.append_assoc, Nat.add_assoc]

/-- What `klog_snapshot` returns for the rings `logs c`, `c` in `cpus`, within `max_entries = m`:
`count = min(m, Σ min(head_c, N))`, and the array holds the first `count` records of the walk
sorted by strictly increasing `seq`, in front of its untouched rest. -/
def SnapshotSpec (logs : Nat → KlogCpuBuf) (cpus : List Nat) (m : BitVec 32)
    (buf : List KlogEntry) (result : Option (Nat × List KlogEntry)) : Prop :=
  ∃ out, result = some (min ((cpus.map fun c => min (logs c).head.toNat 256).sum) m.toInt.toNat,
      out ++ buf.drop (min ((cpus.map fun c => min (logs c).head.toNat 256).sum) m.toInt.toNat)) ∧
    out.Perm ((walk logs cpus).take
      (min ((cpus.map fun c => min (logs c).head.toNat 256).sum) m.toInt.toNat)) ∧
    out.Sorted (fun e f => e.seq < f.seq)

/-- Sorted by `seq` and free of repeated `seq`: strictly increasing. -/
theorem sorted_lt_of_distinct {out W : List KlogEntry} (perm : out.Perm W)
    (sorted : out.Sorted (fun e f => e.seq ≤ f.seq))
    (distinct : W.Pairwise (fun e f => e.seq ≠ f.seq)) : out.Sorted (fun e f => e.seq < f.seq) :=
  sorted.imp₂ (fun _ _ le ne => BitVec.lt_of_le_ne le ne) ((perm.pairwise_iff Ne.symm).mpr distinct)

/-- Records listed CPU by CPU, each CPU's records issued and stamped with that CPU, have
distinct sequence numbers while sequence numbers are issue indices. -/
theorem walk_seq_distinct {issued : List KlogEntry}
    (seqs : issued.map (fun e => e.seq.toNat) = List.range issued.length)
    (logs : Nat → KlogCpuBuf) {cpus : List Nat} (nodup : cpus.Nodup)
    (issuedRecs : ∀ c ∈ cpus, (validRecords (logs c)).Sublist issued)
    (stamped : ∀ c ∈ cpus, ∀ e ∈ validRecords (logs c), e.cpu.toNat = c) :
    (walk logs cpus).Pairwise (fun e f => e.seq ≠ f.seq) := by
  have increasing : issued.Pairwise (fun e f => e.seq.toNat < f.seq.toNat) := by
    have := List.pairwise_lt_range issued.length
    rwa [← seqs, List.pairwise_map] at this
  rw [walk, List.pairwise_flatMap]
  refine ⟨fun c mem => (increasing.sublist (issuedRecs c mem)).imp fun lt same =>
    Nat.ne_of_lt lt (congrArg BitVec.toNat same), ?_⟩
  refine nodup.imp_of_mem fun {c d} memC memD apart e inC f inD same => apart ?_
  have identical : e = f := List.inj_on_of_nodup_map (f := fun e => e.seq.toNat)
    (by rw [seqs]; exact List.nodup_range _) ((issuedRecs c memC).subset inC)
    ((issuedRecs d memD).subset inD) (congrArg BitVec.toNat same)
  rw [← stamped c memC e inC, identical, stamped d memD f inD]

/-- The copy and the sort of `klog_snapshot` on the rings `logs c`, `c` in `cpus`, when
`1 ≤ m ≤ |buf|` and at least one record is valid: the first `count` records of the walk,
permuted into non-decreasing `seq` order, in front of the untouched rest of `buf`. -/
theorem copy_then_bubble (logs : Nat → KlogCpuBuf) (cpus : List Nat) (buf : List KlogEntry)
    (m : BitVec 32) (positive : 1 ≤ m.toInt) (fits : m.toInt ≤ buf.length)
    (nonempty : 1 ≤ (walk logs cpus).length) :
    ∃ out, ((copyCpus logs m cpus buf 0).bind fun r =>
        (bubbleSort r.1 r.2).map fun sorted => (r.2, sorted)) =
        some (min (walk logs cpus).length m.toInt.toNat,
          out ++ buf.drop (min (walk logs cpus).length m.toInt.toNat)) ∧
      out.Perm ((walk logs cpus).take (min (walk logs cpus).length m.toInt.toNat)) ∧
      out.Sorted (fun e f => e.seq ≤ f.seq) := by
  have small := toInt_lt_two_pow m
  set count := min (walk logs cpus).length m.toInt.toNat with hcount
  have taken : ((walk logs cpus).take count).length = count := by
    rw [List.length_take]
    omega
  obtain ⟨out, sorted, perm, ordered⟩ := bubbleOuter_sorts (buf.drop count) (count - 1) 0 count
    ((walk logs cpus).take count) [] (by omega) (by omega) (by omega) List.sorted_nil
    (fun _ _ _ absent => absurd absent (List.not_mem_nil _))
  refine ⟨out, ?_, by simpa using perm, ordered⟩
  rw [copyCpus_eq logs m cpus buf 0 fits (Nat.zero_le _), Option.some_bind]
  simp only [List.take_zero, List.nil_append, Nat.zero_add, Nat.cast_zero, Int.sub_zero]
  rw [← hcount, bubbleSort, outerBound_eq (by omega) (by omega)]
  simpa using sorted

/-- The copy and the sort of `klog_snapshot` when `1 ≤ m ≤ |buf|` and at least one record is
valid: `SnapshotSpec`, given that the walk repeats no sequence number. -/
theorem copy_then_sort (logs : Nat → KlogCpuBuf) (cpus : List Nat) (buf : List KlogEntry)
    (m : BitVec 32) (positive : 1 ≤ m.toInt) (fits : m.toInt ≤ buf.length)
    (nonempty : 1 ≤ (walk logs cpus).length)
    (distinct : (walk logs cpus).Pairwise (fun e f => e.seq ≠ f.seq)) :
    SnapshotSpec logs cpus m buf ((copyCpus logs m cpus buf 0).bind fun r =>
      (bubbleSort r.1 r.2).map fun sorted => (r.2, sorted)) := by
  obtain ⟨out, ran, perm, ordered⟩ := copy_then_bubble logs cpus buf m positive fits nonempty
  rw [SnapshotSpec, ← walk_length]
  exact ⟨out, ran, perm,
    sorted_lt_of_distinct perm ordered (distinct.sublist (List.take_sublist _ _))⟩

/-- With room for `m ≥ 1` records and one record valid, `klog_snapshot` does not fault. It
returns `count = min(Σ, m)`, and an array of the caller's length whose first `count` records
are the walk's first `count`, sorted. -/
theorem klogSnapshot_some (NCPU : Nat) (s : KlogState) (buf : List KlogEntry) (m : BitVec 32)
    (positive : 1 ≤ m.toInt) (fits : m.toInt ≤ buf.length)
    (nonempty : 1 ≤ (walk s.cpuLogs (List.range NCPU)).length) :
    ∃ out, klogSnapshot NCPU s buf m =
        some (min (walk s.cpuLogs (List.range NCPU)).length m.toInt.toNat, out) ∧
      out.length = buf.length := by
  obtain ⟨out, ran, perm, -⟩ := copy_then_bubble _ _ buf m positive fits nonempty
  refine ⟨_, ran, ?_⟩
  have small := toInt_lt_two_pow m
  rw [List.length_append, perm.length_eq, List.length_take, List.length_drop]
  omega

/-- The valid records of a reachable ring were issued, and carry their CPU. -/
theorem reach_validRecords {NCPU : Nat} {s : KlogState} {a : AbsLog} (reach : Reachable NCPU s a)
    (c : Nat) : (validRecords (s.cpuLogs c)).Sublist a.issued ∧
      ∀ e ∈ validRecords (s.cpuLogs c), e.cpu.toNat = c := by
  have inv := reach.logInv
  have held : (validRecords (s.cpuLogs c)).Sublist (a.since c) := by
    rw [inv.validRecords_eq c]
    exact List.drop_sublist _ _
  exact ⟨held.trans (inv.cpu c).sublist, fun e mem => (inv.cpu c).cpus e (held.subset mem)⟩

/-- `klog_snapshot` on a reachable state with fewer than 2^32 records issued. -/
theorem klogSnapshot_reachable {NCPU : Nat} {s : KlogState} {a : AbsLog}
    (reach : Reachable NCPU s a) (few : a.issued.length < 2 ^ 32) (buf : List KlogEntry)
    (m : BitVec 32) (positive : 1 ≤ m.toInt) (fits : m.toInt ≤ buf.length)
    (nonempty : 1 ≤ (walk s.cpuLogs (List.range NCPU)).length) :
    SnapshotSpec s.cpuLogs (List.range NCPU) m buf (klogSnapshot NCPU s buf m) :=
  copy_then_sort _ _ buf m positive fits nonempty
    (walk_seq_distinct (reach.logInv.seqs_toNat few) _ (List.nodup_range NCPU)
      (fun c _ => (reach_validRecords reach c).1) (fun c _ => (reach_validRecords reach c).2))

theorem copyCpus_empty (logs : Nat → KlogCpuBuf) (m : BitVec 32) :
    ∀ (cpus : List Nat) (buf : List KlogEntry) (count : Nat), (∀ c ∈ cpus, (logs c).head = 0) →
      copyCpus logs m cpus buf count = some (buf, count)
  | [], _, _, _ => rfl
  | c :: cs, buf, count, empty => by
    have none : snapshotRange (logs c).head = (0, 0) := by
      rw [empty c (List.mem_cons_self c cs)]
      rfl
    rw [copyCpus, copyCpu, none]
    exact copyCpus_empty logs m cs buf count fun d mem => empty d (List.mem_cons_of_mem c mem)

theorem foldl_clearCpu_ne (s : KlogState) {c : Nat} :
    ∀ cpus : List Nat, c ∉ cpus → (cpus.foldl clearCpu s).cpuLogs c = s.cpuLogs c := by
  intro cpus
  induction cpus generalizing s with
  | nil => exact fun _ => rfl
  | cons d ds ih =>
    intro absent
    rw [List.foldl_cons, ih _ (fun mem => absent (List.mem_cons_of_mem d mem)),
      clearCpu_ne _ _ (fun same => absent (by rw [same]; exact List.mem_cons_self d ds))]

theorem klogClear_head (NCPU : Nat) (s : KlogState) {c : Nat} (valid : c < NCPU) :
    ((klogClear NCPU s).cpuLogs c).head = 0 := by
  have cleared : ∀ (cpus : List Nat) (s : KlogState), c ∈ cpus → cpus.Nodup →
      ((cpus.foldl clearCpu s).cpuLogs c).head = 0 := by
    intro cpus
    induction cpus with
    | nil => exact fun _ absent => absurd absent (List.not_mem_nil c)
    | cons d ds ih =>
      intro s mem nodup
      rw [List.foldl_cons]
      by_cases here : c = d
      · subst here
        rw [foldl_clearCpu_ne _ ds (List.nodup_cons.mp nodup).1, clearCpu_same]
      · exact ih _ (List.mem_of_ne_of_mem here mem) (List.nodup_cons.mp nodup).2
  exact cleared _ s (List.mem_range.mpr valid) (List.nodup_range NCPU)

theorem klogClear_globalSeq (NCPU : Nat) (s : KlogState) :
    (klogClear NCPU s).globalSeq = s.globalSeq := by
  have kept : ∀ (cpus : List Nat) (s : KlogState), (cpus.foldl clearCpu s).globalSeq = s.globalSeq := by
    intro cpus
    induction cpus with
    | nil => exact fun _ => rfl
    | cons c cs ih => exact fun s => (ih _).trans (clearCpu_globalSeq s c)
  exact kept _ s

/-- After `klog_clear` every ring is empty, so the copy leaves `count = 0`; the sort's bounds
`count - 1` and `count - i - 1` are then `0xFFFFFFFF` as unsigned, and its first pass reads past
the end of the caller's array, whatever `max_entries`. -/
theorem klogSnapshot_after_clear (NCPU : Nat) (s : KlogState) (buf : List KlogEntry)
    (m : BitVec 32) (small : buf.length < 2 ^ 32) :
    klogSnapshot NCPU (klogClear NCPU s) buf m = none := by
  rw [klogSnapshot, copyCpus_empty _ m _ buf 0 fun c mem => klogClear_head NCPU s
    (List.mem_range.mp mem), Option.some_bind, bubbleSort_zero buf small, Option.map_none']

/-- The failing input: one record of room and `max_entries = 1` after `klog_clear`. -/
theorem klogSnapshot_cleared_faults (NCPU : Nat) (s : KlogState) (e : KlogEntry) :
    klogSnapshot NCPU (klogClear NCPU s) [e] 1 = none :=
  klogSnapshot_after_clear NCPU s [e] 1 (by simp)

end Klog
