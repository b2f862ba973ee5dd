import Klog.Append

set_option autoImplicit false

/- Each CPU's ring against the history of the log: the positions a cursor still holds, the
invariant relating every reachable state to its history, and what it gives while fewer than
2^32 records have been issued. -/
namespace Klog

/-- The range `[start, end)` that `klog_snapshot` copies from a ring with cursor `head`. -/
def snapshotRange (head : BitVec 32) : Nat × Nat :=
  if head.toNat > klogBufSize then (head.toNat - klogBufSize, head.toNat) else (0, head.toNat)

/-- The cursor positions `[max(0, head - N), head)` whose records a ring still holds. -/
def validPositions (head : Nat) : List Nat :=
  List.range' (head - klogBufSize) (min head klogBufSize)

/-- The records a ring still holds, oldest first: slot `p % N` of each valid position `p`. -/
def validRecords (log : KlogCpuBuf) : List KlogEntry :=
  (validPositions log.head.toNat).map fun p => log.entries (slotOf p)

theorem mem_validPositions {head p : Nat} :
    p ∈ validPositions head ↔ head - 256 ≤ p ∧ p < head := by
  simp only [validPositions, klogBufSize, List.mem_range'_1]
  omega

@[simp] theorem validPositions_length (head : Nat) :
    (validPositions head).length = min head 256 := by
  simp only [validPositions, klogBufSize, List.length_range']

theorem snapshotRange_eq (head : BitVec 32) :
    List.range' (snapshotRange head).1 ((snapshotRange head).2 - (snapshotRange head).1) =
      validPositions head.toNat := by
  by_cases big : 256 < head.toNat
  · simp only [snapshotRange, validPositions, klogBufSize, gt_iff_lt, big, if_true]
    rw [show head.toNat - (head.toNat - 256) = min head.toNat 256 by omega]
  · simp only [snapshotRange, validPositions, klogBufSize, gt_iff_lt, big, if_false]
    rw [show head.toNat - 0 = min head.toNat 256 by omega, show head.toNat - 256 = 0 by omega]

/-- The ring of CPU `c` against `since`, the records appended to it since its last clear. -/
structure CpuInv (issued : List KlogEntry) (c : Nat) (log : KlogCpuBuf)
    (since : List KlogEntry) : Prop where
  sublist : since.Sublist issued
  cpus : ∀ e ∈ since, e.cpu.toNat = c
  head : log.head = BitVec.ofNat 32 since.length
  slots : ∀ p (h : p < since.length), since.length ≤ p + 256 → log.entries (slotOf p) = since[p]
  dropped : log.dropped = 0

/-- The state against its history. Nothing bounds the number of records: the counters are
the history's lengths modulo 2^32. -/
structure LogInv (s : KlogState) (a : AbsLog) : Prop where
  global : s.globalSeq = BitVec.ofNat 32 a.issued.length
  seqs : a.issued.map KlogEntry.seq = (List.range a.issued.length).map (BitVec.ofNat 32)
  cpu : ∀ c, CpuInv a.issued c (s.cpuLogs c) (a.since c)

theorem ofNat_succ (n : Nat) : BitVec.ofNat 32 n + 1 = BitVec.ofNat 32 (n + 1) :=
  BitVec.ofNat_add_ofNat n 1

theorem CpuInv.grow {issued since : List KlogEntry} {c : Nat} {log : KlogCpuBuf}
    (inv : CpuInv issued c log since) (more : List KlogEntry) :
    CpuInv (issued ++ more) c log since :=
  { inv with sublist := inv.sublist.trans (List.sublist_append_left _ _) }

theorem CpuInv.clear (issued : List KlogEntry) (c : Nat) (entries : Fin klogBufSize → KlogEntry) :
    CpuInv issued c ⟨entries, 0, 0⟩ [] :=
  ⟨List.nil_sublist _, fun _ absent => absurd absent (List.not_mem_nil _), rfl,
    fun _ h => absurd h (Nat.not_lt_zero _), rfl⟩

/-- One append writes slot `head % N` and leaves the 255 younger records in place. -/
theorem CpuInv.append {issued since : List KlogEntry} {c : Nat} {log : KlogCpuBuf}
    (inv : CpuInv issued c log since) (e : KlogEntry) (cpu : e.cpu.toNat = c) :
    CpuInv (issued ++ [e]) c
      ⟨Function.update log.entries (slotOf log.head.toNat) e, log.head + 1, log.dropped⟩
      (since ++ [e]) := by
  have headSlot : slotOf log.head.toNat = slotOf since.length := by
    rw [inv.head, slotOf_eq_iff, BitVec.toNat_ofNat, Nat.mod_mod_of_dvd _ (by decide : 256 ∣ 2 ^ 32)]
  refine ⟨inv.sublist.append (List.Sublist.refl _), ?_, ?_, ?_, inv.dropped⟩
  · intro e' mem
    rcases List.mem_append.mp mem with old | new
    · exact inv.cpus e' old
    · rw [List.mem_singleton.mp new, cpu]
  · rw [inv.head, List.length_append, List.length_singleton, ofNat_succ]
  · intro p inside near
    simp only [List.length_append, List.length_singleton] at inside near
    dsimp only
    rw [headSlot]
    by_cases last : p = since.length
    · subst last
      simp only [Function.update_same, List.getElem_append_right (Nat.le_refl _), Nat.sub_self,
        List.getElem_singleton]
    · have older : p < since.length := by omega
      have apart : slotOf p ≠ slotOf since.length := by
        rw [Ne, slotOf_eq_iff]
        omega
      rw [Function.update_noteq apart, List.getElem_append_left older]
      exact inv.slots p older (by omega)

theorem logInv_static : LogInv staticState AbsLog.empty :=
  ⟨rfl, rfl, fun c => CpuInv.clear [] c _⟩

theorem LogInv.append {s : KlogState} {a : AbsLog} (inv : LogInv s a) {c : Nat}
    (level pid : BitVec 32) (tsc : BitVec 32 × BitVec 32) (buf : Nat → Char) (small : c < 2 ^ 31) :
    LogInv (klogAppend s c level pid tsc buf) (a.record c (appendEntry s c level pid tsc buf)) := by
  refine ⟨?_, ?_, fun d => ?_⟩
  · rw [klogAppend_globalSeq, inv.global, AbsLog.record_issued, List.length_append,
      List.length_singleton, ofNat_succ]
  · rw [AbsLog.record_issued, List.map_append, inv.seqs, List.length_append,
      List.length_singleton, List.range_succ, List.map_append, List.map_singleton,
      List.map_singleton, appendEntry_seq, inv.global]
  · by_cases same : d = c
    · subst same
      rw [klogAppend_same, AbsLog.record_same, AbsLog.record_issued]
      refine (inv.cpu d).append _ ?_
      rw [appendEntry_cpu, BitVec.toNat_ofNat]
      omega
    · rw [klogAppend_ne _ _ _ _ _ _ same, AbsLog.record_ne _ _ _ same, AbsLog.record_issued]
      exact (inv.cpu d).grow _

theorem LogInv.clear {s : KlogState} {a : AbsLog} (inv : LogInv s a) (c : Nat) :
    LogInv (clearCpu s c) (a.reset c) := by
  refine ⟨inv.global, inv.seqs, fun d => ?_⟩
  by_cases same : d = c
  · subst same
    rw [clearCpu_same, AbsLog.reset_same, AbsLog.reset_issued]
    exact CpuInv.clear _ d _
  · rw [clearCpu_ne _ _ same, AbsLog.reset_ne _ _ same, AbsLog.reset_issued]
    exact inv.cpu d

theorem LogInv.step {NCPU : Nat} {x y : KlogState × AbsLog} (inv : LogInv x.1 x.2)
    (step : LogStep NCPU x y) : LogInv y.1 y.2 := by
  cases step with
  | append level pid tsc buf _ small => exact inv.append level pid tsc buf small
  | clear _ => exact inv.clear _

/-- Every reachable state satisfies the invariant, whatever the number of records. -/
theorem Reachable.logInv {NCPU : Nat} {s : KlogState} {a : AbsLog}
    (reach : Reachable NCPU s a) : LogInv s a := by
  have run : ∀ x, Relation.ReflTransGen (LogStep NCPU) (staticState, AbsLog.empty) x →
      LogInv x.1 x.2 := by
    intro x steps
    induction steps with
    | refl => exact logInv_static
    | tail _ step ih => exact ih.step step
  exact run (s, a) reach

section Bounded

variable {s : KlogState} {a : AbsLog}

/-- Below 2^32 records, sequence numbers are the issue indices. -/
theorem LogInv.seqs_toNat (inv : LogInv s a) (few : a.issued.length < 2 ^ 32) :
    a.issued.map (fun e => e.seq.toNat) = List.range a.issued.length := by
  have mapped := congrArg (List.map BitVec.toNat) inv.seqs
  rw [List.map_map, List.map_map] at mapped
  refine mapped.trans ((List.map_congr_left fun k mem => ?_).trans (List.map_id _))
  have := List.mem_range.mp mem
  simp only [Function.comp_apply, BitVec.toNat_ofNat, id_eq]
  exact Nat.mod_eq_of_lt (by omega)

/-- An issued record is determined by its sequence number. -/
theorem LogInv.issued_inj (inv : LogInv s a) (few : a.issued.length < 2 ^ 32) {e e' : KlogEntry}
    (mem : e ∈ a.issued) (mem' : e' ∈ a.issued) (same : e.seq = e'.seq) : e = e' :=
  List.inj_on_of_nodup_map (f := fun e => e.seq.toNat)
    (by rw [inv.seqs_toNat few]; exact List.nodup_range _) mem mem' (congrArg BitVec.toNat same)

theorem LogInv.seq_lt_of_mem (inv : LogInv s a) (few : a.issued.length < 2 ^ 32)
    {e : KlogEntry} (mem : e ∈ a.issued) : e.seq.toNat < a.issued.length := by
  have listed : e.seq.toNat ∈ a.issued.map fun e => e.seq.toNat := List.mem_map_of_mem _ mem
  rw [inv.seqs_toNat few] at listed
  exact List.mem_range.mp listed

/-- The records appended to one CPU since its last clear have increasing sequence numbers. -/
theorem LogInv.since_ordered (inv : LogInv s a) (few : a.issued.length < 2 ^ 32) (c : Nat) :
    ((a.since c).map fun e => e.seq.toNat).Pairwise (· < ·) := by
  have sorted := List.pairwise_lt_range a.issued.length
  rw [← inv.seqs_toNat few] at sorted
  exact sorted.sublist ((inv.cpu c).sublist.map _)

theorem LogInv.head_toNat (inv : LogInv s a) (few : a.issued.length < 2 ^ 32) (c : Nat) :
    (s.cpuLogs c).head.toNat = (a.since c).length := by
  have := (inv.cpu c).sublist.length_le
  rw [(inv.cpu c).head, BitVec.toNat_ofNat, Nat.mod_eq_of_lt (by omega)]

/-- Valid position `p` of CPU `c` holds the `p`-th record appended to `c` since its last clear. -/
theorem LogInv.entry (inv : LogInv s a) (few : a.issued.length < 2 ^ 32) {c p : Nat}
    (valid : p ∈ validPositions (s.cpuLogs c).head.toNat) :
    (a.since c)[p]? = some ((s.cpuLogs c).entries (slotOf p)) := by
  rw [inv.head_toNat few, mem_validPositions] at valid
  rw [List.getElem?_eq_getElem valid.2, (inv.cpu c).slots p valid.2 (by omega)]

theorem LogInv.entry_mem (inv : LogInv s a) (few : a.issued.length < 2 ^ 32) {c p : Nat}
    (valid : p ∈ validPositions (s.cpuLogs c).head.toNat) :
    (s.cpuLogs c).entries (slotOf p) ∈ a.since c :=
  List.getElem?_mem (inv.entry few valid)

end Bounded

/-- What the log guarantees of a state with history `a`: `global_seq` counts the records
issued, which carry the sequence numbers `0, 1, ...` in issue order; each cursor counts the
appends since its CPU's last clear, and valid position `p` holds the `p`-th of them, stamped
with its CPU; valid records of one CPU increase with their position, those of two CPUs differ,
and all are below `global_seq`. -/
structure LogSpec (s : KlogState) (a : AbsLog) : Prop where
  global : s.globalSeq.toNat = a.issued.length
  seqs : a.issued.map (fun e => e.seq.toNat) = List.range a.issued.length
  window : ∀ c, (s.cpuLogs c).head.toNat = (a.since c).length ∧
    ∀ p ∈ validPositions (s.cpuLogs c).head.toNat,
      (a.since c)[p]? = some ((s.cpuLogs c).entries (slotOf p)) ∧
        ((s.cpuLogs c).entries (slotOf p)).cpu.toNat = c
  ordered : ∀ c, ∀ p ∈ validPositions (s.cpuLogs c).head.toNat,
    ∀ q ∈ validPositions (s.cpuLogs c).head.toNat, p < q →
      ((s.cpuLogs c).entries (slotOf p)).seq.toNat < ((s.cpuLogs c).entries (slotOf q)).seq.toNat
  distinct : ∀ c d, c ≠ d → ∀ p ∈ validPositions (s.cpuLogs c).head.toNat,
    ∀ q ∈ validPositions (s.cpuLogs d).head.toNat,
      ((s.cpuLogs c).entries (slotOf p)).seq ≠ ((s.cpuLogs d).entries (slotOf q)).seq
  bounded : ∀ c, ∀ p ∈ validPositions (s.cpuLogs c).head.toNat,
    ((s.cpuLogs c).entries (slotOf p)).seq.toNat < s.globalSeq.toNat

/-- Below `2^32` records issued, the invariant gives all of `LogSpec`. -/
theorem LogInv.logSpec {s : KlogState} {a : AbsLog} (inv : LogInv s a)
    (few : a.issued.length < 2 ^ 32) : LogSpec s a := by
  have global : s.globalSeq.toNat = a.issued.length := by
    rw [inv.global, BitVec.toNat_ofNat, Nat.mod_eq_of_lt few]
  refine ⟨global, inv.seqs_toNat few, fun c => ⟨inv.head_toNat few c, fun p valid =>
    ⟨inv.entry few valid, (inv.cpu c).cpus _ (inv.entry_mem few valid)⟩⟩, ?_, ?_, ?_⟩
  · intro c p validP q validQ before
    obtain ⟨inP, atP⟩ := List.getElem?_eq_some_iff.mp (inv.entry few validP)
    obtain ⟨inQ, atQ⟩ := List.getElem?_eq_some_iff.mp (inv.entry few validQ)
    have increasing := List.pairwise_iff_getElem.mp (inv.since_ordered few c) p q
      (by rw [List.length_map]; exact inP) (by rw [List.length_map]; exact inQ) before
    simpa only [List.getElem_map, atP, atQ] using increasing
  · intro c d apart p validP q validQ same
    have identical := inv.issued_inj few ((inv.cpu c).sublist.subset (inv.entry_mem few validP))
      ((inv.cpu d).sublist.subset (inv.entry_mem few validQ)) same
    apply apart
    rw [← (inv.cpu c).cpus _ (inv.entry_mem few validP), identical,
      (inv.cpu d).cpus _ (inv.entry_mem few validQ)]
  · intro c p valid
    rw [global]
    exact inv.seq_lt_of_mem few ((inv.cpu c).sublist.subset (inv.entry_mem few valid))

theorem reachable_logSpec {NCPU : Nat} {s : KlogState} {a : AbsLog} (reach : Reachable NCPU s a)
    (few : a.issued.length < 2 ^ 32) : LogSpec s a :=
  reach.logInv.logSpec few

theorem snapshotRange_width (head : BitVec 32) :
    (snapshotRange head).2 - (snapshotRange head).1 = min head.toNat 256 := by
  simpa only [List.length_range', validPositions_length] using
    congrArg List.length (snapshotRange_eq head)

theorem LogInv.head_mod {s : KlogState} {a : AbsLog} (inv : LogInv s a) (c : Nat) :
    (s.cpuLogs c).head.toNat = (a.since c).length % 2 ^ 32 := by
  rw [(inv.cpu c).head, BitVec.toNat_ofNat]

/-- The records a ring still holds are the last `min(n mod 2^32, 256)` of the `n` appended to
it since its last clear. -/
theorem LogInv.validRecords_eq {s : KlogState} {a : AbsLog} (inv : LogInv s a) (c : Nat) :
    validRecords (s.cpuLogs c) =
      (a.since c).drop ((a.since c).length - min ((a.since c).length % 2 ^ 32) 256) := by
  unfold validRecords
  rw [inv.head_mod c]
  apply List.ext_getElem
  · simp only [List.length_map, validPositions_length, List.length_drop]
    omega
  · intro j inLeft inRight
    simp only [List.length_map, validPositions_length] at inLeft
    have older : (a.since c).length - min ((a.since c).length % 2 ^ 32) 256 + j <
        (a.since c).length := by omega
    simp only [List.getElem_map, validPositions, klogBufSize, List.getElem_range',
      List.getElem_drop, Nat.one_mul]
    rw [← (inv.cpu c).slots _ older (by omega)]
    exact congrArg _ ((slotOf_eq_iff _ _).mpr (by omega))

/-- The range `klog_snapshot` computes from the cursor of CPU `c` has `min(n mod 2^32, 256)`
positions, `n` the appends since the last clear, and holds the last that many of them. -/
theorem LogInv.snapshotRange_last {s : KlogState} {a : AbsLog} (inv : LogInv s a) (c : Nat) :
    (snapshotRange (s.cpuLogs c).head).2 - (snapshotRange (s.cpuLogs c).head).1 =
        min ((a.since c).length % 2 ^ 32) 256 ∧
      (List.range' (snapshotRange (s.cpuLogs c).head).1
          ((snapshotRange (s.cpuLogs c).head).2 - (snapshotRange (s.cpuLogs c).head).1)).map
          (fun p => (s.cpuLogs c).entries (slotOf p)) =
        (a.since c).drop ((a.since c).length - min ((a.since c).length % 2 ^ 32) 256) :=
  ⟨by rw [snapshotRange_width, inv.head_mod c], by
    rw [snapshotRange_eq]
    exact inv.validRecords_eq c⟩

theorem snapshotRange_last_appends {NCPU : Nat} {s : KlogState} {a : AbsLog}
    (reach : Reachable NCPU s a) (c : Nat) :
    (snapshotRange (s.cpuLogs c).head).2 - (snapshotRange (s.cpuLogs c).head).1 =
        min ((a.since c).length % 2 ^ 32) 256 ∧
      (List.range' (snapshotRange (s.cpuLogs c).head).1
          ((snapshotRange (s.cpuLogs c).head).2 - (snapshotRange (s.cpuLogs c).head).1)).map
          (fun p => (s.cpuLogs c).entries (slotOf p)) =
        (a.since c).drop ((a.since c).length - min ((a.since c).length % 2 ^ 32) 256) :=
  reach.logInv.snapshotRange_last c

/-- `n` more appends on CPU `c`, from any reachable state: the other CPUs keep their records. -/
theorem Reachable.appends {NCPU : Nat} {c : Nat} (inside : c < NCPU) (small : c < 2 ^ 31)
    {s : KlogState} {a : AbsLog} (reach : Reachable NCPU s a) (n : Nat) :
    ∃ s' a', Reachable NCPU s' a' ∧ (a'.since c).length = (a.since c).length + n ∧
      (∀ d ≠ c, a'.since d = a.since d) ∧ a'.issued.length = a.issued.length + n := by
  induction n with
  | zero => exact ⟨s, a, reach, rfl, fun _ _ => rfl, rfl⟩
  | succ n ih =>
    obtain ⟨s', a', reach', grown, others, issued⟩ := ih
    refine ⟨_, _, reach'.step (.append 0 0 (0, 0) (fun _ => nul) inside small), ?_,
      fun d other => ?_, ?_⟩
    · rw [AbsLog.record_same, List.length_append, List.length_singleton, grown, Nat.add_assoc]
    · rw [AbsLog.record_ne _ _ _ other, others d other]
    · rw [AbsLog.record_issued, List.length_append, List.length_singleton, issued, Nat.add_assoc]

/-- A log of two CPUs whose first ring has wrapped: 300 appends on CPU 0, then 2 on CPU 1. -/
theorem Reachable.wrapped_two :
    ∃ s a, Reachable 2 s a ∧ (a.since 0).length = 300 ∧ (a.since 1).length = 2 ∧
      a.issued.length = 302 := by
  obtain ⟨s0, a0, reach0, since0, others0, issued0⟩ :=
    (Reachable.boot 2).appends (show 0 < 2 by decide) (by decide) 300
  obtain ⟨s, a, reach, since1, others1, issued⟩ :=
    reach0.appends (show 1 < 2 by decide) (by decide) 2
  refine ⟨s, a, reach, by rw [others1 0 (by decide), since0]; rfl, ?_, by rw [issued, issued0]; rfl⟩
  rw [since1, others0 1 (by decide)]
  rfl

theorem reachable_logSpec_wrapped :
    ∃ s a, Reachable 2 s a ∧ (a.since 0).length = 300 ∧ (a.since 1).length = 2 ∧
      a.issued.length < 2 ^ 32 ∧ LogSpec s a := by
  obtain ⟨s, a, reach, since0, since1, issued⟩ := Reachable.wrapped_two
  have few : a.issued.length < 2 ^ 32 := by omega
  exact ⟨s, a, reach, since0, since1, few, reachable_logSpec reach few⟩

theorem snapshotRange_last_appends_wrapped :
    ∃ s a, Reachable 2 s a ∧ (a.since 0).length = 300 ∧ (a.since 1).length = 2 ∧
      ((snapshotRange (s.cpuLogs 0).head).2 - (snapshotRange (s.cpuLogs 0).head).1 =
          min ((a.since 0).length % 2 ^ 32) 256 ∧
        (List.range' (snapshotRange (s.cpuLogs 0).head).1
            ((snapshotRange (s.cpuLogs 0).head).2 - (snapshotRange (s.cpuLogs 0).head).1)).map
            (fun p => (s.cpuLogs 0).entries (slotOf p)) =
          (a.since 0).drop ((a.since 0).length - min ((a.since 0).length % 2 ^ 32) 256)) ∧
      ((snapshotRange (s.cpuLogs 1).head).2 - (snapshotRange (s.cpuLogs 1).head).1 =
          min ((a.since 1).length % 2 ^ 32) 256 ∧
        (List.range' (snapshotRange (s.cpuLogs 1).head).1
            ((snapshotRange (s.cpuLogs 1).head).2 - (snapshotRange (s.cpuLogs 1).head).1)).map
            (fun p => (s.cpuLogs 1).entries (slotOf p)) =
          (a.since 1).drop ((a.since 1).length - min ((a.since 1).length % 2 ^ 32) 256)) := by
  obtain ⟨s, a, reach, since0, since1, -⟩ := Reachable.wrapped_two
  exact ⟨s, a, reach, since0, since1, snapshotRange_last_appends reach 0,
    snapshotRange_last_appends reach 1⟩

/-- What a client of the log gets: after `klog_init` on the zeroed statics and any run of
fewer than `2^32 - 1` calls of `klog_printf_internal` (from any CPU, at any level, with any
template and arguments) and `klog_clear`, the state meets `LogSpec` against a history it
reaches, and the range `klog_snapshot` computes for each CPU holds exactly its last
`min(n, 256)` records, `n` the appends to it since its last clear. -/
theorem logRun_logSpec (NCPU : Nat) (ctx : KlogCtx) (args : FmtArgs) (calls : List LogCall)
    (few : calls.length < 2 ^ 32 - 1) {s0 s : KlogState}
    (booted : klogInit NCPU staticState ctx args = some s0) (ran : logRun NCPU s0 calls = some s) :
    ∃ a, Reachable NCPU s a ∧ LogSpec s a ∧ ∀ c,
      (snapshotRange (s.cpuLogs c).head).2 - (snapshotRange (s.cpuLogs c).head).1 =
          min (a.since c).length 256 ∧
        (List.range' (snapshotRange (s.cpuLogs c).head).1
            ((snapshotRange (s.cpuLogs c).head).2 - (snapshotRange (s.cpuLogs c).head).1)).map
            (fun p => (s.cpuLogs c).entries (slotOf p)) =
          (a.since c).drop ((a.since c).length - min (a.since c).length 256) := by
  obtain ⟨a0, reach0, one⟩ := klogInit_reachable booted
  obtain ⟨a, reach, grew⟩ := reach0.logRun calls ran
  have inv := reach.logInv
  have fewer : a.issued.length < 2 ^ 32 := by omega
  refine ⟨a, reach, inv.logSpec fewer, fun c => ?_⟩
  have short : (a.since c).length % 2 ^ 32 = (a.since c).length :=
    Nat.mod_eq_of_lt (lt_of_le_of_lt (inv.cpu c).sublist.length_le fewer)
  have range := inv.snapshotRange_last c
  rwa [short] at range

theorem logRun_logSpec_clients :
    [LogCall.printf ⟨0, some 3, (0, 0), fun _ => nul⟩ 1 ⟨"a %d".toList, by decide⟩
        ⟨fun _ => 7, fun _ => ⟨[], List.not_mem_nil nul⟩⟩,
      .clear,
      .printf ⟨1, some 4, (0, 0), fun _ => nul⟩ 2 ⟨"b %x".toList, by decide⟩
        ⟨fun _ => 255, fun _ => ⟨[], List.not_mem_nil nul⟩⟩,
      .printf ⟨0, some 3, (0, 0), fun _ => nul⟩ 1 ⟨"a %d".toList, by decide⟩
        ⟨fun _ => 8, fun _ => ⟨[], List.not_mem_nil nul⟩⟩].length < 2 ^ 32 - 1 ∧
    ∃ s0 s, klogInit 2 staticState ⟨1, none, (0, 0), fun _ => nul⟩
          ⟨fun _ => 0, fun _ => ⟨[], List.not_mem_nil nul⟩⟩ = some s0 ∧
      logRun 2 s0
          [LogCall.printf ⟨0, some 3, (0, 0), fun _ => nul⟩ 1 ⟨"a %d".toList, by decide⟩
              ⟨fun _ => 7, fun _ => ⟨[], List.not_mem_nil nul⟩⟩,
            .clear,
            .printf ⟨1, some 4, (0, 0), fun _ => nul⟩ 2 ⟨"b %x".toList, by decide⟩
              ⟨fun _ => 255, fun _ => ⟨[], List.not_mem_nil nul⟩⟩,
            .printf ⟨0, some 3, (0, 0), fun _ => nul⟩ 1 ⟨"a %d".toList, by decide⟩
              ⟨fun _ => 8, fun _ => ⟨[], List.not_mem_nil nul⟩⟩] = some s ∧
      ∃ a, Reachable 2 s a ∧ LogSpec s a ∧ ∀ c,
        (snapshotRange (s.cpuLogs c).head).2 - (snapshotRange (s.cpuLogs c).head).1 =
            min (a.since c).length 256 ∧
          (List.range' (snapshotRange (s.cpuLogs c).head).1
              ((snapshotRange (s.cpuLogs c).head).2 - (snapshotRange (s.cpuLogs c).head).1)).map
              (fun p => (s.cpuLogs c).entries (slotOf p)) =
            (a.since c).drop ((a.since c).length - min (a.since c).length 256) := by
  refine' ⟨?few, _, _, ?booted, ?ran, logRun_logSpec 2 _ _ _ ?few ?booted ?ran⟩
  case few => decide
  case booted => rfl
  case ran => rfl

/-- After `2^32` appends to CPU 0 the 32-bit cursor is back at 0: the range is empty. -/
theorem snapshotRange_empty_after_wrap :
    ∃ s a, Reachable 8 s a ∧ (a.since 0).length = 2 ^ 32 ∧
      (snapshotRange (s.cpuLogs 0).head).2 - (snapshotRange (s.cpuLogs 0).head).1 = 0 := by
  obtain ⟨s, a, reach, count, -, -⟩ :=
    (Reachable.boot 8).appends (show 0 < 8 by decide) (by decide) (2 ^ 32)
  have appended : (a.since 0).length = 2 ^ 32 := by simpa [AbsLog.empty] using count
  refine ⟨s, a, reach, appended, ?_⟩
  rw [snapshotRange_width, reach.logInv.head_mod, appended]
  rfl

/-- No writer counts a drop: `klog_get_dropped` is 0 in every reachable state, however often
the rings have been overwritten. -/
theorem klogGetDropped_reachable {NCPU : Nat} {s : KlogState} {a : AbsLog}
    (reach : Reachable NCPU s a) : klogGetDropped NCPU s = 0 := by
  have unchanged : ∀ (cpus : List Nat) (total : BitVec 32),
      cpus.foldl (fun total c => total + (s.cpuLogs c).dropped) total = total := by
    intro cpus
    induction cpus with
    | nil => exact fun _ => rfl
    | cons c cs ih =>
      intro total
      rw [List.foldl_cons, (reach.logInv.cpu c).dropped, add_zero, ih]
  exact unchanged _ 0

theorem klogGetDropped_after_wrap :
    ∃ s a, Reachable 8 s a ∧ (a.since 0).length = 300 ∧ klogGetDropped 8 s = 0 := by
  obtain ⟨s, a, reach, count, -, -⟩ :=
    (Reachable.boot 8).appends (show 0 < 8 by decide) (by decide) 300
  exact ⟨s, a, reach, by simpa [AbsLog.empty] using count, klogGetDropped_reachable reach⟩

end Klog
