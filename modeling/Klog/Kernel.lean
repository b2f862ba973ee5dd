import Klog.Snapshot
import Klog.FormatRender

set_option autoImplicit false

/- The log in the running kernel. `main` calls `klog_init` once, on the boot CPU and before
the other CPUs start; after that the only writers are the call sites `proc.c`, `exec.c` and
`sysfile.c` add, each through a macro of `klog.h` with its own template and level. Nothing in
the kernel calls `klog_clear`.

`main.c`, `proc.c`, `exec.c` and `sysfile.c` are not under `src/`: the boot order is the one the
excerpt of `main` in `src/unnamed/part_000` (lines 578-591) shows, and the call sites, their
templates and their levels are those of the excerpts at lines 611-745 of the same file. -/
namespace Klog

/-- `KLOG_DEBUG`. -/
def klogDebug : BitVec 32 := 0

/-- `KLOG_WARN`. -/
def klogWarn : BitVec 32 := 2

/-- `KLOG_ERROR`. -/
def klogError : BitVec 32 := 3

/-- The calls of the log in `fork`, `exit`, `exec`, `sys_open`, `sys_read` and `sys_write`. -/
inductive CallSite
  | fork
  | exit
  | execNotFound
  | exec
  | openCreateFailed
  | openCreated
  | openNotFound
  | openDone
  | read
  | write
  deriving DecidableEq, Repr

/-- The level of each call site, as the excerpts of `src/unnamed/part_000` (lines 611-745)
call it: `klog_info` is `KLOG_INFO`, `klog_warn` `KLOG_WARN`, and so on. -/
def CallSite.level : CallSite → BitVec 32
  | .fork | .exit | .exec | .openCreated | .openDone => klogInfo
  | .execNotFound | .openCreateFailed => klogError
  | .openNotFound => klogWarn
  | .read | .write => klogDebug

/-- The template of each call site, from the excerpts of `src/unnamed/part_000`
(lines 611-745). -/
def CallSite.template : CallSite → List Char
  | .fork => "fork: pid %d created child %d".toList
  | .exit => "exit: pid %d exiting".toList
  | .execNotFound => "exec: file not found %s".toList
  | .exec => "exec: %s".toList
  | .openCreateFailed => "open: failed to create %s".toList
  | .openCreated => "open: created file %s".toList
  | .openNotFound => "open: file not found %s".toList
  | .openDone => "open: %s fd=%d".toList
  | .read => "read: %d bytes".toList
  | .write => "write: %d bytes".toList

/-- The template as the C string literal it is. -/
def CallSite.fmt (site : CallSite) : CStr :=
  ⟨site.template, by cases site <;> decide⟩

/-- A call of one of the call sites: the site, what `klog_printf_internal` reads besides its
arguments, and the arguments. -/
structure KernelCall where
  site : CallSite
  ctx : KlogCtx
  args : FmtArgs

/-- The calls one after another, each a `klog_printf_level` of its site. -/
def kernelRun (NCPU : Nat) : KlogState → List KernelCall → Option KlogState
  | s, [] => some s
  | s, call :: calls =>
    (klogPrintfLevel NCPU s call.ctx call.site.level call.site.fmt call.args).bind fun s' =>
      kernelRun NCPU s' calls

/-- The log from boot: `klog_init` on the zeroed statics, then the calls of the call sites. The
order is that of the excerpt of `main` in `src/unnamed/part_000` (lines 578-591): `klog_init`
runs before `startothers`, so no other CPU logs before it. -/
def kernelBoot (NCPU : Nat) (ctx : KlogCtx) (args : FmtArgs) (calls : List KernelCall) :
    Option KlogState :=
  (klogInit NCPU staticState ctx args).bind fun s => kernelRun NCPU s calls

theorem callSite_level_lt (site : CallSite) : site.level.toNat < 4 := by
  cases site <;> decide

theorem callSite_known (site : CallSite) : ∀ it ∈ items site.fmt.chars, it.known = true := by
  cases site <;> decide

@[simp] theorem appendEntry_level (s : KlogState) (c : Nat) (level pid : BitVec 32)
    (tsc : BitVec 32 × BitVec 32) (buf : Nat → Char) :
    (appendEntry s c level pid tsc buf).level = level := rfl

/-! ### The history of a run of the call sites -/

/-- What a run of the call sites keeps of the log and its history: a record still valid on
some CPU since it was last cleared, and every record issued at one of the four levels. -/
structure KernelInv (NCPU : Nat) (s : KlogState) (a : AbsLog) : Prop where
  reach : Reachable NCPU s a
  live : ∃ c < NCPU, a.since c ≠ []
  levels : ∀ e ∈ a.issued, e.level.toNat < 4

/-- One call of a call site keeps `KernelInv` and issues at most one record. -/
theorem KernelInv.call {NCPU : Nat} {s s' : KlogState} {a : AbsLog} (inv : KernelInv NCPU s a)
    {call : KernelCall}
    (ran : klogPrintfLevel NCPU s call.ctx call.site.level call.site.fmt call.args = some s') :
    ∃ a', KernelInv NCPU s' a' ∧ a'.issued.length ≤ a.issued.length + 1 := by
  rcases klogPrintfInternal_eq_some ran with rfl | ⟨buf, valid, -, rfl⟩
  · exact ⟨a, inv, Nat.le_succ _⟩
  · have small : call.ctx.cpuId.toInt.toNat < 2 ^ 31 := by
      have := toInt_lt_two_pow call.ctx.cpuId
      omega
    obtain ⟨c, inside, held⟩ := inv.live
    refine ⟨_, ⟨inv.reach.step (.append _ _ _ buf valid small), ⟨c, inside, ?_⟩, ?_⟩, ?_⟩
    · by_cases same : c = call.ctx.cpuId.toInt.toNat
      · rw [same, AbsLog.record_same]
        exact List.append_ne_nil_of_right_ne_nil _ (List.cons_ne_nil _ _)
      · rwa [AbsLog.record_ne _ _ _ same]
    · intro e mem
      rcases List.mem_append.mp mem with old | new
      · exact inv.levels e old
      · rw [List.mem_singleton.mp new, appendEntry_level]
        exact callSite_level_lt call.site
    · rw [AbsLog.record_issued, List.length_append, List.length_singleton]

/-- A run of the call sites keeps `KernelInv` and issues at most one record per call. -/
theorem KernelInv.run {NCPU : Nat} :
    ∀ (calls : List KernelCall) {s s' : KlogState} {a : AbsLog}, KernelInv NCPU s a →
      kernelRun NCPU s calls = some s' →
      ∃ a', KernelInv NCPU s' a' ∧ a'.issued.length ≤ a.issued.length + calls.length
  | [], _, _, a, inv, ran => ⟨a, Option.some.inj ran ▸ inv, Nat.le_add_right _ _⟩
  | call :: calls, s, s', a, inv, ran => by
    obtain ⟨s1, first, rest⟩ := Option.bind_eq_some.mp ran
    obtain ⟨a1, inv1, grew⟩ := inv.call first
    obtain ⟨a', inv', grew'⟩ := KernelInv.run calls inv1 rest
    exact ⟨a', inv', by rw [List.length_cons]; omega⟩

/-- No call of a call site faults, whatever its arguments. -/
theorem kernelRun_some (NCPU : Nat) :
    ∀ (s : KlogState) (calls : List KernelCall), ∃ s', kernelRun NCPU s calls = some s'
  | s, [] => ⟨s, rfl⟩
  | s, call :: calls => by
    obtain ⟨buf, formatted⟩ := klogFormat_known call.args call.site.fmt call.ctx.stack
      (callSite_known call.site)
    obtain ⟨s1, first⟩ := @klogPrintfInternal_some_of_format NCPU s _ call.site.level _ _ _ formatted
    obtain ⟨s', rest⟩ := kernelRun_some NCPU s1 calls
    exact ⟨s', by rw [kernelRun, klogPrintfLevel, first, Option.some_bind, rest]⟩

/-- `klog_init` on a valid CPU returns, with one record issued, valid and at level
`KLOG_INFO`. -/
theorem klogInit_kernelInv (NCPU : Nat) (ctx : KlogCtx) (args : FmtArgs)
    (valid : 0 ≤ ctx.cpuId.toInt ∧ ctx.cpuId.toInt < NCPU) :
    ∃ s a, klogInit NCPU staticState ctx args = some s ∧ KernelInv NCPU s a ∧
      a.issued.length = 1 := by
  obtain ⟨buf, formatted, -⟩ := klogFormat_render args initFmt ctx.stack rfl
  have small := toInt_lt_two_pow ctx.cpuId
  have reach := (Reachable.boot NCPU).klogClear.step (.append klogInfo (ctx.curPid.getD 0) ctx.tsc
    buf (show ctx.cpuId.toInt.toNat < NCPU by omega) (by omega))
  refine ⟨_, _, by rw [klogInit, klogPrintf, klogPrintfInternal, if_neg (by omega), formatted,
    Option.map_some'], ⟨reach, ⟨_, (by omega : ctx.cpuId.toInt.toNat < NCPU), ?_⟩, ?_⟩, ?_⟩
  · rw [AbsLog.record_same]
    exact List.append_ne_nil_of_right_ne_nil _ (List.cons_ne_nil _ _)
  · intro e mem
    rw [AbsLog.record_issued, foldl_reset_issued] at mem
    rw [List.mem_singleton.mp mem, appendEntry_level]
    decide
  · rw [AbsLog.record_issued, foldl_reset_issued]
    rfl

/-! ### Where each record of the log comes from -/

/-- The record a call `klog_printf_internal(level, fmt, ...)` from `ctx` writes, up to its
sequence number and timestamp: at `level`, on the caller's CPU, with its pid, and with the
message the formatter left in `buf`, as a C string. -/
def LoggedBy (ctx : KlogCtx) (level : BitVec 32) (fmt : CStr) (args : FmtArgs)
    (e : KlogEntry) : Prop :=
  e.level = level ∧ e.cpu = ctx.cpuId ∧ e.pid = ctx.curPid.getD 0 ∧
    ∃ buf, klogFormat args fmt ctx.stack = some buf ∧
      e.msg.takeWhile (· ≠ nul) = ((List.range 63).map buf).takeWhile (· ≠ nul)

/-- The C string `msgCopy` leaves is the buffer's, up to its terminator or 63 characters. -/
theorem msgCopy_takeWhile (buf : Nat → Char) (old : List Char) :
    (msgCopy buf old).takeWhile (· ≠ nul) = ((List.range 63).map buf).takeWhile (· ≠ nul) := by
  have noNul : ∀ c ∈ ((List.range 63).map buf).takeWhile (· ≠ nul), decide (c ≠ nul) = true :=
    fun _ => List.mem_takeWhile_imp
  rw [msgCopy, List.takeWhile_append_of_pos noNul]
  simp [nul]

/-- A call of `klog_printf_internal` from a reachable state issues at most one record, the one
the call writes. -/
theorem Reachable.logged {NCPU : Nat} {s s' : KlogState} {a : AbsLog} {ctx : KlogCtx}
    {level : BitVec 32} {fmt : CStr} {args : FmtArgs} (reach : Reachable NCPU s a)
    (ran : klogPrintfInternal NCPU s ctx level fmt args = some s') :
    ∃ a', Reachable NCPU s' a' ∧ ∀ e ∈ a'.issued, e ∈ a.issued ∨ LoggedBy ctx level fmt args e := by
  unfold klogPrintfInternal at ran
  split at ran
  · exact ⟨a, Option.some.inj ran ▸ reach, fun e mem => .inl mem⟩
  · rename_i inside
    obtain ⟨buf, formatted, rfl⟩ := Option.map_eq_some'.mp ran
    have small := toInt_lt_two_pow ctx.cpuId
    have unsigned := toInt_eq_toNat_of_nonneg (show 0 ≤ ctx.cpuId.toInt by omega)
    refine ⟨_, reach.step (.append _ _ _ buf (by omega) (by omega)), fun e mem => ?_⟩
    rcases List.mem_append.mp mem with old | new
    · exact .inl old
    · rw [List.mem_singleton.mp new]
      refine .inr ⟨rfl, BitVec.eq_of_toNat_eq ?_, rfl, buf, formatted, msgCopy_takeWhile buf _⟩
      rw [appendEntry_cpu, BitVec.toNat_ofNat, Nat.mod_eq_of_lt (by omega)]
      omega

/-- Every record a run of the call sites issues is the one some call of the run wrote. -/
theorem Reachable.run_logged {NCPU : Nat} :
    ∀ (calls : List KernelCall) {s s' : KlogState} {a : AbsLog}, Reachable NCPU s a →
      kernelRun NCPU s calls = some s' →
      ∃ a', Reachable NCPU s' a' ∧ ∀ e ∈ a'.issued, e ∈ a.issued ∨
        ∃ call ∈ calls, LoggedBy call.ctx call.site.level call.site.fmt call.args e
  | [], _, _, a, reach, ran => ⟨a, Option.some.inj ran ▸ reach, fun _ mem => .inl mem⟩
  | call :: calls, s, s', a, reach, ran => by
    obtain ⟨s1, first, rest⟩ := Option.bind_eq_some.mp ran
    obtain ⟨a1, reach1, new1⟩ := reach.logged first
    obtain ⟨a', reach', new'⟩ := Reachable.run_logged calls reach1 rest
    refine ⟨a', reach', fun e mem => ?_⟩
    rcases new' e mem with old | ⟨other, listed, logged⟩
    · exact (new1 e old).imp_right fun logged => ⟨call, List.mem_cons_self _ _, logged⟩
    · exact .inr ⟨other, List.mem_cons_of_mem _ listed, logged⟩

/-- Nothing reaches the log of the running kernel but what its calls wrote. After `klog_init`
and any run of the call sites, every record the log holds, and so every record a reader can get,
is the one `klog_init` wrote or the one a call of a call site wrote: at that call's level, on
its CPU, with its pid, and with the message its formatter produced. No stale or zeroed slot is
ever among them. -/
theorem kernelBoot_records_logged (NCPU : Nat) (ctx : KlogCtx) (args : FmtArgs)
    (calls : List KernelCall) {s : KlogState} (booted : kernelBoot NCPU ctx args calls = some s) :
    ∀ e ∈ walk s.cpuLogs (List.range NCPU), LoggedBy ctx klogInfo initFmt args e ∨
      ∃ call ∈ calls, LoggedBy call.ctx call.site.level call.site.fmt call.args e := by
  obtain ⟨s0, init, ran⟩ := Option.bind_eq_some.mp booted
  obtain ⟨a0, reach0, new0⟩ := (Reachable.boot NCPU).klogClear.logged init
  obtain ⟨a, reach, new⟩ := Reachable.run_logged calls reach0 ran
  intro e mem
  obtain ⟨c, -, inRing⟩ := List.mem_flatMap.mp mem
  rcases new e ((reach_validRecords reach c).1.subset inRing) with old | fromCall
  · rw [foldl_reset_issued] at new0
    exact .inl ((new0 e old).resolve_left (List.not_mem_nil e))
  · exact .inr fromCall

theorem kernelBoot_records_logged_fork :
    ∃ s, kernelBoot 1 ⟨0, none, (0, 0), fun _ => nul⟩
        ⟨fun _ => 0, fun _ => ⟨[], List.not_mem_nil nul⟩⟩
        [KernelCall.mk .fork ⟨0, some 1, (0, 0), fun _ => nul⟩
          ⟨fun _ => 1, fun _ => ⟨[], List.not_mem_nil nul⟩⟩] = some s ∧
      ∀ e ∈ walk s.cpuLogs (List.range 1),
        LoggedBy ⟨0, none, (0, 0), fun _ => nul⟩ klogInfo initFmt
            ⟨fun _ => 0, fun _ => ⟨[], List.not_mem_nil nul⟩⟩ e ∨
          ∃ call ∈ [KernelCall.mk .fork ⟨0, some 1, (0, 0), fun _ => nul⟩
              ⟨fun _ => 1, fun _ => ⟨[], List.not_mem_nil nul⟩⟩],
            LoggedBy call.ctx call.site.level call.site.fmt call.args e :=
  ⟨_, rfl, kernelBoot_records_logged 1 ⟨0, none, (0, 0), fun _ => nul⟩
    ⟨fun _ => 0, fun _ => ⟨[], List.not_mem_nil nul⟩⟩
    [KernelCall.mk .fork ⟨0, some 1, (0, 0), fun _ => nul⟩
      ⟨fun _ => 1, fun _ => ⟨[], List.not_mem_nil nul⟩⟩] rfl⟩

/-- A CPU with a record since its last clear, fewer than `2^32` records issued: the walk
holds a record. -/
theorem walk_nonempty_of_live {NCPU : Nat} {s : KlogState} {a : AbsLog}
    (inv : KernelInv NCPU s a) (few : a.issued.length < 2 ^ 32) :
    1 ≤ (walk s.cpuLogs (List.range NCPU)).length := by
  obtain ⟨c, inside, held⟩ := inv.live
  have head := inv.reach.logInv.head_toNat few c
  have positive : 0 < (a.since c).length := List.length_pos.mpr held
  have some : 1 ≤ (validRecords (s.cpuLogs c)).length := by
    rw [validRecords, List.length_map, validPositions_length, head]
    omega
  obtain ⟨e, mem⟩ := List.exists_mem_of_length_pos some
  exact List.length_pos_of_mem
    (List.mem_flatMap.mpr ⟨c, List.mem_range.mpr inside, mem⟩)

/-- Every record of the walk of a run of the call sites is at one of the four levels. -/
theorem walk_levels {NCPU : Nat} {s : KlogState} {a : AbsLog} (inv : KernelInv NCPU s a) :
    ∀ e ∈ walk s.cpuLogs (List.range NCPU), e.level.toNat < 4 := by
  intro e mem
  obtain ⟨c, -, inRing⟩ := List.mem_flatMap.mp mem
  exact inv.levels e ((reach_validRecords inv.reach c).1.subset inRing)

/-- `klog_init` on a valid CPU and the calls of the call sites never fault. -/
theorem kernelBoot_some (NCPU : Nat) (ctx : KlogCtx) (args : FmtArgs)
    (valid : 0 ≤ ctx.cpuId.toInt ∧ ctx.cpuId.toInt < NCPU) (calls : List KernelCall) :
    ∃ s, kernelBoot NCPU ctx args calls = some s := by
  obtain ⟨s0, -, init, -⟩ := klogInit_kernelInv NCPU ctx args valid
  obtain ⟨s, ran⟩ := kernelRun_some NCPU s0 calls
  exact ⟨s, by rw [kernelBoot, init, Option.some_bind, ran]⟩

/-- A state of the running kernel after fewer than `2^32 - 1` calls keeps `KernelInv`, with
fewer than `2^32` records issued. -/
theorem kernelBoot_inv {NCPU : Nat} {ctx : KlogCtx} {args : FmtArgs}
    (valid : 0 ≤ ctx.cpuId.toInt ∧ ctx.cpuId.toInt < NCPU) {calls : List KernelCall}
    (few : calls.length < 2 ^ 32 - 1) {s : KlogState}
    (booted : kernelBoot NCPU ctx args calls = some s) :
    ∃ a, KernelInv NCPU s a ∧ a.issued.length < 2 ^ 32 := by
  obtain ⟨s0, a0, init, inv0, one⟩ := klogInit_kernelInv NCPU ctx args valid
  rw [kernelBoot, init, Option.some_bind] at booted
  obtain ⟨a, inv, grew⟩ := KernelInv.run calls inv0 booted
  exact ⟨a, inv, by omega⟩

/-- `klog_snapshot` on a state of a run of the call sites: `SnapshotSpec`, with a record at
least, each at one of the four levels. -/
theorem kernel_snapshotSpec {NCPU : Nat} {s : KlogState} {a : AbsLog} (inv : KernelInv NCPU s a)
    (few : a.issued.length < 2 ^ 32) (buf : List KlogEntry) (m : BitVec 32)
    (positive : 1 ≤ m.toInt) (fits : m.toInt ≤ buf.length) :
    ∃ out, klogSnapshot NCPU s buf m =
        some (min (walk s.cpuLogs (List.range NCPU)).length m.toInt.toNat,
          out ++ buf.drop (min (walk s.cpuLogs (List.range NCPU)).length m.toInt.toNat)) ∧
      out.Perm ((walk s.cpuLogs (List.range NCPU)).take
        (min (walk s.cpuLogs (List.range NCPU)).length m.toInt.toNat)) ∧
      out.Sorted (fun e f => e.seq < f.seq) ∧
      out.length = min (walk s.cpuLogs (List.range NCPU)).length m.toInt.toNat ∧
      1 ≤ out.length ∧ ∀ e ∈ out, e.level.toNat < 4 := by
  have nonempty := walk_nonempty_of_live inv few
  obtain ⟨out, snap, perm, sorted⟩ := klogSnapshot_reachable inv.reach few buf m positive fits nonempty
  rw [← walk_length] at snap perm
  have counted : out.length = min (walk s.cpuLogs (List.range NCPU)).length m.toInt.toNat := by
    rw [perm.length_eq, List.length_take]
    omega
  exact ⟨out, snap, perm, sorted, counted, by omega,
    fun e mem => walk_levels inv e (List.mem_of_mem_take (perm.subset mem))⟩

/-- In the running kernel the log is never empty and holds no record of another level: after
`klog_init` on a valid CPU and any run of the call sites, which never faults, and while fewer
than `2^32` records have been issued, `klog_snapshot` with room for `m ≥ 1` records returns at
least one, each at one of the four levels. The fault of `klog_snapshot` on an empty log cannot
happen in the kernel, since nothing there calls `klog_clear`. -/
theorem kernelBoot_snapshot (NCPU : Nat) (ctx : KlogCtx) (args : FmtArgs)
    (valid : 0 ≤ ctx.cpuId.toInt ∧ ctx.cpuId.toInt < NCPU) (calls : List KernelCall)
    (few : calls.length < 2 ^ 32 - 1) (buf : List KlogEntry) (m : BitVec 32)
    (positive : 1 ≤ m.toInt) (fits : m.toInt ≤ buf.length) :
    ∃ s, kernelBoot NCPU ctx args calls = some s ∧
      ∃ count out, klogSnapshot NCPU s buf m = some (count, out) ∧ 1 ≤ count ∧
        ∀ e ∈ out.take count, e.level.toNat < 4 := by
  obtain ⟨s, booted⟩ := kernelBoot_some NCPU ctx args valid calls
  obtain ⟨a, inv, fewer⟩ := kernelBoot_inv valid few booted
  obtain ⟨out, snap, -, -, counted, one, levels⟩ :=
    kernel_snapshotSpec inv fewer buf m positive fits
  refine ⟨s, booted, _, _, snap, by omega, fun e mem => levels e ?_⟩
  rwa [← counted, List.take_left] at mem

theorem kernelBoot_snapshot_fork :
    (0 ≤ (0 : BitVec 32).toInt ∧ (0 : BitVec 32).toInt < ((8 : Nat) : Int)) ∧
      [KernelCall.mk .fork ⟨0, some 1, (0, 0), fun _ => nul⟩
        ⟨fun _ => 1, fun _ => ⟨[], List.not_mem_nil nul⟩⟩].length < 2 ^ 32 - 1 ∧
      1 ≤ (64 : BitVec 32).toInt ∧ (64 : BitVec 32).toInt ≤ (List.replicate 64 KlogEntry.zero).length ∧
      ∃ s, kernelBoot 8 ⟨0, none, (0, 0), fun _ => nul⟩ ⟨fun _ => 0, fun _ => ⟨[], List.not_mem_nil nul⟩⟩
          [KernelCall.mk .fork ⟨0, some 1, (0, 0), fun _ => nul⟩
            ⟨fun _ => 1, fun _ => ⟨[], List.not_mem_nil nul⟩⟩] = some s ∧
        ∃ count out, klogSnapshot 8 s (List.replicate 64 KlogEntry.zero) 64 = some (count, out) ∧
          1 ≤ count ∧ ∀ e ∈ out.take count, e.level.toNat < 4 :=
  ⟨by decide, by decide, by decide, by decide,
    kernelBoot_snapshot 8 _ _ (by decide) _ (by decide) _ 64 (by decide) (by decide)⟩

end Klog
