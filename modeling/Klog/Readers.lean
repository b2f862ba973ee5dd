import Klog.Kernel
import Klog.Syscall

set_option autoImplicit false

/- How user space reads the log of the running kernel through `getklog`: what `sys_getklog`
returns, and what `ulog_tool` prints. The tool mallocs room for 64 records, calls
`getklog(entries, 64)`, and prints a header and one line per record it got back; the user
memory the copies of `sys_getklog` leave is kept record by record, by the address each record
starts at, and the tool reads each record from the address it was copied to. (The other way in,
a `read` of `/dev/klog`, overflows the kernel stack; see `Klog.Syscall`.) -/
namespace Klog

/-- `level_names[]`. -/
def levelNames : List String :=
  ["DEBUG", "INFO", "WARN", "ERROR"]

/-- `entries[i].level < 4 ? level_names[entries[i].level] : "?"`, `level` a `uint`. -/
def levelName (level : BitVec 32) : String :=
  if level < 4 then levelNames.getD level.toNat "?" else "?"

/-- The line under the header, `printf(1, "----...\n")`. -/
def ulogRule : String :=
  "----------------------------------------\n"

/-- One `printf` of `ulog_tool`: a fixed text on descriptor `fd`, the header
`"Kernel Log (%d entries):\n"` with its count, or a line `"[%d] %s CPU%d PID%d: %s\n"` with the
values it prints, the message as the C string it starts. -/
inductive ToolOut
  | text (fd : Nat) (s : String)
  | header (count : BitVec 32)
  | line (seq : BitVec 32) (level : String) (cpu pid : BitVec 32) (msg : List Char)
  deriving DecidableEq, Repr

/-- The line the tool prints for a record. -/
def toolLine (e : KlogEntry) : ToolOut :=
  .line e.seq (levelName e.level) e.cpu e.pid (e.msg.takeWhile (· ≠ nul))

/-- The user memory after the copies: the record starting at each address is the one last
copied there. -/
def copyOut (mem : BitVec 32 → KlogEntry) (copies : List (BitVec 32 × KlogEntry)) :
    BitVec 32 → KlogEntry :=
  copies.foldl (fun mem c => Function.update mem c.1 c.2) mem

/-- `main` of `ulog_tool`: the block `malloc(64 * sizeof(struct klog_entry))` returns (`none`
when it fails), the size of the process and what the kernel's `kalloc` and `copyout` do for the
call `getklog(entries, 64)`, and the records the block held before. `none` is a fault of the
kernel. -/
def ulogTool (NCPU : Nat) (s : KlogState) (block : Option (BitVec 32)) (sz : BitVec 32)
    (kalloc : Option {page : List KlogEntry // page.length = maxFit}) (copyout : BitVec 32 → Bool)
    (mem : BitVec 32 → KlogEntry) : Option (List ToolOut) :=
  match block with
  | none => some [.text 2 "malloc failed\n"]
  | some entries =>
    (sysGetklog NCPU s ⟨some entries, some 64, sz, kalloc⟩ copyout).map fun r =>
      if r.2.toInt < 0 then [.text 2 "getklog failed\n"]
      else .header r.2 :: .text 1 ulogRule :: (List.range r.2.toInt.toNat).map fun i =>
        toolLine (copyOut mem r.1 (entries + BitVec.ofNat 32 i * entryBytes))

@[simp] theorem copyOut_nil (mem : BitVec 32 → KlogEntry) : copyOut mem [] = mem := rfl

@[simp] theorem copyOut_cons (mem : BitVec 32 → KlogEntry) (c : BitVec 32 × KlogEntry)
    (copies : List (BitVec 32 × KlogEntry)) :
    copyOut mem (c :: copies) = copyOut (Function.update mem c.1 c.2) copies := rfl

/-- An address no copy went to keeps its record. -/
theorem copyOut_outside : ∀ (copies : List (BitVec 32 × KlogEntry)) (mem : BitVec 32 → KlogEntry)
    (a : BitVec 32), (∀ c ∈ copies, c.1 ≠ a) → copyOut mem copies a = mem a
  | [], _, _, _ => rfl
  | c :: cs, mem, a, away => by
    rw [copyOut_cons, copyOut_outside cs _ a fun d mem => away d (List.mem_cons_of_mem _ mem),
      Function.update_noteq (away c (List.mem_cons_self _ _)).symm]

/-- Record slot `n` of a user array at `bufAddr` that does not wrap. -/
theorem entryAddr_toNat (bufAddr : BitVec 32) (n : Nat)
    (fits : bufAddr.toNat + n * klogEntrySize < 2 ^ 32) :
    (bufAddr + BitVec.ofNat 32 n * entryBytes).toNat = bufAddr.toNat + n * klogEntrySize := by
  rw [BitVec.toNat_add, BitVec.toNat_mul, entryBytes, BitVec.toNat_ofNat, BitVec.toNat_ofNat]
  simp only [klogEntrySize] at fits ⊢
  rw [Nat.mod_eq_of_lt (show n % 2 ^ 32 * (88 % 2 ^ 32) < 2 ^ 32 by omega)]
  omega

/-- When every `copyout` succeeds, slot `i + j` of the user array holds record `j` after the copy
loop of `sys_getklog` from record `i`. -/
theorem copyOut_getklogCopy {copyout : BitVec 32 → Bool} (ok : ∀ a, copyout a = true)
    (bufAddr : BitVec 32) :
    ∀ (recs : List KlogEntry) (i : Nat) (mem : BitVec 32 → KlogEntry) (j : Nat),
      j < recs.length → bufAddr.toNat + (i + recs.length) * klogEntrySize ≤ 2 ^ 32 →
      recs[j]? = some (copyOut mem (getklogCopy copyout bufAddr i recs).1
        (bufAddr + BitVec.ofNat 32 (i + j) * entryBytes))
  | [], _, _, _, inside, _ => absurd inside (Nat.not_lt_zero _)
  | e :: rest, i, mem, j, inside, fits => by
    rw [List.length_cons] at inside fits
    simp only [getklogCopy, ok, if_true, copyOut_cons]
    cases j with
    | zero =>
      have later := (getklogCopy_spec copyout bufAddr rest (i + 1)).1
      have apart : ∀ c ∈ (getklogCopy copyout bufAddr (i + 1) rest).1,
          c.1 ≠ bufAddr + BitVec.ofNat 32 (i + 0) * entryBytes := by
        intro c mem' same
        obtain ⟨j', at'⟩ := List.mem_iff_getElem?.mp mem'
        obtain ⟨addr, recd⟩ := later j' c.1 c.2 at'
        have inRest := (List.getElem?_eq_some_iff.mp recd).1
        have moved := congrArg BitVec.toNat (addr.symm.trans same)
        rw [entryAddr_toNat _ _ (by simp only [klogEntrySize] at fits ⊢; omega),
          entryAddr_toNat _ _ (by simp only [klogEntrySize] at fits ⊢; omega)] at moved
        simp only [klogEntrySize] at moved
        omega
      rw [copyOut_outside _ _ _ apart, Nat.add_zero, Function.update_same, List.getElem?_cons_zero]
    | succ j =>
      rw [List.getElem?_cons_succ, copyOut_getklogCopy ok bufAddr rest (i + 1) _ j (by omega)
        (by rw [show i + 1 + rest.length = i + (rest.length + 1) by omega]; exact fits),
        Nat.add_right_comm, Nat.add_assoc]

theorem levelName_mem {level : BitVec 32} (named : level.toNat < 4) :
    levelName level ∈ levelNames := by
  rw [levelName, if_pos (BitVec.lt_def.mpr (show level.toNat < (4 : BitVec 32).toNat from named))]
  generalize level.toNat = n at named
  interval_cases n <;> decide

/-! ### What the tool shows in the running kernel -/

/-- The checks of `sys_getklog` pass for `getklog(entries, 64)` on a block inside the process. -/
theorem getklogArgsOk_block {entries sz : BitVec 32}
    (inUser : 0 ≤ entries.toInt ∧ entries.toNat + 64 * klogEntrySize ≤ sz.toNat) :
    getklogArgsOk entries 64 sz = true := by
  have size : (64 : BitVec 32).toNat = 64 := rfl
  refine (getklogArgsOk_iff entries 64 sz).mpr ⟨by decide, by decide, inUser.1, ?_, ?_⟩ <;>
    simp only [size, klogEntrySize] at inUser ⊢ <;> omega

/-- `count` of at most 46 records, as the `int` `sys_getklog` returns. -/
theorem ofNat_toInt_of_le {count : Nat} (small : count ≤ maxFit) :
    (BitVec.ofNat 32 count).toInt = count := by
  have fit : maxFit = 46 := rfl
  rw [BitVec.toInt_eq_toNat_cond, BitVec.toNat_ofNat, Nat.mod_eq_of_lt (by omega)]
  split <;> omega

/-- The lines of the tool for `count` records copied from `recs` to the user array. -/
theorem toolLines_eq {copyout : BitVec 32 → Bool} (ok : ∀ a, copyout a = true) (entries : BitVec 32)
    (mem : BitVec 32 → KlogEntry) (recs : List KlogEntry)
    (fits : entries.toNat + recs.length * klogEntrySize ≤ 2 ^ 32) :
    (List.range recs.length).map (fun i =>
        toolLine (copyOut mem (getklogCopy copyout entries 0 recs).1
          (entries + BitVec.ofNat 32 i * entryBytes))) = recs.map toolLine := by
  apply List.ext_getElem
  · rw [List.length_map, List.length_range, List.length_map]
  · intro i inside _
    rw [List.length_map, List.length_range] at inside
    have copied := copyOut_getklogCopy ok entries recs 0 mem i inside (by rwa [Nat.zero_add])
    rw [Nat.zero_add, List.getElem?_eq_getElem inside, Option.some.injEq] at copied
    rw [List.getElem_map, List.getElem_map, List.getElem_range, copied]

/-- What `ulog_tool` shows in the running kernel. After `klog_init` on a valid CPU and fewer
than `2^32 - 1` calls of the call sites, a run of the tool whose block lies inside the process,
with a page from `kalloc` and every `copyout` succeeding, prints the header with the count,
the rule, and one line per record. The records are the first `min(n, 46)` of the `n` valid ones
in the order the collector visits them (CPU 0 first), one at least, with strictly increasing
sequence numbers, each line naming one of the four levels: the 64 the tool asks for are cut to
the 46 that fit in the kernel's page. -/
theorem ulogTool_shows_log (NCPU : Nat) (ctx : KlogCtx) (args : FmtArgs)
    (valid : 0 ≤ ctx.cpuId.toInt ∧ ctx.cpuId.toInt < NCPU) (calls : List KernelCall)
    (few : calls.length < 2 ^ 32 - 1) {s : KlogState}
    (booted : kernelBoot NCPU ctx args calls = some s) (entries sz : BitVec 32)
    (inUser : 0 ≤ entries.toInt ∧ entries.toNat + 64 * klogEntrySize ≤ sz.toNat)
    (kbuf : {page : List KlogEntry // page.length = maxFit}) {copyout : BitVec 32 → Bool}
    (copied : ∀ a, copyout a = true) (mem : BitVec 32 → KlogEntry) :
    ∃ recs : List KlogEntry, ulogTool NCPU s (some entries) sz (some kbuf) copyout mem =
        some (.header (BitVec.ofNat 32 recs.length) :: .text 1 ulogRule :: recs.map toolLine) ∧
      recs.length = min (walk s.cpuLogs (List.range NCPU)).length maxFit ∧ 1 ≤ recs.length ∧
      recs.Perm ((walk s.cpuLogs (List.range NCPU)).take recs.length) ∧
      recs.Sorted (fun e f => e.seq < f.seq) ∧ ∀ e ∈ recs, levelName e.level ∈ levelNames := by
  obtain ⟨a, inv, fewer⟩ := kernelBoot_inv valid few booted
  have budget : clampBudget 64 = 46 := rfl
  have page : (46 : BitVec 32).toInt ≤ kbuf.1.length := by
    rw [kbuf.2]
    decide
  obtain ⟨recs, snap, perm, sorted, counted, one, levels⟩ :=
    kernel_snapshotSpec inv fewer kbuf.1 46 (by decide) page
  have fortySix : (46 : BitVec 32).toInt.toNat = maxFit := rfl
  rw [fortySix] at snap perm counted
  have within : recs.length ≤ 46 := by
    rw [counted]
    exact Nat.min_le_right _ _
  obtain ⟨allOk, length⟩ := (getklogCopy_spec copyout entries recs 0).2 fun c _ => copied c.1
  have countInt := ofNat_toInt_of_le within
  have count : ¬ (BitVec.ofNat 32 recs.length).toInt < 0 := by omega
  have countNat : (BitVec.ofNat 32 recs.length).toInt.toNat = recs.length := by omega
  refine ⟨recs, ?_, counted, one, by rwa [← counted] at perm, sorted,
    fun e mem => levelName_mem (levels e mem)⟩
  simp only [ulogTool, sysGetklog, getklogArgsOk_block inUser, if_true, budget, snap,
    Option.map_some', ← counted, List.take_left, allOk, if_neg count, countNat]
  rw [toolLines_eq copied entries mem recs (by simp only [klogEntrySize] at inUser ⊢; omega)]

/-- Two CPUs and 47 records: `klog_init` and an `exit` on CPU 1, then 45 `exit`s on CPU 0.
The tool asks for 64 records and gets the 46 that fit in the page. -/
theorem ulogTool_shows_log_clamped :
    ∃ s, (0 ≤ (1 : BitVec 32).toInt ∧ (1 : BitVec 32).toInt < ((2 : Nat) : Int)) ∧
      (KernelCall.mk .exit ⟨1, some 2, (0, 0), fun _ => nul⟩
          ⟨fun _ => 2, fun _ => ⟨[], List.not_mem_nil nul⟩⟩ ::
        List.replicate 45 (KernelCall.mk .exit ⟨0, some 3, (0, 0), fun _ => nul⟩
          ⟨fun _ => 3, fun _ => ⟨[], List.not_mem_nil nul⟩⟩)).length < 2 ^ 32 - 1 ∧
      kernelBoot 2 ⟨1, none, (0, 0), fun _ => nul⟩ ⟨fun _ => 0, fun _ => ⟨[], List.not_mem_nil nul⟩⟩
        (KernelCall.mk .exit ⟨1, some 2, (0, 0), fun _ => nul⟩
            ⟨fun _ => 2, fun _ => ⟨[], List.not_mem_nil nul⟩⟩ ::
          List.replicate 45 (KernelCall.mk .exit ⟨0, some 3, (0, 0), fun _ => nul⟩
            ⟨fun _ => 3, fun _ => ⟨[], List.not_mem_nil nul⟩⟩)) = some s ∧
      maxFit < (walk s.cpuLogs (List.range 2)).length ∧
      (0 ≤ (0 : BitVec 32).toInt ∧ (0 : BitVec 32).toNat + 64 * klogEntrySize ≤ (8192 : BitVec 32).toNat) ∧
      (∀ a : BitVec 32, (fun _ => true) a = true) ∧
      ∃ recs : List KlogEntry, ulogTool 2 s (some 0) 8192 (some ⟨List.replicate maxFit KlogEntry.zero, by simp⟩)
          (fun _ => true) (fun _ => KlogEntry.zero) =
          some (.header (BitVec.ofNat 32 recs.length) :: .text 1 ulogRule :: recs.map toolLine) ∧
        recs.length = min (walk s.cpuLogs (List.range 2)).length maxFit ∧ 1 ≤ recs.length ∧
        recs.Perm ((walk s.cpuLogs (List.range 2)).take recs.length) ∧
        recs.Sorted (fun e f => e.seq < f.seq) ∧ ∀ e ∈ recs, levelName e.level ∈ levelNames := by
  refine' ⟨_, ?valid, ?few, ?booted, ?clamped, ?inUser, ?copied,
    ulogTool_shows_log 2 _ _ ?valid _ ?few ?booted 0 8192 ?inUser _ ?copied _⟩
  case booted => rfl
  case copied => exact fun _ => rfl
  case clamped =>
    rw [walk_length]
    decide
  all_goals decide

/-! ### What `getklog` returns -/

/-- A call of `sys_getklog` past its fetches, checks and `kalloc`, in the running kernel: the
snapshot returns `count` records, `1 ≤ count ≤ 46`, and the call returns `count` or `-1` as
its copy loop reports. -/
theorem sysGetklog_accepted {NCPU : Nat} {s : KlogState} {a : AbsLog} (inv : KernelInv NCPU s a)
    (few : a.issued.length < 2 ^ 32) {bufAddr maxEntries sz : BitVec 32}
    (kbuf : {page : List KlogEntry // page.length = maxFit})
    (passed : getklogArgsOk bufAddr maxEntries sz = true) (copyout : BitVec 32 → Bool) :
    ∃ recs : List KlogEntry, 1 ≤ recs.length ∧ recs.length ≤ maxFit ∧
      sysGetklog NCPU s ⟨some bufAddr, some maxEntries, sz, some kbuf⟩ copyout =
        some ((getklogCopy copyout bufAddr 0 recs).1,
          if (getklogCopy copyout bufAddr 0 recs).2 then BitVec.ofNat 32 recs.length else -1) := by
  obtain ⟨low, -, -, -, -⟩ := (getklogArgsOk_iff bufAddr maxEntries sz).mp passed
  have budget := clampBudget_toInt maxEntries
  have fit : maxFit = 46 := rfl
  have pageLength := kbuf.2
  have nonempty := walk_nonempty_of_live inv few
  obtain ⟨out, snap, length⟩ := klogSnapshot_some NCPU s kbuf.1 (clampBudget maxEntries)
    (by omega) (by omega) nonempty
  set count := min (walk s.cpuLogs (List.range NCPU)).length (clampBudget maxEntries).toInt.toNat
  have taken : (out.take count).length = count := by
    rw [List.length_take, length, pageLength]
    omega
  refine ⟨out.take count, by omega, by omega, ?_⟩
  simp only [sysGetklog, passed, if_true, snap, Option.map_some', taken]

/-- In the running kernel `sys_getklog` never faults, and its result tells success from
failure: `-1` exactly when a fetch, a check, `kalloc` or a `copyout` fails, and otherwise the
number of records it copied, between 1 and the 46 that fit in the page. -/
theorem sysGetklog_minus_one_iff (NCPU : Nat) (ctx : KlogCtx) (args : FmtArgs)
    (valid : 0 ≤ ctx.cpuId.toInt ∧ ctx.cpuId.toInt < NCPU) (calls : List KernelCall)
    (few : calls.length < 2 ^ 32 - 1) {s : KlogState}
    (booted : kernelBoot NCPU ctx args calls = some s) (call : GetklogCall)
    (copyout : BitVec 32 → Bool) :
    ∃ copies ret, sysGetklog NCPU s call copyout = some (copies, ret) ∧
      (call.accepted = false → copies = []) ∧
      (ret = -1 ↔ call.accepted = false ∨ ∃ c ∈ copies, copyout c.1 = false) ∧
      (ret ≠ -1 → 1 ≤ ret.toInt ∧ ret.toInt ≤ maxFit ∧ ret.toNat = copies.length) := by
  cases accepted : call.accepted
  case false =>
    exact ⟨[], -1, sysGetklog_refused NCPU s copyout accepted, fun _ => rfl,
      iff_of_true rfl (Or.inl rfl), fun kept => absurd rfl kept⟩
  case true =>
    obtain ⟨_ | bufAddr, _ | maxEntries, sz, _ | kbuf⟩ := call <;>
      simp only [GetklogCall.accepted, Option.isSome_none, Option.isSome_some, Bool.and_false,
        Bool.and_true, Bool.false_eq_true] at accepted
    obtain ⟨a, inv, fewer⟩ := kernelBoot_inv valid few booted
    obtain ⟨recs, one, within, ran⟩ := sysGetklog_accepted inv fewer kbuf accepted copyout
    have ok := getklogCopy_ok copyout bufAddr recs 0
    by_cases allOk : (getklogCopy copyout bufAddr 0 recs).2 = true
    · rw [if_pos allOk] at ran
      have countInt := ofNat_toInt_of_le within
      have minusOne : (-1 : BitVec 32).toInt = -1 := by decide
      obtain ⟨-, copiedAll⟩ := (getklogCopy_spec copyout bufAddr recs 0).2 (ok.mp allOk)
      refine ⟨_, _, ran, (nomatch ·), iff_of_false (fun minus => ?_) ?_,
        fun _ => ⟨by omega, by omega, ?_⟩⟩
      · have signed := congrArg BitVec.toInt minus
        omega
      · rintro (refused | ⟨c, mem, failed⟩)
        · cases refused
        · rw [ok.mp allOk c mem] at failed
          cases failed
      · have unsigned := toInt_eq_toNat_of_nonneg (x := BitVec.ofNat 32 recs.length) (by omega)
        omega
    · rw [if_neg allOk] at ran
      obtain ⟨c, mem, failed⟩ := not_forall₂.mp (mt ok.mpr allOk)
      exact ⟨_, _, ran, (nomatch ·),
        iff_of_true rfl (Or.inr ⟨c, mem, Bool.eq_false_iff.mpr failed⟩), fun kept => absurd rfl kept⟩

/-- Two CPUs and three records (`klog_init` and an `exit` on CPU 1, a `fork` on CPU 0), and
three calls: one that succeeds, one refused for `max_entries = 0`, and one whose second
`copyout`, to address 88, fails. -/
theorem sysGetklog_minus_one_iff_three_calls :
    ∃ s, (0 ≤ (1 : BitVec 32).toInt ∧ (1 : BitVec 32).toInt < ((2 : Nat) : Int)) ∧
      [KernelCall.mk .fork ⟨0, some 2, (0, 0), fun _ => nul⟩
          ⟨fun _ => 2, fun _ => ⟨[], List.not_mem_nil nul⟩⟩,
        KernelCall.mk .exit ⟨1, some 3, (0, 0), fun _ => nul⟩
          ⟨fun _ => 3, fun _ => ⟨[], List.not_mem_nil nul⟩⟩].length < 2 ^ 32 - 1 ∧
      kernelBoot 2 ⟨1, none, (0, 0), fun _ => nul⟩ ⟨fun _ => 0, fun _ => ⟨[], List.not_mem_nil nul⟩⟩
        [KernelCall.mk .fork ⟨0, some 2, (0, 0), fun _ => nul⟩
            ⟨fun _ => 2, fun _ => ⟨[], List.not_mem_nil nul⟩⟩,
          KernelCall.mk .exit ⟨1, some 3, (0, 0), fun _ => nul⟩
            ⟨fun _ => 3, fun _ => ⟨[], List.not_mem_nil nul⟩⟩] = some s ∧
      GetklogCall.accepted ⟨some 0, some 0, 8192,
        some ⟨List.replicate maxFit KlogEntry.zero, List.length_replicate _ _⟩⟩ = false ∧
      GetklogCall.accepted ⟨some 0, some 64, 8192,
        some ⟨List.replicate maxFit KlogEntry.zero, List.length_replicate _ _⟩⟩ = true ∧
      (∃ copies ret, sysGetklog 2 s ⟨some 0, some 64, 8192,
          some ⟨List.replicate maxFit KlogEntry.zero, List.length_replicate _ _⟩⟩ (fun _ => true) =
          some (copies, ret) ∧
        (GetklogCall.accepted ⟨some 0, some 64, 8192,
            some ⟨List.replicate maxFit KlogEntry.zero, List.length_replicate _ _⟩⟩ = false →
          copies = []) ∧
        (ret = -1 ↔ GetklogCall.accepted ⟨some 0, some 64, 8192,
            some ⟨List.replicate maxFit KlogEntry.zero, List.length_replicate _ _⟩⟩ = false ∨
          ∃ c ∈ copies, (fun _ => true) c.1 = false) ∧
        (ret ≠ -1 → 1 ≤ ret.toInt ∧ ret.toInt ≤ maxFit ∧ ret.toNat = copies.length)) ∧
      (∃ copies ret, sysGetklog 2 s ⟨some 0, some 0, 8192,
          some ⟨List.replicate maxFit KlogEntry.zero, List.length_replicate _ _⟩⟩ (fun _ => true) =
          some (copies, ret) ∧
        (GetklogCall.accepted ⟨some 0, some 0, 8192,
            some ⟨List.replicate maxFit KlogEntry.zero, List.length_replicate _ _⟩⟩ = false →
          copies = []) ∧
        (ret = -1 ↔ GetklogCall.accepted ⟨some 0, some 0, 8192,
            some ⟨List.replicate maxFit KlogEntry.zero, List.length_replicate _ _⟩⟩ = false ∨
          ∃ c ∈ copies, (fun _ => true) c.1 = false) ∧
        (ret ≠ -1 → 1 ≤ ret.toInt ∧ ret.toInt ≤ maxFit ∧ ret.toNat = copies.length)) ∧
      ∃ copies ret, sysGetklog 2 s ⟨some 0, some 64, 8192,
          some ⟨List.replicate maxFit KlogEntry.zero, List.length_replicate _ _⟩⟩
          (fun a => a != 88) = some (copies, ret) ∧
        (GetklogCall.accepted ⟨some 0, some 64, 8192,
            some ⟨List.replicate maxFit KlogEntry.zero, List.length_replicate _ _⟩⟩ = false →
          copies = []) ∧
        (ret = -1 ↔ GetklogCall.accepted ⟨some 0, some 64, 8192,
            some ⟨List.replicate maxFit KlogEntry.zero, List.length_replicate _ _⟩⟩ = false ∨
          ∃ c ∈ copies, (fun a => a != 88) c.1 = false) ∧
        (ret ≠ -1 → 1 ≤ ret.toInt ∧ ret.toInt ≤ maxFit ∧ ret.toNat = copies.length) := by
  refine' ⟨_, ?valid, ?few, ?booted, ?refused, ?accepted,
    sysGetklog_minus_one_iff 2 _ _ ?valid _ ?few ?booted _ _,
    sysGetklog_minus_one_iff 2 _ _ ?valid _ ?few ?booted _ _,
    sysGetklog_minus_one_iff 2 _ _ ?valid _ ?few ?booted _ _⟩
  case booted => rfl
  all_goals decide

end Klog
