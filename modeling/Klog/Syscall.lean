import Klog.Snapshot
import Klog.FormatRender

set_option autoImplicit false

/- The two readers user space has: the system call `getklog` (`sys_getklog`) and the read
side of `/dev/klog` (`klogdev_read`). Each takes a snapshot into a kernel array, the page
`kalloc` returns or a local array on the kernel stack, and copies the records out one `copyout`
at a time. `copyout` is an oracle on the user address it writes; each copy is recorded with its
address and the record it carries. -/
namespace Klog

/-- xv6's `PGSIZE`, the size of the page `kalloc` returns. -/
def pgSize : Nat := 4096

/-- `max_fit = PGSIZE / sizeof(struct klog_entry)`: the whole records a page holds. -/
def maxFit : Nat := pgSize / klogEntrySize

/-- `sizeof(struct klog_entry)` as the `uint` it is in C arithmetic. -/
def entryBytes : BitVec 32 := BitVec.ofNat 32 klogEntrySize

/-- The checks of `sys_getklog`. `max_entries` and `buf_addr` are `int`; `buf_addr >= sz`
and the bound compare as `uint`, and the bound `buf_addr + max_entries * sizeof(...)` is
computed in `uint`. -/
def getklogArgsOk (bufAddr maxEntries sz : BitVec 32) : Bool :=
  !(maxEntries.toInt ≤ 0 || 1024 < maxEntries.toInt) &&
    !(bufAddr.toInt < 0 || sz ≤ bufAddr) &&
    !(sz < bufAddr + maxEntries * entryBytes)

/-- `if(max_entries > max_fit) max_entries = max_fit;` -/
def clampBudget (maxEntries : BitVec 32) : BitVec 32 :=
  if (maxFit : Int) < maxEntries.toInt then BitVec.ofNat 32 maxFit else maxEntries

/-- The copy loop of `sys_getklog` from record `i` on: `copyout` of `kbuf[i]` to
`(uint)buf_addr + i * sizeof(...)`, stopping at the first that fails. The copies made, and
whether all succeeded. -/
def getklogCopy (copyout : BitVec 32 → Bool) (bufAddr : BitVec 32) :
    Nat → List KlogEntry → List (BitVec 32 × KlogEntry) × Bool
  | _, [] => ([], true)
  | i, e :: rest =>
    let dst := bufAddr + BitVec.ofNat 32 i * entryBytes
    if copyout dst then
      let r := getklogCopy copyout bufAddr (i + 1) rest
      ((dst, e) :: r.1, r.2)
    else ([(dst, e)], false)

/-- What `sys_getklog` reads besides the log: its arguments as `argint` fetches them (`none`
when the fetch fails), `curproc->sz`, and the page `kalloc` returns as the records it holds
(`none` when it is out of memory). -/
structure GetklogCall where
  bufAddr : Option (BitVec 32)
  maxEntries : Option (BitVec 32)
  sz : BitVec 32
  kalloc : Option {page : List KlogEntry // page.length = maxFit}

/-- `sys_getklog`: `-1` on a failed fetch, check or `kalloc`; otherwise the snapshot into the
page with the clamped budget, then the copy loop, `-1` at the first failed `copyout` and
`count` if all succeed. `none` is a fault of the snapshot. -/
def sysGetklog (NCPU : Nat) (s : KlogState) (call : GetklogCall) (copyout : BitVec 32 → Bool) :
    Option (List (BitVec 32 × KlogEntry) × BitVec 32) :=
  match call.bufAddr, call.maxEntries with
  | some bufAddr, some maxEntries =>
    if getklogArgsOk bufAddr maxEntries call.sz then
      match call.kalloc with
      | some kbuf =>
        (klogSnapshot NCPU s kbuf.1 (clampBudget maxEntries)).map fun r =>
          let copied := getklogCopy copyout bufAddr 0 (r.2.take r.1)
          (copied.1, if copied.2 then BitVec.ofNat 32 r.1 else -1)
      | none => some ([], -1)
    else some ([], -1)
  | _, _ => some ([], -1)

/-- The copy loop of `klogdev_read` over the first `count` records: `copyout` of each to
`(uint)dst + copied` while `copied + sizeof(...) <= n`, compared as `uint`. The copies made,
and `copied`, or `-1` at the first failed `copyout`. -/
def readCopy (copyout : BitVec 32 → Bool) (dst n : BitVec 32) :
    List KlogEntry → BitVec 32 → List (BitVec 32 × KlogEntry) × BitVec 32
  | [], copied => ([], copied)
  | e :: rest, copied =>
    if copied + entryBytes ≤ n then
      if copyout (dst + copied) then
        let r := readCopy copyout dst n rest (copied + entryBytes)
        ((dst + copied, e) :: r.1, r.2)
      else ([(dst + copied, e)], -1)
    else ([], copied)

/-- xv6's kernel stack, `KSTACKSIZE` in `param.h` (not under `src/`): one page. The notes under
`src/` say the same: "Stack is limited in xv6 (~4KB)". -/
def kstackSize : Nat := pgSize

/-- The least `klogdev_read`'s frame needs on the kernel stack: its array
`struct klog_entry entries[64]`. -/
def klogdevReadFrame : Nat := 64 * klogEntrySize

/-- `klogdev_read(ip, dst, n)`, entered with `used` bytes of the kernel stack already taken.
Its frame, with the array `entries[64]`, has to fit on the stack; when it does not, the call
writes below the stack page, a fault here as a store past `buf[64]` is. Otherwise a snapshot of
at most 64 records into `entries`, then the copy loop from `copied = 0`. -/
def klogdevRead (NCPU : Nat) (s : KlogState) (used : Nat)
    (entries : {l : List KlogEntry // l.length = 64}) (dst n : BitVec 32)
    (copyout : BitVec 32 → Bool) : Option (List (BitVec 32 × KlogEntry) × BitVec 32) :=
  if kstackSize < used + klogdevReadFrame then none
  else (klogSnapshot NCPU s entries.1 64).map fun r => readCopy copyout dst n (r.2.take r.1) 0

/-- `klogdev_write`: the device is read-only. -/
def klogdevWrite : BitVec 32 := -1

/-- The fetches, the checks and `kalloc` of `sys_getklog` all succeed. -/
def GetklogCall.accepted (call : GetklogCall) : Bool :=
  match call.bufAddr, call.maxEntries with
  | some bufAddr, some maxEntries => getklogArgsOk bufAddr maxEntries call.sz && call.kalloc.isSome
  | _, _ => false

/-! ### The checks of `sys_getklog` -/

/-- The checks pass exactly when `1 ≤ max_entries ≤ 1024`, `0 ≤ buf_addr < sz` and the
bound, which does not wrap, is at most `sz`. -/
theorem getklogArgsOk_iff (bufAddr maxEntries sz : BitVec 32) :
    getklogArgsOk bufAddr maxEntries sz = true ↔
      1 ≤ maxEntries.toInt ∧ maxEntries.toInt ≤ 1024 ∧ 0 ≤ bufAddr.toInt ∧
        bufAddr.toNat < sz.toNat ∧ bufAddr.toNat + maxEntries.toNat * klogEntrySize ≤ sz.toNat := by
  have addr := bufAddr.isLt
  have size := maxEntries.isLt
  simp only [getklogArgsOk, Bool.and_eq_true, Bool.not_eq_true', Bool.or_eq_false_iff,
    decide_eq_false_iff_not, not_le, not_lt, BitVec.le_def, BitVec.lt_def, BitVec.toNat_add,
    BitVec.toNat_mul, entryBytes, klogEntrySize, BitVec.toNat_ofNat, BitVec.toInt_eq_toNat_cond,
    Nat.reduceMod]
  split_ifs <;> omega

theorem clampBudget_toInt (maxEntries : BitVec 32) :
    (clampBudget maxEntries).toInt = min maxEntries.toInt maxFit := by
  unfold clampBudget
  split
  · rw [min_eq_right (by omega)]
    rfl
  · rw [min_eq_left (by omega)]

/-- A call that fails a fetch, a check or `kalloc` returns `-1` and copies nothing. -/
theorem sysGetklog_refused (NCPU : Nat) (s : KlogState) {call : GetklogCall}
    (copyout : BitVec 32 → Bool) (refused : call.accepted = false) :
    sysGetklog NCPU s call copyout = some ([], -1) := by
  obtain ⟨_ | bufAddr, _ | maxEntries, sz, _ | kbuf⟩ := call <;>
    simp only [sysGetklog, GetklogCall.accepted, Option.isSome_none, Option.isSome_some,
      Bool.and_false, Bool.and_true] at refused ⊢
  · split <;> rfl
  · rw [if_neg (by rw [refused]; decide)]

/-! ### The copy loops -/

/-- Copy `j` of a loop whose first copy was `x` and whose later copies are `rest`. -/
theorem copy_cons_cases {x y : BitVec 32 × KlogEntry} {rest : List (BitVec 32 × KlogEntry)}
    {j : Nat} (copy : (x :: rest)[j]? = some y) :
    (j = 0 ∧ y = x) ∨ ∃ k, j = k + 1 ∧ rest[k]? = some y := by
  cases j with
  | zero =>
    rw [List.getElem?_cons_zero, Option.some.injEq] at copy
    exact .inl ⟨rfl, copy.symm⟩
  | succ k => exact .inr ⟨k, rfl, by rwa [List.getElem?_cons_succ] at copy⟩

/-- Record `i` of the first `n` of a snapshot is record `i < n` of the snapshot. -/
theorem getElem?_take_some {out : List KlogEntry} {n i : Nat} {e : KlogEntry}
    (recd : (out.take n)[i]? = some e) : i < n ∧ out[i]? = some e := by
  rw [List.getElem?_take] at recd
  by_cases inside : i < n
  · exact ⟨inside, by rwa [if_pos inside] at recd⟩
  · rw [if_neg inside] at recd
    cases recd

/-- Copy `j` of the loop of `sys_getklog` from record `i` carries record `j` to
`buf_addr + (i + j) * sizeof(...)`; when every copy succeeds there is one per record. -/
theorem getklogCopy_spec (copyout : BitVec 32 → Bool) (bufAddr : BitVec 32) :
    ∀ (recs : List KlogEntry) (i : Nat),
      (∀ j dst e, (getklogCopy copyout bufAddr i recs).1[j]? = some (dst, e) →
        dst = bufAddr + BitVec.ofNat 32 (i + j) * entryBytes ∧ recs[j]? = some e) ∧
      ((∀ c ∈ (getklogCopy copyout bufAddr i recs).1, copyout c.1 = true) →
        (getklogCopy copyout bufAddr i recs).2 = true ∧
          (getklogCopy copyout bufAddr i recs).1.length = recs.length)
  | [], _ => ⟨fun _ _ _ copy => (by cases copy), fun _ => ⟨rfl, rfl⟩⟩
  | e :: rest, i => by
    obtain ⟨later, complete⟩ := getklogCopy_spec copyout bufAddr rest (i + 1)
    have first : ∀ {L : List (BitVec 32 × KlogEntry)} {j dst e'},
        ((bufAddr + BitVec.ofNat 32 i * entryBytes, e) :: L)[j]? = some (dst, e') → j = 0 →
        dst = bufAddr + BitVec.ofNat 32 (i + j) * entryBytes ∧ (e :: rest)[j]? = some e' := by
      intro L j dst e' copy zero
      subst zero
      rcases copy_cons_cases copy with ⟨-, same⟩ | ⟨k, none, -⟩
      · cases same
        exact ⟨by rw [Nat.add_zero], List.getElem?_cons_zero⟩
      · cases none
    simp only [getklogCopy]
    by_cases ok : copyout (bufAddr + BitVec.ofNat 32 i * entryBytes) = true
    · rw [if_pos ok]
      refine ⟨fun j dst e' copy => ?_, fun allOk => ?_⟩
      · rcases copy_cons_cases copy with ⟨zero, -⟩ | ⟨k, rfl, copy'⟩
        · exact first copy zero
        · obtain ⟨addr, recd⟩ := later k dst e' copy'
          exact ⟨by rw [addr, Nat.add_right_comm, Nat.add_assoc], by
            rwa [List.getElem?_cons_succ]⟩
      · obtain ⟨allOk', length⟩ := complete fun c mem => allOk c (List.mem_cons_of_mem _ mem)
        exact ⟨allOk', by rw [List.length_cons, length, List.length_cons]⟩
    · rw [if_neg ok]
      refine ⟨fun j dst e' copy => ?_, fun allOk => absurd (allOk _ (List.mem_singleton_self _)) ok⟩
      rcases copy_cons_cases copy with ⟨zero, -⟩ | ⟨k, -, copy'⟩
      · exact first copy zero
      · cases copy'

/-- The loop of `sys_getklog` reports success exactly when every copy it made succeeded. -/
theorem getklogCopy_ok (copyout : BitVec 32 → Bool) (bufAddr : BitVec 32) :
    ∀ (recs : List KlogEntry) (i : Nat), (getklogCopy copyout bufAddr i recs).2 = true ↔
      ∀ c ∈ (getklogCopy copyout bufAddr i recs).1, copyout c.1 = true
  | [], _ => by simp [getklogCopy]
  | e :: rest, i => by
    simp only [getklogCopy]
    split
    · rename_i ok
      simp only [List.forall_mem_cons, ok, true_and, getklogCopy_ok copyout bufAddr rest (i + 1)]
    · rename_i failed
      simp only [List.forall_mem_singleton, failed, Bool.false_eq_true]

/-! ### What the readers return -/

/-- The bounds of a call of `sys_getklog` that passed its checks and got the page `kbuf`:
`1 ≤ max_entries ≤ 1024`; the bound does not wrap and is within `sz`; the budget is at most
`max_fit` and the snapshot stays inside the page; copy `i` carries snapshot record `i` to
`[buf_addr + 88 i, buf_addr + 88 (i + 1)) ⊆ [0, sz)` with `i < count ≤ min(max_entries, 46)`;
and when every copy succeeds the call returns `count`. -/
structure GetklogBounds (NCPU : Nat) (s : KlogState) (bufAddr maxEntries sz : BitVec 32)
    (kbuf : {page : List KlogEntry // page.length = maxFit}) (copyout : BitVec 32 → Bool) :
    Prop where
  entries : 1 ≤ maxEntries.toInt ∧ maxEntries.toInt ≤ 1024
  noWrap : bufAddr.toNat + maxEntries.toNat * klogEntrySize < 2 ^ 32
  inUser : bufAddr.toNat + maxEntries.toNat * klogEntrySize ≤ sz.toNat
  budget : (clampBudget maxEntries).toInt ≤ maxFit
  copies : ∃ count out, klogSnapshot NCPU s kbuf.1 (clampBudget maxEntries) = some (count, out) ∧
    count ≤ min maxEntries.toNat maxFit ∧
    ∃ copies ret, sysGetklog NCPU s ⟨some bufAddr, some maxEntries, sz, some kbuf⟩ copyout =
        some (copies, ret) ∧
      (∀ i dst e, copies[i]? = some (dst, e) →
        dst.toNat = bufAddr.toNat + i * klogEntrySize ∧ out[i]? = some e ∧ i < count ∧
          dst.toNat + klogEntrySize ≤ sz.toNat) ∧
      ((∀ c ∈ copies, copyout c.1 = true) → copies.length = count ∧ ret = BitVec.ofNat 32 count)

/-- A call of `sys_getklog` past its checks, with a page and one record valid, keeps to
`GetklogBounds`. -/
theorem sysGetklog_within (NCPU : Nat) (s : KlogState) (bufAddr maxEntries sz : BitVec 32)
    (kbuf : {page : List KlogEntry // page.length = maxFit}) (copyout : BitVec 32 → Bool)
    (passed : getklogArgsOk bufAddr maxEntries sz = true)
    (nonempty : 1 ≤ (walk s.cpuLogs (List.range NCPU)).length) :
    GetklogBounds NCPU s bufAddr maxEntries sz kbuf copyout := by
  obtain ⟨low, high, sign, -, bound⟩ := (getklogArgsOk_iff bufAddr maxEntries sz).mp passed
  have room := sz.isLt
  have entriesNat := toInt_eq_toNat_of_nonneg (show 0 ≤ maxEntries.toInt by omega)
  have budget := clampBudget_toInt maxEntries
  have fit : maxFit = 46 := rfl
  have pageLength := kbuf.2
  obtain ⟨out, snap, length⟩ := klogSnapshot_some NCPU s kbuf.1 (clampBudget maxEntries)
    (by omega) (by omega) nonempty
  obtain ⟨addrs, complete⟩ := getklogCopy_spec copyout bufAddr
    (out.take (min (walk s.cpuLogs (List.range NCPU)).length (clampBudget maxEntries).toInt.toNat)) 0
  refine ⟨⟨low, high⟩, by simp only [klogEntrySize] at bound ⊢; omega, bound, by omega, _, out,
    snap, by omega, _, _, by simp only [sysGetklog, passed, if_true, snap, Option.map_some']; rfl,
    fun i dst e copy => ?_, fun ok => ?_⟩
  · obtain ⟨addr, taken⟩ := addrs i dst e copy
    obtain ⟨inside, recd⟩ := getElem?_take_some taken
    have sum : bufAddr.toNat + i * klogEntrySize < 2 ^ 32 := by
      simp only [klogEntrySize] at bound ⊢
      omega
    have dstNat : dst.toNat = bufAddr.toNat + i * klogEntrySize := by
      rw [addr, BitVec.toNat_add, BitVec.toNat_mul, entryBytes, BitVec.toNat_ofNat,
        BitVec.toNat_ofNat, Nat.zero_add]
      simp only [klogEntrySize] at sum ⊢
      rw [Nat.mod_eq_of_lt (show i % 2 ^ 32 * (88 % 2 ^ 32) < 2 ^ 32 by omega)]
      omega
    refine ⟨dstNat, recd, inside, ?_⟩
    simp only [dstNat, klogEntrySize] at bound ⊢
    omega
  · obtain ⟨allOk, copied⟩ := complete ok
    refine ⟨?_, by simp only [allOk, if_true]⟩
    rw [copied, List.length_take, length, pageLength]
    omega

/-- Two calls of `klog_printf` on CPU 0 from boot. -/
def twoRecords : KlogState :=
  klogAppend (klogAppend staticState 0 0 0 (0, 0) fun _ => nul) 0 0 0 (0, 0) fun _ => nul

theorem twoRecords_reachable : ∃ a, Reachable 8 twoRecords a :=
  ⟨_, ((Reachable.boot 8).step (.append 0 0 (0, 0) (fun _ => nul) (show 0 < 8 by decide)
    (by decide))).step (.append 0 0 (0, 0) (fun _ => nul) (show 0 < 8 by decide) (by decide))⟩

theorem sysGetklog_within_two :
    getklogArgsOk 0 2 4096 = true ∧ 1 ≤ (walk twoRecords.cpuLogs (List.range 8)).length ∧
      GetklogBounds 8 twoRecords 0 2 4096 ⟨List.replicate maxFit KlogEntry.zero, by simp⟩
        (fun _ => true) :=
  ⟨by decide, by decide, sysGetklog_within 8 twoRecords 0 2 4096 _ _ (by decide) (by decide)⟩

/-- With the two records, `buf_addr = 0`, `max_entries = 2` and `sz = 4096`, the second copy
goes to address 88, one `sizeof(struct klog_entry)` on. -/
theorem sysGetklog_second_copy_at_88 :
    (∃ a, Reachable 8 twoRecords a) ∧
      (sysGetklog 8 twoRecords ⟨some 0, some 2, 4096,
          some ⟨List.replicate maxFit KlogEntry.zero, by simp⟩⟩ (fun _ => true)).map
        (fun r => (r.1.map Prod.fst, r.2)) = some ([0, 88], 2) :=
  ⟨twoRecords_reachable, by decide⟩

/-! ### `klogdev_read` on the kernel stack -/

/-- `klogdev_read` overflows the kernel stack on every call: its array `entries[64]` takes
5632 bytes and the stack is one 4096-byte page, so whatever the log, the length `n`, the user
buffer and the frames below it, the read writes past the stack before it copies a record. -/
theorem klogdevRead_overflows_stack (NCPU : Nat) (s : KlogState) (used : Nat)
    (entries : {l : List KlogEntry // l.length = 64}) (dst n : BitVec 32)
    (copyout : BitVec 32 → Bool) : klogdevRead NCPU s used entries dst n copyout = none := by
  have frame : kstackSize < klogdevReadFrame := by decide
  rw [klogdevRead, if_pos (by omega)]

/-! ### What a reader finds after `klog_init` -/

/-- `klog_init` on a valid CPU leaves exactly one valid record: on that CPU, with the next
sequence number and the message `klog: logging subsystem initialized`. -/
theorem klogInit_one_record (NCPU : Nat) (s : KlogState) (ctx : KlogCtx) (args : FmtArgs)
    (valid : 0 ≤ ctx.cpuId.toInt ∧ ctx.cpuId.toInt < NCPU) :
    ∃ s', klogInit NCPU s ctx args = some s' ∧ ∃ e, walk s'.cpuLogs (List.range NCPU) = [e] ∧
      e.seq = s.globalSeq ∧ e.cpu.toNat = ctx.cpuId.toInt.toNat ∧
      ∃ rest, e.msg = "klog: logging subsystem initialized".toList ++ nul :: rest := by
  have small := toInt_lt_two_pow ctx.cpuId
  obtain ⟨buf, formatted, terminated⟩ := klogFormat_render args initFmt ctx.stack rfl
  have rendered : (render args initFmt).take 63 = "klog: logging subsystem initialized".toList :=
    rfl
  rw [rendered] at terminated
  have cleared : ∀ d < NCPU, ((klogClear NCPU s).cpuLogs d).head = 0 :=
    fun d valid => klogClear_head NCPU s valid
  refine ⟨_, by rw [klogInit, klogPrintf, klogPrintfInternal, if_neg (by omega), formatted,
    Option.map_some'], appendEntry (klogClear NCPU s) ctx.cpuId.toInt.toNat klogInfo
      (ctx.curPid.getD 0) ctx.tsc buf, ?_, by rw [appendEntry_seq, klogClear_globalSeq], ?_, ?_⟩
  · rw [walk_single _ (show ctx.cpuId.toInt.toNat < NCPU by omega) fun d valid other => ?_]
    · have positions : validPositions ((0 : BitVec 32) + 1).toNat = [0] := rfl
      have first : slotOf (0 : BitVec 32).toNat = slotOf 0 := rfl
      rw [klogAppend_same, validRecords, cleared _ (by omega), positions, List.map_singleton, first]
      dsimp only
      rw [Function.update_same]
    · rw [klogAppend_ne _ _ _ _ _ _ other, validRecords, cleared d valid]
      rfl
  · rw [appendEntry_cpu, BitVec.toNat_ofNat, Nat.mod_eq_of_lt (by omega)]
  · exact ⟨_, msgCopy_of_prefix buf _ _ (by decide) (by decide) terminated⟩

theorem klogInit_one_record_boot :
    (0 ≤ (0 : BitVec 32).toInt ∧ (0 : BitVec 32).toInt < ((8 : Nat) : Int)) ∧
      ∃ s', klogInit 8 staticState ⟨0, none, (0, 0), fun _ => nul⟩
          ⟨fun _ => 0, fun _ => ⟨[], List.not_mem_nil nul⟩⟩ = some s' ∧
        ∃ e, walk s'.cpuLogs (List.range 8) = [e] ∧ e.seq = staticState.globalSeq ∧
          e.cpu.toNat = (0 : BitVec 32).toInt.toNat ∧
          ∃ rest, e.msg = "klog: logging subsystem initialized".toList ++ nul :: rest :=
  ⟨by decide, klogInit_one_record 8 staticState _ _ (by decide)⟩

end Klog
