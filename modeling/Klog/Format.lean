import Klog.Entry

set_option autoImplicit false

/- The formatting half of `klog_printf_internal` and its helpers `snprintf_int` and
`snprintf_hex`. They write into the stack buffer `char buf[64]`, modelled as its bytes indexed
by offset; a store at offset 64 or more is a fault (`none`), which C leaves undefined. -/
namespace Klog

/-- `buf[k] = c` into `char buf[64]`. -/
def store (buf : Nat → Char) (k : Nat) (c : Char) : Option (Nat → Char) :=
  if k < 64 then some (Function.update buf k c) else none

/-- The stores `buf[k] = cs[0]`, `buf[k+1] = cs[1]`, ... in order. -/
def storeAll (buf : Nat → Char) (k : Nat) : List Char → Option (Nat → Char)
  | [] => some buf
  | c :: cs => (store buf k c).bind fun buf => storeAll buf (k + 1) cs

/-- The digit loop the two helpers share, `tmp[i++] = digit(val % base); val /= base;` while
`val > 0 && i < sizeof(tmp)`: least significant digit first, at most `room` digits. -/
def digitLoop (base : Nat) (digit : Nat → Char) (val : Nat) : Nat → List Char
  | 0 => []
  | room + 1 =>
    if 0 < val then digit (val % base) :: digitLoop base digit (val / base) room else []

/-- The loop of `snprintf_int`, `tmp[i++] = '0' + (val % 10); val /= 10;`. `val` is the `int`
as a natural number: the loop runs on no value that is not positive. -/
def decDigits (val room : Nat) : List Char :=
  digitLoop 10 (fun d => Char.ofNat (48 + d)) val room

/-- The end of both helpers: store `out` from `buf[0]`, then `buf[j] = 0; return j;`. -/
def storeTerminated (buf : Nat → Char) (base : Nat) (out : List Char) :
    Option ((Nat → Char) × Nat) :=
  (storeAll buf base out).bind fun buf =>
    (store buf (base + out.length) nul).map fun buf => (buf, out.length)

/-- What `snprintf_int` stores given room: the sign, then `tmp` from its last digit.

For `INT_MIN`, `val = -val` overflows a signed `int`, which C leaves undefined. This definition
fixes one reading of it, the two's complement wrap of the usual build: `val` stays `INT_MIN`,
the loop `while(val > 0 ...)` does not run, and the text is `-` alone, so the call returns 1.
Other builds may differ: a compiler may assume the negation does not overflow, drop the test
`val > 0` for the first iteration, and store digits computed from the wrapped value. -/
def intText (val : BitVec 32) : List Char :=
  let neg := decide (val.toInt < 0)
  -- `val = -val` is the two's complement negation, which keeps INT_MIN
  let v := if neg then -val else val
  let tmp := if v = 0 then ['0'] else decDigits v.toInt.toNat 16
  (if neg then ['-'] else []) ++ tmp.reverse

/-- `snprintf_int(buf + base, size, val)`: the buffer after its stores, and the count it
returns. Characters of `intText` are stored while `j < size-1`. -/
def snprintfInt (buf : Nat → Char) (base : Nat) (size : Int) (val : BitVec 32) :
    Option ((Nat → Char) × Nat) :=
  if size ≤ 0 then some (buf, 0)
  else storeTerminated buf base ((intText val).take (size - 1).toNat)

/-- `static char digits[] = "0123456789abcdef"`. -/
def hexTable : List Char := "0123456789abcdef".toList

/-- The loop of `snprintf_hex`, `tmp[i++] = digits[val & 0xf]; val >>= 4;`. -/
def hexDigits (val room : Nat) : List Char :=
  digitLoop 16 (fun d => hexTable.getD d nul) val room

/-- The digits `snprintf_hex` stores given room: `tmp` from its last digit. -/
def hexText (val : BitVec 32) : List Char :=
  (if val = 0 then ['0'] else hexDigits val.toNat 16).reverse

/-- `snprintf_hex(buf + base, size, val)`: `0x`, then `hexText` while `j < size-1`. -/
def snprintfHex (buf : Nat → Char) (base : Nat) (size : Int) (val : BitVec 32) :
    Option ((Nat → Char) × Nat) :=
  if size ≤ 2 then some (buf, 0)
  else storeTerminated buf base (['0', 'x'] ++ (hexText val).take (size - 3).toNat)

/-- The variadic arguments as `klog_printf_internal` reads them: the words `ap[0]`, `ap[1]`,
..., and the C string at each address that a `%s` word may hold. -/
structure FmtArgs where
  ap : Nat → BitVec 32
  strAt : BitVec 32 → CStr

/-- The string of `%s`: `s = (char*)*ap++; if(s == 0) s = "(null)";`. -/
def FmtArgs.str (args : FmtArgs) (k : Nat) : List Char :=
  if args.ap k = 0 then "(null)".toList else (args.strAt (args.ap k)).chars

/-- `for(; *s && i < sizeof(buf)-1; s++) buf[i++] = *s;` -/
def copyStr : List Char → Nat → (Nat → Char) → Option (Nat × (Nat → Char))
  | [], i, buf => some (i, buf)
  | c :: cs, i, buf =>
    if i < 63 then (store buf i c).bind fun buf => copyStr cs (i + 1) buf else some (i, buf)

/-- The `switch(*fmt)` after a `%`, at output index `i` and argument index `k`. -/
def fmtDirective (args : FmtArgs) (d : Char) (k i : Nat) (buf : Nat → Char) :
    Option (Nat × Nat × (Nat → Char)) :=
  match d with
  | 'd' => (snprintfInt buf i (64 - i) (args.ap k)).map fun r => (k + 1, i + r.2, r.1)
  | 'x' => (snprintfHex buf i (64 - i) (args.ap k)).map fun r => (k + 1, i + r.2, r.1)
  | 's' => (copyStr (args.str k) i buf).map fun r => (k + 1, r.1, r.2)
  | '%' => (store buf i '%').map fun buf => (k, i + 1, buf)
  | c => ((store buf i '%').bind fun buf => store buf (i + 1) c).map fun buf => (k, i + 2, buf)

/-- `for(; *fmt && i < sizeof(buf)-1; fmt++)`, from argument index `k` and output index `i`;
a `%` that ends the template ends the loop. Returns the final `i` and the buffer. -/
def fmtLoop (args : FmtArgs) : List Char → Nat → Nat → (Nat → Char) →
    Option (Nat × (Nat → Char))
  | [], _, i, buf => some (i, buf)
  | c :: rest, k, i, buf =>
    if i < 63 then
      if c = '%' then
        match rest with
        | [] => some (i, buf)
        | d :: rest =>
          (fmtDirective args d k i buf).bind fun r => fmtLoop args rest r.1 r.2.1 r.2.2
      else (store buf i c).bind fun buf => fmtLoop args rest k (i + 1) buf
    else some (i, buf)

/-- The formatting of `klog_printf_internal`: the loop from `i = 0`, then `buf[i] = 0`.
`stack` is what the buffer held before. -/
def klogFormat (args : FmtArgs) (fmt : CStr) (stack : Nat → Char) : Option (Nat → Char) :=
  (fmtLoop args fmt.chars 0 0 stack).bind fun r => store r.2 r.1 nul

/-- The copy into the entry: `for(i = 0; i < sizeof(entry->msg)-1 && buf[i]; i++)
entry->msg[i] = buf[i];` then `entry->msg[i] = 0`; later bytes of `old` stay. -/
def msgCopy (buf : Nat → Char) (old : List Char) : List Char :=
  let copied := ((List.range 63).map buf).takeWhile (· ≠ nul)
  copied ++ nul :: old.drop (copied.length + 1)

/-- `buf[0..n)` as a list. -/
def prefixOf (buf : Nat → Char) (n : Nat) : List Char :=
  (List.range n).map buf

@[simp] theorem prefixOf_zero (buf : Nat → Char) : prefixOf buf 0 = [] := rfl

@[simp] theorem prefixOf_length (buf : Nat → Char) (n : Nat) : (prefixOf buf n).length = n := by
  simp only [prefixOf, List.length_map, List.length_range]

theorem prefixOf_succ (buf : Nat → Char) (n : Nat) :
    prefixOf buf (n + 1) = prefixOf buf n ++ [buf n] := by
  simp only [prefixOf, List.range_succ, List.map_append, List.map_cons, List.map_nil]

theorem prefixOf_update_of_le (buf : Nat → Char) {k n : Nat} (c : Char) (before : n ≤ k) :
    prefixOf (Function.update buf k c) n = prefixOf buf n := by
  apply List.map_congr_left
  intro j inside
  rw [List.mem_range] at inside
  exact Function.update_noteq (show j ≠ k by omega) c buf

theorem prefixOf_update_self (buf : Nat → Char) (k : Nat) (c : Char) :
    prefixOf (Function.update buf k c) (k + 1) = prefixOf buf k ++ [c] := by
  rw [prefixOf_succ, prefixOf_update_of_le _ _ le_rfl, Function.update_same]

theorem store_of_lt (buf : Nat → Char) {k : Nat} (c : Char) (inside : k < 64) :
    store buf k c = some (Function.update buf k c) := if_pos inside

theorem store_of_le (buf : Nat → Char) {k : Nat} (c : Char) (outside : 64 ≤ k) :
    store buf k c = none := if_neg (by omega)

/-- A literal character met below index 63 is stored, and the loop goes on. -/
theorem fmtLoop_literal (args : FmtArgs) (c : Char) (rest : List Char) (k i : Nat)
    (buf : Nat → Char) (inside : i < 63) (literal : c ≠ '%') :
    fmtLoop args (c :: rest) k i buf =
      (store buf i c).bind fun buf => fmtLoop args rest k (i + 1) buf := by
  cases rest <;> simp only [fmtLoop, if_pos inside, if_neg literal]

/-- At output index 63 the loop stops, whatever is left of the template. -/
theorem fmtLoop_full (args : FmtArgs) (c : Char) (rest : List Char) (k i : Nat)
    (buf : Nat → Char) (full : ¬ i < 63) : fmtLoop args (c :: rest) k i buf = some (i, buf) := by
  cases rest <;> simp [fmtLoop, full]

/-- Stores that fit leave `buf[0..k)` and append `cs` to it. -/
theorem storeAll_prefix (buf : Nat → Char) (k : Nat) (cs : List Char)
    (fits : k + cs.length ≤ 64) :
    ∃ buf', storeAll buf k cs = some buf' ∧
      prefixOf buf' (k + cs.length) = prefixOf buf k ++ cs := by
  induction cs generalizing buf k with
  | nil => exact ⟨buf, rfl, by simp⟩
  | cons c cs ih =>
    simp only [List.length_cons] at fits
    obtain ⟨buf', stored, grown⟩ := ih (Function.update buf k c) (k + 1) (by omega)
    refine ⟨buf', by simp only [storeAll, store_of_lt buf c (by omega : k < 64),
      Option.some_bind, stored], ?_⟩
    rw [List.length_cons, show k + (cs.length + 1) = k + 1 + cs.length by omega, grown,
      prefixOf_update_self, List.append_assoc, List.singleton_append]

theorem prefixOf_of_succ {buf : Nat → Char} {n : Nat} {l : List Char} {c : Char}
    (grown : prefixOf buf (n + 1) = l ++ [c]) : prefixOf buf n = l := by
  rw [prefixOf_succ] at grown
  exact (List.append_inj' grown rfl).1

theorem storeTerminated_prefix (buf : Nat → Char) (base : Nat) (out : List Char)
    (fits : base + out.length < 64) :
    ∃ buf', storeTerminated buf base out = some (buf', out.length) ∧
      prefixOf buf' (base + out.length + 1) = prefixOf buf base ++ out ++ [nul] := by
  obtain ⟨buf', stored, grown⟩ := storeAll_prefix buf base out (by omega)
  refine ⟨Function.update buf' (base + out.length) nul, ?_, ?_⟩
  · simp only [storeTerminated, stored, Option.some_bind, store_of_lt _ _ fits, Option.map_some']
  · rw [prefixOf_update_self, grown]

/-- `snprintf_int` with `size` bytes of room at `base`: it stores the first `size - 1`
characters of `intText val`, terminated, and returns their number. -/
theorem snprintfInt_prefix (buf : Nat → Char) (base : Nat) (size : Int) (val : BitVec 32)
    (positive : 0 < size) (fits : base + size ≤ 64) :
    ∃ buf', snprintfInt buf base size val =
        some (buf', ((intText val).take (size - 1).toNat).length) ∧
      prefixOf buf' (base + ((intText val).take (size - 1).toNat).length + 1) =
        prefixOf buf base ++ (intText val).take (size - 1).toNat ++ [nul] := by
  have room : base + ((intText val).take (size - 1).toNat).length < 64 := by
    have := List.length_take_le (size - 1).toNat (intText val)
    omega
  simpa only [snprintfInt, show ¬ size ≤ 0 by omega, if_false] using
    storeTerminated_prefix buf base _ room

/-- `snprintf_hex` with more than two bytes of room at `base`: `0x` and the first
`size - 3` digits of `hexText val`, terminated. -/
theorem snprintfHex_prefix (buf : Nat → Char) (base : Nat) (size : Int) (val : BitVec 32)
    (roomy : 2 < size) (fits : base + size ≤ 64) :
    ∃ buf', snprintfHex buf base size val =
        some (buf', (['0', 'x'] ++ (hexText val).take (size - 3).toNat).length) ∧
      prefixOf buf' (base + (['0', 'x'] ++ (hexText val).take (size - 3).toNat).length + 1) =
        prefixOf buf base ++ (['0', 'x'] ++ (hexText val).take (size - 3).toNat) ++ [nul] := by
  have room : base + (['0', 'x'] ++ (hexText val).take (size - 3).toNat).length < 64 := by
    have := List.length_take_le (size - 3).toNat (hexText val)
    simp only [List.length_append, List.length_cons, List.length_nil]
    omega
  simpa only [snprintfHex, show ¬ size ≤ 2 by omega, if_false] using
    storeTerminated_prefix buf base _ room

/-- The `%s` copy stores the string up to the 63rd output character. -/
theorem copyStr_prefix (cs : List Char) (i : Nat) (buf : Nat → Char) (within : i ≤ 63) :
    ∃ buf', copyStr cs i buf = some (i + (cs.take (63 - i)).length, buf') ∧
      prefixOf buf' (i + (cs.take (63 - i)).length) = prefixOf buf i ++ cs.take (63 - i) := by
  induction cs generalizing i buf with
  | nil => exact ⟨buf, by simp [copyStr], by simp⟩
  | cons c cs ih =>
    by_cases full : i < 63
    · obtain ⟨buf', copied, grown⟩ := ih (i + 1) (Function.update buf i c) (by omega)
      have rest : 63 - i = 63 - (i + 1) + 1 := by omega
      refine ⟨buf', ?_, ?_⟩
      · rw [copyStr, if_pos full, store_of_lt buf c (by omega), Option.some_bind, copied, rest,
          List.take_succ_cons, List.length_cons]
        congr 2
        omega
      · rw [rest, List.take_succ_cons, List.length_cons,
          show i + ((cs.take (63 - (i + 1))).length + 1) =
            i + 1 + (cs.take (63 - (i + 1))).length by omega,
          grown, prefixOf_update_self, List.append_assoc, List.singleton_append]
    · have done : i = 63 := by omega
      subst done
      exact ⟨buf, by simp [copyStr], by simp⟩

theorem msgCopy_length (buf : Nat → Char) (old : List Char) (full : old.length = 64) :
    (msgCopy buf old).length = 64 := by
  have copied := (List.takeWhile_sublist (fun c => decide (c ≠ nul)) (l := (List.range 63).map buf)).length_le
  simp only [List.length_map, List.length_range] at copied
  simp only [msgCopy, List.length_append, List.length_cons, List.length_drop, full]
  omega

/-- An unknown directive met at output index 62 stores `%` and its character at 62 and 63: the
cursor ends at 64 and the terminator store `buf[64] = 0` is out of bounds. -/
theorem klogFormat_unknown_directive_at_62 (args : FmtArgs) (stack : Nat → Char) :
    (fmtLoop args (List.replicate 62 'a' ++ ['%', 'q']) 0 0 stack).map Prod.fst = some 64 ∧
      klogFormat args ⟨List.replicate 62 'a' ++ ['%', 'q'], by decide⟩ stack = none :=
  ⟨rfl, rfl⟩

end Klog
