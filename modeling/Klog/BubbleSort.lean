import Klog.Entry
import Mathlib.Data.List.Sort

set_option autoImplicit false

/- The bubble sort at the end of `klog_snapshot`. Its counters `i` and `j` are `uint` while
`count` is an `int`, so the bounds `count - 1` and `count - i - 1` are compared as unsigned.
Each bound stays fixed while its loop runs, so each loop runs exactly that many iterations;
a read outside the array is a fault. -/
namespace Klog

/-- One iteration of the inner loop: `if(buf[j].seq > buf[j+1].seq)` swap the two. -/
def bubbleStep (buf : List KlogEntry) (j : Nat) : Option (List KlogEntry) :=
  buf[j]?.bind fun x => buf[j + 1]?.map fun y =>
    if y.seq < x.seq then (buf.set j y).set (j + 1) x else buf

/-- `for(j = ...; j < bound; j++)` from `j`, with `fuel` iterations left. -/
def bubbleInner (buf : List KlogEntry) (j : Nat) : Nat → Option (List KlogEntry)
  | 0 => some buf
  | fuel + 1 => (bubbleStep buf j).bind fun buf => bubbleInner buf (j + 1) fuel

/-- `count - 1`, an `int`, as the unsigned bound of `i`. -/
def outerBound (count : Nat) : Nat :=
  (BitVec.ofInt 32 ((count : Int) - 1)).toNat

/-- `count - i - 1` in `uint` arithmetic. -/
def innerBound (count i : Nat) : Nat :=
  (BitVec.ofNat 32 count - BitVec.ofNat 32 i - 1).toNat

/-- `for(i = ...; i < count - 1; i++)` from `i`, with `fuel` iterations left. -/
def bubbleOuter (buf : List KlogEntry) (count i : Nat) : Nat → Option (List KlogEntry)
  | 0 => some buf
  | fuel + 1 =>
    (bubbleInner buf 0 (innerBound count i)).bind fun buf => bubbleOuter buf count (i + 1) fuel

/-- The sort phase of `klog_snapshot` on its first `count` records. -/
def bubbleSort (buf : List KlogEntry) (count : Nat) : Option (List KlogEntry) :=
  bubbleOuter buf count 0 (outerBound count)

theorem outerBound_eq {count : Nat} (positive : 1 ≤ count) (small : count < 2 ^ 32) :
    outerBound count = count - 1 := by
  rw [outerBound, BitVec.toNat_ofInt]
  omega

theorem innerBound_eq {count i : Nat} (before : i + 1 ≤ count) (small : count < 2 ^ 32) :
    innerBound count i = count - i - 1 := by
  have one : (1 : BitVec 32).toNat = 1 := rfl
  simp only [innerBound, BitVec.toNat_sub, BitVec.toNat_ofNat, one]
  rw [Nat.mod_eq_of_lt small, Nat.mod_eq_of_lt (show i < 2 ^ 32 by omega)]
  omega

/-- The records one inner pass leaves behind it, carrying the largest record seen so far. -/
def bubblePass (x : KlogEntry) : List KlogEntry → List KlogEntry
  | [] => [x]
  | y :: rest => if y.seq < x.seq then y :: bubblePass x rest else x :: bubblePass y rest

/-- The inner loop over the `rest.length` pairs after `pre` is one `bubblePass`. -/
theorem bubbleInner_pass (pre : List KlogEntry) (x : KlogEntry) (rest ys : List KlogEntry) :
    bubbleInner (pre ++ x :: rest ++ ys) pre.length rest.length =
      some (pre ++ bubblePass x rest ++ ys) := by
  induction rest generalizing pre x with
  | nil => simp only [bubbleInner, bubblePass, List.length_nil]
  | cons y rest ih =>
    have atX : (pre ++ x :: y :: rest ++ ys)[pre.length]? = some x := by
      simp only [List.append_assoc, List.cons_append, List.getElem?_append_right le_rfl,
        Nat.sub_self, List.getElem?_cons_zero]
    have atY : (pre ++ x :: y :: rest ++ ys)[pre.length + 1]? = some y := by
      simp only [List.append_assoc, List.cons_append,
        List.getElem?_append_right (Nat.le_add_right _ 1), Nat.add_sub_cancel_left,
        List.getElem?_cons_succ, List.getElem?_cons_zero]
    simp only [List.length_cons, bubbleInner, bubbleStep, atX, atY, Option.some_bind,
      Option.map_some', bubblePass]
    split
    · have swapped : ((pre ++ x :: y :: rest ++ ys).set pre.length y).set (pre.length + 1) x =
          (pre ++ [y]) ++ x :: rest ++ ys := by
        simp [List.set_append]
      have := ih (pre ++ [y]) x
      simp only [List.length_append, List.length_singleton] at this
      rw [swapped, this]
      simp
    · have := ih (pre ++ [x]) y
      simp only [List.length_append, List.length_singleton, List.append_assoc,
        List.singleton_append, List.cons_append] at this ⊢
      exact this

theorem bubblePass_perm (x : KlogEntry) (rest : List KlogEntry) :
    (bubblePass x rest).Perm (x :: rest) := by
  induction rest generalizing x with
  | nil => exact List.Perm.refl _
  | cons y rest ih =>
    simp only [bubblePass]
    split
    · exact ((ih x).cons y).trans (List.Perm.swap x y rest)
    · exact (ih y).cons x

/-- A pass ends with a record at least as large as every other. -/
theorem bubblePass_last (x : KlogEntry) (rest : List KlogEntry) :
    ∃ init m, bubblePass x rest = init ++ [m] ∧ x.seq ≤ m.seq ∧ ∀ e ∈ init, e.seq ≤ m.seq := by
  induction rest generalizing x with
  | nil => exact ⟨[], x, rfl, BitVec.le_refl _, fun _ absent => absurd absent (List.not_mem_nil _)⟩
  | cons y rest ih =>
    simp only [bubblePass]
    split
    · rename_i smaller
      obtain ⟨init, m, pass, carried, below⟩ := ih x
      refine ⟨y :: init, m, by rw [pass, List.cons_append], carried, ?_⟩
      rintro e (_ | ⟨_, mem⟩)
      · have := BitVec.lt_def.mp smaller
        have := BitVec.le_def.mp carried
        exact BitVec.le_def.mpr (by omega)
      · exact below e mem
    · rename_i larger
      obtain ⟨init, m, pass, carried, below⟩ := ih y
      have stepUp := BitVec.le_trans (BitVec.not_lt.mp larger) carried
      refine ⟨x :: init, m, by rw [pass, List.cons_append], stepUp, ?_⟩
      rintro e (_ | ⟨_, mem⟩)
      · exact stepUp
      · exact below e mem

/-- The outer loop from `i`: the unsorted prefix `xs` before the sorted suffix `sfx`, each
record of `xs` at most each record of `sfx`. -/
theorem bubbleOuter_sorts (ys : List KlogEntry) :
    ∀ (fuel i count : Nat) (xs sfx : List KlogEntry), count < 2 ^ 32 →
      xs.length = fuel + 1 → count = i + fuel + 1 → sfx.Sorted (fun e f => e.seq ≤ f.seq) →
      (∀ x ∈ xs, ∀ y ∈ sfx, x.seq ≤ y.seq) →
      ∃ out, bubbleOuter (xs ++ sfx ++ ys) count i fuel = some (out ++ ys) ∧
        out.Perm (xs ++ sfx) ∧ out.Sorted (fun e f => e.seq ≤ f.seq)
  | 0, _, _, xs, sfx, _, len, _, sorted, below => by
    obtain ⟨x, rfl⟩ := List.length_eq_one.mp len
    exact ⟨x :: sfx, rfl, List.Perm.refl _,
      List.sorted_cons.mpr ⟨below x (List.mem_singleton_self x), sorted⟩⟩
  | fuel + 1, i, count, xs, sfx, small, len, total, sorted, below => by
    obtain ⟨x, rest, rfl⟩ := List.exists_cons_of_length_eq_add_one len
    simp only [List.length_cons, Nat.add_right_cancel_iff] at len
    obtain ⟨init, m, pass, _, belowM⟩ := bubblePass_last x rest
    have passPerm := bubblePass_perm x rest
    have initLen : init.length = fuel + 1 := by
      have := passPerm.length_eq
      rw [pass, List.length_append, List.length_singleton, List.length_cons] at this
      omega
    have inner : bubbleInner (x :: rest ++ sfx ++ ys) 0 (innerBound count i) =
        some (init ++ m :: sfx ++ ys) := by
      rw [innerBound_eq (by omega) small, show count - i - 1 = rest.length by omega]
      simpa [pass] using bubbleInner_pass [] x rest (sfx ++ ys)
    have fromXs : ∀ e ∈ init ++ [m], e ∈ x :: rest := fun e mem => passPerm.subset (pass ▸ mem)
    obtain ⟨out, run, perm, sortedOut⟩ := bubbleOuter_sorts ys fuel (i + 1) count init (m :: sfx)
      small initLen (by omega)
      (List.sorted_cons.mpr ⟨below m (fromXs m (by simp)), sorted⟩)
      (fun e mem y memY => by
        rcases List.mem_cons.mp memY with rfl | inSfx
        · exact belowM e mem
        · exact below e (fromXs e (by simp [mem])) y inSfx)
    refine ⟨out, ?_, ?_, sortedOut⟩
    · simp only [bubbleOuter, inner, Option.some_bind]
      simpa using run
    · refine perm.trans ?_
      have regroup : init ++ m :: sfx = bubblePass x rest ++ sfx := by simp [pass]
      rw [regroup]
      exact passPerm.append_right sfx

/-- The sort phase on `count ≥ 1` records, `count` an `int`: it touches only those records,
stops, and leaves them a permutation of its input ordered by `seq`. -/
theorem bubbleSort_sorts (xs ys : List KlogEntry) (nonempty : 1 ≤ xs.length)
    (small : xs.length < 2 ^ 31) :
    ∃ out, bubbleSort (xs ++ ys) xs.length = some (out ++ ys) ∧ out.Perm xs ∧
      out.Sorted (fun e f => e.seq ≤ f.seq) := by
  obtain ⟨out, run, perm, sorted⟩ := bubbleOuter_sorts ys (xs.length - 1) 0 xs.length xs []
    (by omega) (by omega) (by omega) List.sorted_nil (fun _ _ _ absent => absurd absent (List.not_mem_nil _))
  refine ⟨out, ?_, by simpa using perm, sorted⟩
  rw [bubbleSort, outerBound_eq nonempty (by omega)]
  simpa using run

/-- Three records in the order of seqs 2, 0, 1, then a record past `count` the sort leaves. -/
theorem bubbleSort_sorts_unsorted :
    1 ≤ [{ KlogEntry.zero with seq := 2 }, { KlogEntry.zero with seq := 0 },
        { KlogEntry.zero with seq := 1 }].length ∧
      [{ KlogEntry.zero with seq := 2 }, { KlogEntry.zero with seq := 0 },
        { KlogEntry.zero with seq := 1 }].length < 2 ^ 31 ∧
      ∃ out, bubbleSort ([{ KlogEntry.zero with seq := 2 }, { KlogEntry.zero with seq := 0 },
          { KlogEntry.zero with seq := 1 }] ++ [{ KlogEntry.zero with seq := 7 }])
          [{ KlogEntry.zero with seq := 2 }, { KlogEntry.zero with seq := 0 },
            { KlogEntry.zero with seq := 1 }].length =
          some (out ++ [{ KlogEntry.zero with seq := 7 }]) ∧
        out.Perm [{ KlogEntry.zero with seq := 2 }, { KlogEntry.zero with seq := 0 },
          { KlogEntry.zero with seq := 1 }] ∧
        out.Sorted (fun e f => e.seq ≤ f.seq) :=
  ⟨by decide, by decide, bubbleSort_sorts _ _ (by decide) (by decide)⟩

theorem bubbleStep_length {buf buf' : List KlogEntry} {j : Nat}
    (stepped : bubbleStep buf j = some buf') : buf'.length = buf.length := by
  simp only [bubbleStep, Option.bind_eq_some, Option.map_eq_some'] at stepped
  obtain ⟨x, -, y, -, rfl⟩ := stepped
  split <;> simp

/-- An inner loop whose last pair reaches past the end of the array faults. -/
theorem bubbleInner_none (buf : List KlogEntry) (j fuel : Nat) (positive : 0 < fuel)
    (past : buf.length ≤ j + fuel) : bubbleInner buf j fuel = none := by
  induction fuel generalizing buf j with
  | zero => omega
  | succ fuel ih =>
    simp only [bubbleInner]
    cases stepped : bubbleStep buf j with
    | none => rfl
    | some buf' =>
      have inside : j + 1 < buf.length := by
        by_contra outside
        simp only [bubbleStep, List.getElem?_eq_none (by omega : buf.length ≤ j + 1),
          Option.map_none', Option.bind_none, Option.bind_eq_bind] at stepped
        cases (buf[j]?) <;> simp_all
      rw [Option.some_bind]
      exact ih buf' (j + 1) (by omega) (by rw [bubbleStep_length stepped]; omega)

/-- With `count = 0` both bounds are `0xFFFFFFFF` as unsigned, and the first pass reads past
the end of any array of fewer than 2^32 records. -/
theorem bubbleSort_zero (buf : List KlogEntry) (small : buf.length < 2 ^ 32) :
    bubbleSort buf 0 = none := by
  have outer : outerBound 0 = 4294967294 + 1 := by decide
  have inner : innerBound 0 0 = 4294967295 := by decide
  rw [bubbleSort, outer, bubbleOuter, inner, bubbleInner_none buf 0 _ (by decide) (by omega),
    Option.none_bind]

end Klog
