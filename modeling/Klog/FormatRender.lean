import Klog.Append
import Mathlib.Tactic.IntervalCases
import Mathlib.Data.Nat.Digits

set_option autoImplicit false

/- What the formatter of `klog_printf_internal` is for: the template read as a list of items,
each rendered in full, and the message cut after 63 characters. The buffer-level loop of
`Klog.Format` is compared with it; it agrees except where an item slips (`Item.slips`). -/
namespace Klog

/-- One item of a template: a literal character or a directive. -/
inductive Item
  | lit (c : Char)
  | int
  | hex
  | str
  | percent
  | unknown (c : Char)
  deriving DecidableEq, Repr

/-- The item `%d` stands for, `d` the character after the `%`. -/
def directiveItem (d : Char) : Item :=
  match d with
  | 'd' => .int
  | 'x' => .hex
  | 's' => .str
  | '%' => .percent
  | c => .unknown c

/-- The template cut into items; a `%` that ends it is no item. -/
def items : List Char → List Item
  | [] => []
  | c :: rest =>
    if c = '%' then
      match rest with
      | [] => []
      | d :: rest => directiveItem d :: items rest
    else .lit c :: items rest

/-- The signed decimal numeral of an integer, most significant digit first. -/
def signedDecimal (v : Int) : List Char :=
  (if v < 0 then ['-'] else []) ++ Nat.toDigits 10 v.natAbs

/-- How many arguments an item reads. -/
def Item.uses : Item → Nat
  | .int | .hex | .str => 1
  | _ => 0

/-- The full text of an item whose argument, if it reads one, is argument `k`. -/
def Item.text (args : FmtArgs) (k : Nat) : Item → List Char
  | .lit c => [c]
  | .int => signedDecimal (args.ap k).toInt
  | .hex => '0' :: 'x' :: Nat.toDigits 16 (args.ap k).toNat
  | .str => args.str k
  | .percent => ['%']
  | .unknown c => ['%', c]

/-- The full rendering of a list of items whose first argument is argument `k`. -/
def renderFrom (args : FmtArgs) : List Item → Nat → List Char
  | [], _ => []
  | it :: its, k => it.text args k ++ renderFrom args its (k + it.uses)

/-- The full rendering `R` of a template. -/
def render (args : FmtArgs) (fmt : CStr) : List Char :=
  renderFrom args (items fmt.chars) 0

/-- `INT_MIN`, the one `int` whose negation does not fit. -/
def intMin : BitVec 32 := BitVec.ofInt 32 (-2147483648)

/-- An item that starts at output index `p` slips when the code's clipping of it is not the
cut of its full text: a `%x` with two bytes of room, a `%d` of `INT_MIN` with three or more,
or an unknown directive with two. -/
def Item.slips (args : FmtArgs) (k p : Nat) : Item → Bool
  | .int => args.ap k = intMin && p < 62
  | .hex => p = 62
  | .unknown _ => p = 62
  | _ => false

/-- No item that starts below output index 63 slips. -/
def slipFree (args : FmtArgs) : List Item → Nat → Nat → Bool
  | [], _, _ => true
  | it :: its, k, p =>
    63 ≤ p || (!it.slips args k p && slipFree args its (k + it.uses) (p + (it.text args k).length))

/-! ### The digit loops against the library's numerals -/

theorem digitChar_dec {d : Nat} (small : d < 10) : Nat.digitChar d = Char.ofNat (48 + d) := by
  interval_cases d <;> rfl

theorem digitChar_hex {d : Nat} (small : d < 16) : Nat.digitChar d = hexTable.getD d nul := by
  interval_cases d <;> rfl

@[simp] theorem digitLoop_zero (base : Nat) (digit : Nat → Char) (room : Nat) :
    digitLoop base digit 0 room = [] := by
  cases room <;> rfl

/-- The digit loop read from its last digit is `Nat.toDigitsCore`, when both have the room. -/
theorem digitLoop_reverse {base : Nat} {digit : Nat → Char} (big : 1 < base)
    (digits : ∀ d < base, digit d = Nat.digitChar d) :
    ∀ (room fuel n : Nat) (ds : List Char), 0 < n → n < base ^ room → n < base ^ fuel →
      (digitLoop base digit n room).reverse ++ ds = Nat.toDigitsCore base fuel n ds
  | 0, _, n, _, pos, fits, _ => by rw [Nat.pow_zero] at fits; omega
  | _ + 1, 0, n, _, pos, _, fits => by rw [Nat.pow_zero] at fits; omega
  | room + 1, fuel + 1, n, ds, pos, fitsRoom, fitsFuel => by
    rw [Nat.pow_succ] at fitsRoom fitsFuel
    simp only [digitLoop, if_pos pos, Nat.toDigitsCore, digits _ (Nat.mod_lt _ (by omega)),
      List.reverse_cons, List.append_assoc, List.singleton_append]
    by_cases last : n / base = 0
    · rw [if_pos last, last, digitLoop_zero, List.reverse_nil, List.nil_append]
    · rw [if_neg last]
      exact digitLoop_reverse big digits room fuel (n / base) _ (Nat.pos_of_ne_zero last)
        ((Nat.div_lt_iff_lt_mul (by omega)).mpr fitsRoom)
        ((Nat.div_lt_iff_lt_mul (by omega)).mpr fitsFuel)

theorem toDigits_eq_digitLoop {base : Nat} {digit : Nat → Char} (big : 1 < base)
    (digits : ∀ d < base, digit d = Nat.digitChar d) {n room : Nat} (pos : 0 < n)
    (fits : n < base ^ room) : Nat.toDigits base n = (digitLoop base digit n room).reverse := by
  have enough : n < base ^ (n + 1) :=
    lt_of_lt_of_le (Nat.lt_pow_self big n) (Nat.pow_le_pow_right (by omega) (Nat.le_succ n))
  rw [Nat.toDigits, ← digitLoop_reverse big digits room (n + 1) n [] pos fits enough,
    List.append_nil]

/-- The sign step of `snprintf_int` leaves the magnitude in `val`, except on `INT_MIN`. -/
theorem magnitude_toNat {val : BitVec 32} (notMin : val ≠ intMin) :
    (if val.toInt < 0 then -val else val).toInt.toNat = val.toInt.natAbs := by
  have bound := val.isLt
  have notHalf : val.toNat ≠ 2 ^ 31 := fun half => notMin (BitVec.eq_of_toNat_eq half)
  have negBound : (2 ^ 32 - val.toNat) % 2 ^ 32 < 2 ^ 32 := Nat.mod_lt _ (by decide)
  split <;> simp only [BitVec.toInt_eq_toNat_cond, BitVec.toNat_neg] at * <;> split_ifs at * <;>
    omega

/-- Away from `INT_MIN`, what `snprintf_int` stores given room is the signed decimal. -/
theorem intText_eq {val : BitVec 32} (notMin : val ≠ intMin) :
    intText val = signedDecimal val.toInt := by
  by_cases zero : val = 0
  · subst zero
    rfl
  have pos : 0 < val.toInt.natAbs := by
    have bound := val.isLt
    have nonzero : val.toNat ≠ 0 := fun none => zero (BitVec.eq_of_toNat_eq none)
    rw [BitVec.toInt_eq_toNat_cond]
    split <;> omega
  have vNonzero : (if val.toInt < 0 then -val else val) ≠ 0 := by
    split
    · exact fun negZero => zero (neg_eq_zero.mp negZero)
    · exact zero
  have small : val.toInt.natAbs < 10 ^ 16 := by
    have bound := val.isLt
    rw [BitVec.toInt_eq_toNat_cond]
    split <;> omega
  simp only [intText, signedDecimal, decide_eq_true_eq, if_neg vNonzero, magnitude_toNat notMin,
    decDigits, ← toDigits_eq_digitLoop (by decide) (fun d small => (digitChar_dec small).symm) pos
      small]

/-- What `snprintf_hex` stores given room is the hexadecimal numeral. -/
theorem hexText_eq (val : BitVec 32) : hexText val = Nat.toDigits 16 val.toNat := by
  by_cases zero : val = 0
  · subst zero
    rfl
  have pos : 0 < val.toNat := Nat.pos_of_ne_zero fun none => zero (BitVec.eq_of_toNat_eq none)
  rw [hexText, if_neg zero, hexDigits, toDigits_eq_digitLoop (by decide)
    (fun d small => (digitChar_hex small).symm) pos
    (lt_of_lt_of_le val.isLt (by decide : 2 ^ 32 ≤ 16 ^ 16))]

/-- With `size ≥ 3` bytes of room, `snprintf_hex` stores `0x`, the first `size - 3` digits of
the lowercase hexadecimal numeral and a NUL, and returns their number. -/
theorem snprintfHex_numeral (buf : Nat → Char) (base : Nat) (size : Int) (val : BitVec 32)
    (roomy : 2 < size) (fits : base + size ≤ 64) :
    ∃ buf', snprintfHex buf base size val =
        some (buf', (['0', 'x'] ++ (Nat.toDigits 16 val.toNat).take (size - 3).toNat).length) ∧
      prefixOf buf' (base + (['0', 'x'] ++ (Nat.toDigits 16 val.toNat).take (size - 3).toNat).length
          + 1) =
        prefixOf buf base ++ (['0', 'x'] ++ (Nat.toDigits 16 val.toNat).take (size - 3).toNat) ++
          [nul] := by
  simpa only [hexText_eq] using snprintfHex_prefix buf base size val roomy fits

theorem snprintfHex_numeral_deadbeef :
    (2 : Int) < 12 ∧ ((0 : Nat) : Int) + 12 ≤ 64 ∧
      ∃ buf', snprintfHex (fun _ => nul) 0 12 0xdeadbeef =
          some (buf', (['0', 'x'] ++ (Nat.toDigits 16 (0xdeadbeef : BitVec 32).toNat).take
            ((12 : Int) - 3).toNat).length) ∧
        prefixOf buf' (0 + (['0', 'x'] ++ (Nat.toDigits 16 (0xdeadbeef : BitVec 32).toNat).take
            ((12 : Int) - 3).toNat).length + 1) =
          prefixOf (fun _ => nul) 0 ++ (['0', 'x'] ++ (Nat.toDigits 16 (0xdeadbeef : BitVec 32).toNat).take
            ((12 : Int) - 3).toNat) ++ [nul] :=
  ⟨by decide, by decide, snprintfHex_numeral (fun _ => nul) 0 12 0xdeadbeef (by decide) (by decide)⟩

/-- Away from `INT_MIN`, `snprintf_int` with `size ≥ 1` bytes of room stores the first
`size - 1` characters of the signed decimal, then a NUL, and returns their number. -/
theorem snprintfInt_decimal (buf : Nat → Char) (base : Nat) (size : Int) (val : BitVec 32)
    (notMin : val ≠ intMin) (positive : 0 < size) (fits : base + size ≤ 64) :
    ∃ buf', snprintfInt buf base size val =
        some (buf', ((signedDecimal val.toInt).take (size - 1).toNat).length) ∧
      prefixOf buf' (base + ((signedDecimal val.toInt).take (size - 1).toNat).length + 1) =
        prefixOf buf base ++ (signedDecimal val.toInt).take (size - 1).toNat ++ [nul] := by
  simpa only [intText_eq notMin] using snprintfInt_prefix buf base size val positive fits

theorem snprintfInt_decimal_minus_seven :
    BitVec.ofInt 32 (-7) ≠ intMin ∧ (0 : Int) < 3 ∧ ((0 : Nat) : Int) + 3 ≤ 64 ∧
      ∃ buf', snprintfInt (fun _ => nul) 0 3 (BitVec.ofInt 32 (-7)) =
          some (buf', ((signedDecimal (BitVec.ofInt 32 (-7)).toInt).take ((3 : Int) - 1).toNat).length) ∧
        prefixOf buf' (0 + ((signedDecimal (BitVec.ofInt 32 (-7)).toInt).take
            ((3 : Int) - 1).toNat).length + 1) =
          prefixOf (fun _ => nul) 0 ++
            (signedDecimal (BitVec.ofInt 32 (-7)).toInt).take ((3 : Int) - 1).toNat ++ [nul] :=
  ⟨by decide, by decide, by decide,
    snprintfInt_decimal (fun _ => nul) 0 3 _ (by decide) (by decide) (by decide)⟩

/-- At `INT_MIN`, `val = -val` leaves `val` negative, the digit loop does not run, and only the
sign is stored and counted, where the signed decimal has eleven characters. -/
theorem snprintfInt_intMin (buf : Nat → Char) :
    (snprintfInt buf 0 12 intMin).map (fun r => (prefixOf r.1 (r.2 + 1), r.2)) =
        some (['-', nul], 1) ∧
      signedDecimal intMin.toInt = "-2147483648".toList :=
  ⟨rfl, by decide⟩

/-! ### One item at a time -/

theorem take_two_cons (a b : Char) (l : List Char) {n : Nat} (room : 2 ≤ n) :
    (a :: b :: l).take n = a :: b :: l.take (n - 2) := by
  obtain ⟨m, rfl⟩ : ∃ m, n = m + 2 := ⟨n - 2, by omega⟩
  rfl

/-- A directive met at output index `p < 63` that does not slip stores the first `63 - p`
characters of its full text and moves past them. -/
theorem fmtDirective_text (args : FmtArgs) (d : Char) (k p : Nat) (buf : Nat → Char)
    (inside : p < 63) (steady : (directiveItem d).slips args k p = false) :
    ∃ buf', fmtDirective args d k p buf =
        some (k + (directiveItem d).uses,
          p + (((directiveItem d).text args k).take (63 - p)).length, buf') ∧
      prefixOf buf' (p + (((directiveItem d).text args k).take (63 - p)).length) =
        prefixOf buf p ++ ((directiveItem d).text args k).take (63 - p) := by
  have room : ((64 : Int) - p - 1).toNat = 63 - p := by omega
  by_cases isInt : d = 'd'
  · subst isInt
    have clipped : (intText (args.ap k)).take (63 - p) =
        (signedDecimal (args.ap k).toInt).take (63 - p) := by
      by_cases isMin : args.ap k = intMin
      · have last : p = 62 := by simp [directiveItem, Item.slips, isMin] at steady; omega
        rw [isMin, last]
        rfl
      · rw [intText_eq isMin]
    obtain ⟨buf', ran, grown⟩ := snprintfInt_prefix buf p (64 - p) (args.ap k) (by omega)
      (by omega)
    rw [room, clipped] at ran grown
    exact ⟨buf', by simp only [fmtDirective, ran, Option.map_some']; rfl, prefixOf_of_succ grown⟩
  by_cases isHex : d = 'x'
  · subst isHex
    have roomy : p < 62 := by simp [directiveItem, Item.slips] at steady; omega
    obtain ⟨buf', ran, grown⟩ := snprintfHex_prefix buf p (64 - p) (args.ap k) (by omega)
      (by omega)
    have clipped : ['0', 'x'] ++ (hexText (args.ap k)).take ((64 : Int) - p - 3).toNat =
        ('0' :: 'x' :: Nat.toDigits 16 (args.ap k).toNat).take (63 - p) := by
      rw [take_two_cons _ _ _ (by omega), hexText_eq, show ((64 : Int) - p - 3).toNat =
        63 - p - 2 by omega]
      rfl
    rw [clipped] at ran grown
    exact ⟨buf', by simp only [fmtDirective, ran, Option.map_some']; rfl, prefixOf_of_succ grown⟩
  by_cases isStr : d = 's'
  · subst isStr
    obtain ⟨buf', copied, grown⟩ := copyStr_prefix (args.str k) p buf (by omega)
    exact ⟨buf', by simp only [fmtDirective, copied, Option.map_some']; rfl, grown⟩
  have stored : (['%'] : List Char).take (63 - p) = ['%'] := List.take_of_length_le (by simp; omega)
  by_cases isPercent : d = '%'
  · subst isPercent
    refine ⟨Function.update buf p '%', ?_, ?_⟩ <;>
      simp only [fmtDirective, directiveItem, Item.text, Item.uses, stored, store_of_lt buf _
        (by omega : p < 64), Option.map_some', List.length_singleton, prefixOf_update_self,
        Nat.add_zero]
  have other : directiveItem d = .unknown d := by
    simp only [directiveItem, isInt, isHex, isStr, isPercent]
  rw [other] at steady ⊢
  have roomy : p < 62 := by simp [Item.slips] at steady; omega
  have both : (['%', d] : List Char).take (63 - p) = ['%', d] := List.take_of_length_le (by simp; omega)
  refine ⟨Function.update (Function.update buf p '%') (p + 1) d, ?_, ?_⟩
  · rw [fmtDirective.eq_5 args d k p buf isInt isHex isStr isPercent, store_of_lt buf _ (by omega),
      Option.some_bind, store_of_lt _ _ (by omega), Option.map_some']
    simp only [Item.uses, Item.text, both, List.length_cons, List.length_nil]
    rfl
  · rw [Item.text, both, List.length_cons, List.length_singleton, ← Nat.add_assoc,
      prefixOf_update_self, prefixOf_update_self, List.append_assoc]
    rfl

theorem slipFree_of_ge (args : FmtArgs) (its : List Item) (k : Nat) {p : Nat} (full : 63 ≤ p) :
    slipFree args its k p = true := by
  cases its <;> simp [slipFree, full]

/-- Past an item that does not slip, the rest is free of slips from where the code goes on. -/
theorem slipFree_cons {args : FmtArgs} {it : Item} {its : List Item} {k p : Nat}
    (inside : p < 63) (clean : slipFree args (it :: its) k p = true) :
    it.slips args k p = false ∧
      slipFree args its (k + it.uses) (p + ((it.text args k).take (63 - p)).length) = true := by
  simp only [slipFree, Bool.or_eq_true, decide_eq_true_eq, Bool.and_eq_true,
    Bool.not_eq_true'] at clean
  rcases clean with full | ⟨steady, rest⟩
  · omega
  refine ⟨steady, ?_⟩
  rw [List.length_take]
  by_cases fits : (it.text args k).length ≤ 63 - p
  · rwa [Nat.min_eq_right fits]
  · exact slipFree_of_ge args its _ (by omega)

/-- Cutting `t ++ R` at `63 - p` cuts `t`, then `R` at what is left. -/
theorem take_append_room (t R : List Char) (p : Nat) :
    (t ++ R).take (63 - p) = t.take (63 - p) ++ R.take (63 - (p + (t.take (63 - p)).length)) := by
  rw [List.take_append_eq_append_take, List.length_take]
  congr 2
  omega

/-! ### The loop against the rendering -/

theorem items_literal {c : Char} (rest : List Char) (literal : c ≠ '%') :
    items (c :: rest) = .lit c :: items rest := by
  cases rest <;> simp only [items, if_neg literal]

/-- A run of literal characters that fits is stored as it stands. -/
theorem fmtLoop_literals (args : FmtArgs) (rest : List Char) (k : Nat) :
    ∀ (lits : List Char) (p : Nat) (buf : Nat → Char), '%' ∉ lits → p + lits.length ≤ 63 →
      ∃ buf', fmtLoop args (lits ++ rest) k p buf = fmtLoop args rest k (p + lits.length) buf' ∧
        prefixOf buf' (p + lits.length) = prefixOf buf p ++ lits
  | [], p, buf, _, _ => ⟨buf, rfl, by simp⟩
  | c :: cs, p, buf, literal, fits => by
    rw [List.mem_cons, not_or] at literal
    rw [List.length_cons] at fits
    obtain ⟨buf', run, grown⟩ :=
      fmtLoop_literals args rest k cs (p + 1) (Function.update buf p c) literal.2 (by omega)
    have shift : p + (cs.length + 1) = p + 1 + cs.length := by omega
    refine ⟨buf', ?_, ?_⟩
    · rw [List.cons_append, fmtLoop_literal args c _ k p buf (by omega) (Ne.symm literal.1),
        store_of_lt buf c (by omega), Option.some_bind, run, List.length_cons, shift]
    · rw [List.length_cons, shift, grown, prefixOf_update_self, List.append_assoc,
        List.singleton_append]

/-- The formatting loop, from output index `p ≤ 63` and argument `k`, with no slip ahead:
it stores the first `63 - p` characters of the rendering of what is left of the template. -/
theorem fmtLoop_render (args : FmtArgs) (cs : List Char) (k p : Nat) (buf : Nat → Char)
    (within : p ≤ 63) (clean : slipFree args (items cs) k p = true) :
    ∃ buf', fmtLoop args cs k p buf =
        some (p + ((renderFrom args (items cs) k).take (63 - p)).length, buf') ∧
      prefixOf buf' (p + ((renderFrom args (items cs) k).take (63 - p)).length) =
        prefixOf buf p ++ (renderFrom args (items cs) k).take (63 - p) := by
  induction cs, k, p, buf using fmtLoop.induct args with
  | case1 k p buf => exact ⟨buf, by simp [fmtLoop, items, renderFrom]⟩
  | case2 k p buf _ => exact ⟨buf, by simp [fmtLoop, items, renderFrom]⟩
  | case3 k p buf inside d rest ih =>
    have itemsEq : items ('%' :: d :: rest) = directiveItem d :: items rest := by simp [items]
    rw [itemsEq] at clean ⊢
    obtain ⟨steady, clean'⟩ := slipFree_cons inside clean
    obtain ⟨buf1, ran, grown1⟩ := fmtDirective_text args d k p buf inside steady
    set w := ((directiveItem d).text args k).take (63 - p)
    obtain ⟨buf2, loop, grown2⟩ := ih (k + (directiveItem d).uses, p + w.length, buf1)
      (by simp only [w, List.length_take]; omega) clean'
    refine ⟨buf2, ?_, ?_⟩
    · rw [fmtLoop, if_pos inside, if_pos rfl]
      simp only [ran, Option.some_bind, loop, renderFrom, take_append_room, List.length_append,
        Nat.add_assoc]
    · rw [renderFrom, take_append_room, List.length_append, ← Nat.add_assoc, grown2, grown1,
        List.append_assoc]
  | case4 c rest k p buf inside literal ih =>
    rw [items_literal rest literal] at clean ⊢
    obtain ⟨-, clean'⟩ := slipFree_cons inside clean
    have one : ([c] : List Char).take (63 - p) = [c] := List.take_of_length_le (by simp; omega)
    simp only [Item.text, Item.uses, one, List.length_singleton, Nat.add_zero] at clean'
    obtain ⟨buf2, loop, grown2⟩ := ih (Function.update buf p c) (by omega) clean'
    refine ⟨buf2, ?_, ?_⟩
    · rw [fmtLoop_literal args c rest k p buf inside literal, store_of_lt buf c (by omega),
        Option.some_bind, loop]
      simp only [renderFrom, Item.text, Item.uses, take_append_room, one, List.length_append,
        List.length_singleton, Nat.add_zero, Nat.add_assoc]
    · simp only [renderFrom, take_append_room, Item.text, one, Item.uses, Nat.add_zero,
        List.length_append, List.length_singleton]
      rw [← Nat.add_assoc, grown2, prefixOf_update_self, List.append_assoc, List.singleton_append]
  | case5 c rest k p buf full =>
    have done : p = 63 := by omega
    subst done
    exact ⟨buf, by cases rest <;> simp [fmtLoop], by simp⟩

/-! ### What the message holds -/

theorem digitChar_ne_nul {d : Nat} (small : d < 16) : Nat.digitChar d ≠ nul := by
  interval_cases d <;> decide

theorem toDigitsCore_nul {base : Nat} (pos : 0 < base) (small : base ≤ 16) :
    ∀ (fuel n : Nat) (ds : List Char), nul ∉ ds → nul ∉ Nat.toDigitsCore base fuel n ds
  | 0, _, _, clean => clean
  | fuel + 1, n, ds, clean => by
    have digit : nul ∉ Nat.digitChar (n % base) :: ds := fun mem => by
      rcases List.mem_cons.mp mem with same | inDs
      · exact digitChar_ne_nul (by have := Nat.mod_lt n pos; omega) same.symm
      · exact clean inDs
    simp only [Nat.toDigitsCore]
    split
    · exact digit
    · exact toDigitsCore_nul pos small fuel _ _ digit

theorem toDigits_nul {base : Nat} (pos : 0 < base) (small : base ≤ 16) (n : Nat) :
    nul ∉ Nat.toDigits base n :=
  toDigitsCore_nul pos small _ n [] (List.not_mem_nil nul)

theorem text_nul (args : FmtArgs) (k : Nat) (it : Item)
    (clean : ∀ c, it = .lit c ∨ it = .unknown c → c ≠ nul) : nul ∉ it.text args k := by
  cases it with
  | lit c =>
    simp only [Item.text, List.mem_singleton]
    exact fun same => clean c (.inl rfl) same.symm
  | int =>
    simp only [Item.text, signedDecimal, List.mem_append, not_or]
    exact ⟨by split <;> decide, toDigits_nul (by decide) (by decide) _⟩
  | hex =>
    simp only [Item.text, List.mem_cons, not_or]
    exact ⟨by decide, by decide, toDigits_nul (by decide) (by decide) _⟩
  | str =>
    simp only [Item.text, FmtArgs.str]
    split
    · decide
    · exact (args.strAt _).nul_not_mem
  | percent =>
    simp only [Item.text]
    decide
  | unknown c =>
    simp only [Item.text, List.mem_cons, List.not_mem_nil, or_false, not_or]
    exact ⟨by decide, fun same => clean c (.inr rfl) same.symm⟩

/-- The rendering of a template holds no NUL. -/
theorem renderFrom_nul (args : FmtArgs) (cs : List Char) (clean : nul ∉ cs) (k : Nat) :
    nul ∉ renderFrom args (items cs) k := by
  induction cs using items.induct generalizing k with
  | case1 => simp [items, renderFrom]
  | case2 => simp [items, renderFrom]
  | case3 d rest ih =>
    have known : ∀ e, directiveItem d = .lit e ∨ directiveItem d = .unknown e → e ≠ nul := by
      intro e known same
      refine clean (List.mem_cons_of_mem _ ?_)
      unfold directiveItem at known
      split at known <;> simp_all
    simp only [items, if_true, renderFrom, List.mem_append, not_or]
    exact ⟨text_nul args k _ known, ih (fun mem => clean (by simp [mem])) _⟩
  | case4 c rest literal ih =>
    rw [items_literal rest literal, renderFrom, List.mem_append, not_or]
    refine ⟨text_nul args k _ fun e known same => clean ?_, ih (fun mem => clean (by simp [mem])) _⟩
    simp only [reduceCtorEq, or_false, Item.lit.injEq] at known
    simp [known, same]

/-- The copy into the entry takes a terminated, NUL-free text of at most 63 characters. -/
theorem msgCopy_of_prefix (buf : Nat → Char) (old w : List Char) (short : w.length ≤ 63)
    (noNul : nul ∉ w) (terminated : prefixOf buf (w.length + 1) = w ++ [nul]) :
    msgCopy buf old = w ++ nul :: old.drop (w.length + 1) := by
  rw [prefixOf_succ] at terminated
  obtain ⟨written, ends⟩ := List.append_inj' terminated rfl
  have cut : (List.range 63).map buf =
      w ++ (List.range (63 - w.length)).map fun j => buf (w.length + j) := by
    have split : 63 = w.length + (63 - w.length) := by omega
    rw [split, List.range_add, List.map_append, List.map_map, Nat.add_sub_cancel_left]
    exact congrArg₂ (· ++ ·) written rfl
  have copied : ((List.range 63).map buf).takeWhile (· ≠ nul) = w := by
    rw [cut, List.takeWhile_append_of_pos fun c (mem : c ∈ w) =>
      show decide (c ≠ nul) = true from decide_eq_true fun same => noNul (same ▸ mem)]
    cases rest : 63 - w.length with
    | zero => simp
    | succ n => simp [List.range_succ_eq_map, List.singleton_inj.mp ends]
  simp only [msgCopy, copied]

/-- With no slip, the formatting ends with the first 63 characters of the rendering in
`buf`, terminated. -/
theorem klogFormat_render (args : FmtArgs) (fmt : CStr) (stack : Nat → Char)
    (steady : slipFree args (items fmt.chars) 0 0 = true) :
    ∃ buf, klogFormat args fmt stack = some buf ∧
      prefixOf buf ((render args fmt).take 63).length.succ = (render args fmt).take 63 ++ [nul] := by
  obtain ⟨buf, loop, grown⟩ := fmtLoop_render args fmt.chars 0 0 stack (by omega) steady
  simp only [Nat.zero_add, Nat.sub_zero, prefixOf_zero, List.nil_append] at loop grown
  have short := List.length_take_le 63 (renderFrom args (items fmt.chars) 0)
  refine ⟨_, by rw [klogFormat, loop, Option.some_bind, store_of_lt _ _ (by omega)], ?_⟩
  rw [render, prefixOf_update_self, grown]

/-- With no slip, a call of `klog_printf_internal` on a valid CPU stores in the entry it fills
the first 63 characters of the full rendering, then a NUL. -/
theorem klogPrintfInternal_stores_render (NCPU : Nat) (s : KlogState) (ctx : KlogCtx)
    (level : BitVec 32) (fmt : CStr) (args : FmtArgs)
    (valid : 0 ≤ ctx.cpuId.toInt ∧ ctx.cpuId.toInt < NCPU)
    (steady : slipFree args (items fmt.chars) 0 0 = true) :
    ∃ s', klogPrintfInternal NCPU s ctx level fmt args = some s' ∧
      ∃ rest, ((s'.cpuLogs ctx.cpuId.toInt.toNat).entries
          (slotOf (s.cpuLogs ctx.cpuId.toInt.toNat).head.toNat)).msg =
        (render args fmt).take 63 ++ nul :: rest := by
  obtain ⟨buf, formatted, terminated⟩ := klogFormat_render args fmt ctx.stack steady
  refine ⟨_, by rw [klogPrintfInternal, if_neg (by omega), formatted, Option.map_some'], ?_⟩
  rw [klogAppend_same]
  simp only [Function.update_same, appendEntry]
  exact ⟨_, msgCopy_of_prefix buf _ _ (List.length_take_le _ _)
    (fun mem => renderFrom_nul args fmt.chars fmt.nul_not_mem 0 (List.mem_of_mem_take mem))
    terminated⟩

/-- `%d`, `%x` and `%s` in one template; the 60 characters of the `%s` start at output index
24, so the cut at 63 falls inside them. -/
theorem klogPrintfInternal_stores_render_mixed :
    (0 ≤ (1 : BitVec 32).toInt ∧ (1 : BitVec 32).toInt < ((2 : Nat) : Int)) ∧
      slipFree ⟨fun k => [42, 0xbeef, 0x1000].getD k 0, fun _ => ⟨List.replicate 60 'z', by decide⟩⟩
        (items "pid %d mask %x file %s".toList) 0 0 = true ∧
      ∃ s', klogPrintfInternal 2 staticState ⟨1, some 5, (0, 0), fun _ => nul⟩ 1
          ⟨"pid %d mask %x file %s".toList, by decide⟩
          ⟨fun k => [42, 0xbeef, 0x1000].getD k 0, fun _ => ⟨List.replicate 60 'z', by decide⟩⟩ =
          some s' ∧
        ∃ rest, ((s'.cpuLogs (1 : BitVec 32).toInt.toNat).entries
            (slotOf (staticState.cpuLogs (1 : BitVec 32).toInt.toNat).head.toNat)).msg =
          (render ⟨fun k => [42, 0xbeef, 0x1000].getD k 0,
            fun _ => ⟨List.replicate 60 'z', by decide⟩⟩
            ⟨"pid %d mask %x file %s".toList, by decide⟩).take 63 ++ nul :: rest :=
  ⟨by decide, by decide,
    klogPrintfInternal_stores_render 2 staticState _ 1 _ _ (by decide) (by decide)⟩

/-- A `%x` met at output index 62 has two bytes of room and stores nothing; the template's next
character is stored at index 62 instead of the `0` that begins the rendering of the `%x`. -/
theorem klogFormat_hex_at_62 (args : FmtArgs) (stack : Nat → Char) (old : List Char) :
    (klogFormat args ⟨List.replicate 62 'a' ++ ['%', 'x', 'b'], by decide⟩ stack).map
        (fun buf => msgCopy buf old) =
      some (List.replicate 62 'a' ++ 'b' :: nul :: old.drop 64) ∧
    (render args ⟨List.replicate 62 'a' ++ ['%', 'x', 'b'], by decide⟩).take 63 =
      List.replicate 62 'a' ++ ['0'] := by
  refine ⟨?_, rfl⟩
  obtain ⟨buf, run, grown⟩ := fmtLoop_literals args ['%', 'x', 'b'] 0 (List.replicate 62 'a') 0
    stack (by simp) (by simp)
  simp only [Nat.zero_add, List.length_replicate, prefixOf_zero, List.nil_append] at run grown
  have hexed : fmtLoop args ['%', 'x', 'b'] 0 62 buf = some (63, Function.update buf 62 'b') := rfl
  have written : prefixOf (Function.update (Function.update buf 62 'b') 63 nul)
      ((List.replicate 62 'a' ++ ['b']).length + 1) = List.replicate 62 'a' ++ ['b'] ++ [nul] := by
    rw [show (List.replicate 62 'a' ++ ['b']).length + 1 = 62 + 1 + 1 from rfl, prefixOf_update_self,
      prefixOf_update_self, grown]
  rw [klogFormat, run, hexed, Option.some_bind, store_of_lt _ _ (by decide : 63 < 64),
    Option.map_some', msgCopy_of_prefix _ old _ (by simp) (by simp [eq_comm]; decide) written]
  simp

/-! ### Which templates can fault -/

/-- A directive the `switch` of `klog_printf_internal` has a case for, or a literal. -/
def Item.known : Item → Bool
  | .unknown _ => false
  | _ => true

/-- A directive the switch has a case for, met below output index 63, returns and leaves the
output index at 63 at most. -/
theorem fmtDirective_within (args : FmtArgs) (d : Char) (k p : Nat) (buf : Nat → Char)
    (inside : p < 63) (known : (directiveItem d).known = true) :
    ∃ k' p' buf', fmtDirective args d k p buf = some (k', p', buf') ∧ p' ≤ 63 := by
  by_cases isInt : d = 'd'
  · subst isInt
    obtain ⟨buf', ran, -⟩ := snprintfInt_prefix buf p (64 - p) (args.ap k) (by omega) (by omega)
    have short := List.length_take_le ((64 : Int) - p - 1).toNat (intText (args.ap k))
    exact ⟨_, _, buf', (by simp only [fmtDirective, ran, Option.map_some']; rfl), by omega⟩
  by_cases isHex : d = 'x'
  · subst isHex
    by_cases last : p = 62
    · subst last
      exact ⟨_, _, buf, (by simp only [fmtDirective, snprintfHex]; rfl), by omega⟩
    obtain ⟨buf', ran, -⟩ := snprintfHex_prefix buf p (64 - p) (args.ap k) (by omega) (by omega)
    have short := List.length_take_le ((64 : Int) - p - 3).toNat (hexText (args.ap k))
    refine ⟨_, _, buf', (by simp only [fmtDirective, ran, Option.map_some']; rfl), ?_⟩
    simp only [List.length_append, List.length_cons, List.length_nil] at short ⊢
    omega
  by_cases isStr : d = 's'
  · subst isStr
    obtain ⟨buf', copied, -⟩ := copyStr_prefix (args.str k) p buf (by omega)
    have short := List.length_take_le (63 - p) (args.str k)
    exact ⟨_, _, buf', (by simp only [fmtDirective, copied, Option.map_some']; rfl), by omega⟩
  by_cases isPercent : d = '%'
  · subst isPercent
    exact ⟨_, _, _, (by simp only [fmtDirective, store_of_lt buf _ (by omega : p < 64),
      Option.map_some']; rfl), by omega⟩
  simp only [directiveItem, isInt, isHex, isStr, isPercent, Item.known] at known
  exact absurd known Bool.false_ne_true

/-- With every directive known, the formatting loop from an output index of 63 at most returns
and leaves the index at 63 at most. -/
theorem fmtLoop_within (args : FmtArgs) (cs : List Char) (k p : Nat) (buf : Nat → Char)
    (within : p ≤ 63) (known : ∀ it ∈ items cs, it.known = true) :
    ∃ p' buf', fmtLoop args cs k p buf = some (p', buf') ∧ p' ≤ 63 := by
  induction cs, k, p, buf using fmtLoop.induct args with
  | case1 k p buf => exact ⟨p, buf, by simp [fmtLoop], within⟩
  | case2 k p buf inside => exact ⟨p, buf, by simp [fmtLoop, inside], within⟩
  | case3 k p buf inside d rest ih =>
    have itemsEq : items ('%' :: d :: rest) = directiveItem d :: items rest := by simp [items]
    rw [itemsEq] at known
    obtain ⟨k', p', buf', ran, bound⟩ :=
      fmtDirective_within args d k p buf inside (known _ (List.mem_cons_self _ _))
    obtain ⟨p'', buf'', loop, bound'⟩ :=
      ih (k', p', buf') bound fun it mem => known it (List.mem_cons_of_mem _ mem)
    refine ⟨p'', buf'', ?_, bound'⟩
    rw [fmtLoop, if_pos inside, if_pos rfl]
    simp only [ran, Option.some_bind, loop]
  | case4 c rest k p buf inside literal ih =>
    rw [items_literal rest literal] at known
    obtain ⟨p', buf', loop, bound⟩ :=
      ih (Function.update buf p c) (by omega) fun it mem => known it (List.mem_cons_of_mem _ mem)
    exact ⟨p', buf', by rw [fmtLoop_literal args c rest k p buf inside literal,
      store_of_lt buf c (by omega), Option.some_bind, loop], bound⟩
  | case5 c rest k p buf full => exact ⟨p, buf, fmtLoop_full args c rest k p buf full, within⟩

/-- With every directive of the template among `%d`, `%x`, `%s` and `%%`, the formatter
returns. -/
theorem klogFormat_known (args : FmtArgs) (fmt : CStr) (stack : Nat → Char)
    (known : ∀ it ∈ items fmt.chars, it.known = true) :
    ∃ buf, klogFormat args fmt stack = some buf := by
  obtain ⟨p, buf, loop, bound⟩ := fmtLoop_within args fmt.chars 0 0 stack (by omega) known
  exact ⟨_, by rw [klogFormat, loop, Option.some_bind, store_of_lt _ _ (by omega)]⟩

/-- `klog_printf_internal` faults only where its formatter does. -/
theorem klogPrintfInternal_some_of_format {NCPU : Nat} {s : KlogState} {ctx : KlogCtx}
    {level : BitVec 32} {fmt : CStr} {args : FmtArgs} {buf : Nat → Char}
    (formatted : klogFormat args fmt ctx.stack = some buf) :
    ∃ s', klogPrintfInternal NCPU s ctx level fmt args = some s' := by
  unfold klogPrintfInternal
  split
  · exact ⟨s, rfl⟩
  · exact ⟨_, by rw [formatted, Option.map_some']⟩

/-- `klog_printf_internal` faults only on a directive its switch has no case for: with every
directive of the template among `%d`, `%x`, `%s` and `%%`, it returns, whatever the arguments,
the stale bytes of its buffer and the state of the log. -/
theorem klogPrintfInternal_known_returns (NCPU : Nat) (s : KlogState) (ctx : KlogCtx)
    (level : BitVec 32) (fmt : CStr) (args : FmtArgs)
    (known : ∀ it ∈ items fmt.chars, it.known = true) :
    ∃ s', klogPrintfInternal NCPU s ctx level fmt args = some s' := by
  obtain ⟨buf, formatted⟩ := klogFormat_known args fmt ctx.stack known
  exact klogPrintfInternal_some_of_format formatted

theorem klogPrintfInternal_known_returns_all :
    (∀ it ∈ items "%d %x %s %%".toList, it.known = true) ∧
      ∃ s', klogPrintfInternal 8 staticState ⟨0, none, (0, 0), fun _ => nul⟩ 1
        ⟨"%d %x %s %%".toList, by decide⟩ ⟨fun _ => 0, fun _ => ⟨[], List.not_mem_nil nul⟩⟩ = some s' :=
  ⟨by decide, klogPrintfInternal_known_returns 8 staticState _ 1 _ _ (by decide)⟩

end Klog
