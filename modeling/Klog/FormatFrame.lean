import Klog.Append

set_option autoImplicit false

/- The formatter of `klog_printf_internal` never reads its buffer `char buf[64]`: it only
stores into it, from index 0 up, and the copy into the entry reads it up to the terminator the
formatter stored. So what a call puts in the log does not depend on the stale bytes the stack
held in `buf` before the call: none of them reaches the log, and a call faults or not whatever
they are. -/
namespace Klog

/-- Two buffers with the same bytes below index `n`. -/
def Agree (b b' : Nat → Char) (n : Nat) : Prop :=
  ∀ j < n, b j = b' j

theorem Agree.mono {b b' : Nat → Char} {n m : Nat} (agree : Agree b b' n) (le : m ≤ n) :
    Agree b b' m :=
  fun j below => agree j (by omega)

theorem Agree.update {b b' : Nat → Char} {k : Nat} (agree : Agree b b' k) (c : Char) :
    Agree (Function.update b k c) (Function.update b' k c) (k + 1) := by
  intro j below
  by_cases same : j = k
  · subst same
    rw [Function.update_same, Function.update_same]
  · rw [Function.update_noteq same, Function.update_noteq same]
    exact agree j (by omega)

/-! ### Each store, and each helper, extends the agreement by what it wrote -/

theorem store_agree {b b' r : Nat → Char} {k : Nat} {c : Char} (stored : store b k c = some r)
    (agree : Agree b b' k) : ∃ r', store b' k c = some r' ∧ Agree r r' (k + 1) := by
  by_cases inside : k < 64
  · rw [store_of_lt b c inside, Option.some.injEq] at stored
    subst stored
    exact ⟨_, store_of_lt b' c inside, agree.update c⟩
  · rw [store_of_le b c (by omega)] at stored
    cases stored

theorem storeAll_agree : ∀ (cs : List Char) {b b' r : Nat → Char} {k : Nat},
    storeAll b k cs = some r → Agree b b' k →
      ∃ r', storeAll b' k cs = some r' ∧ Agree r r' (k + cs.length)
  | [], _, b', _, _, stored, agree => ⟨b', rfl, by rwa [← Option.some.inj stored]⟩
  | c :: cs, _, _, _, k, stored, agree => by
    obtain ⟨b1, first, rest⟩ := Option.bind_eq_some.mp stored
    obtain ⟨b1', first', agree1⟩ := store_agree first agree
    obtain ⟨r', rest', agree'⟩ := storeAll_agree cs rest agree1
    refine ⟨r', by rw [storeAll, first', Option.some_bind, rest'], ?_⟩
    rwa [List.length_cons, ← Nat.add_assoc, Nat.add_right_comm]

theorem storeTerminated_agree {b b' r : Nat → Char} {base n : Nat} {out : List Char}
    (stored : storeTerminated b base out = some (r, n)) (agree : Agree b b' base) :
    ∃ r', storeTerminated b' base out = some (r', n) ∧ Agree r r' (base + n) := by
  obtain ⟨b1, all, term⟩ := Option.bind_eq_some.mp stored
  obtain ⟨b2, last, same⟩ := Option.map_eq_some'.mp term
  obtain ⟨rfl, rfl⟩ := Prod.mk.inj same
  obtain ⟨b1', all', agree1⟩ := storeAll_agree out all agree
  obtain ⟨b2', last', agree2⟩ := store_agree last agree1
  exact ⟨b2', by rw [storeTerminated, all', Option.some_bind, last', Option.map_some'],
    agree2.mono (Nat.le_succ _)⟩

theorem snprintfInt_agree {b b' r : Nat → Char} {i n : Nat} {size : Int} {val : BitVec 32}
    (stored : snprintfInt b i size val = some (r, n)) (agree : Agree b b' i) :
    ∃ r', snprintfInt b' i size val = some (r', n) ∧ Agree r r' (i + n) := by
  unfold snprintfInt at stored ⊢
  by_cases empty : size ≤ 0
  · rw [if_pos empty] at stored ⊢
    obtain ⟨rfl, rfl⟩ := Prod.mk.inj (Option.some.inj stored)
    exact ⟨b', rfl, agree⟩
  · rw [if_neg empty] at stored ⊢
    exact storeTerminated_agree stored agree

theorem snprintfHex_agree {b b' r : Nat → Char} {i n : Nat} {size : Int} {val : BitVec 32}
    (stored : snprintfHex b i size val = some (r, n)) (agree : Agree b b' i) :
    ∃ r', snprintfHex b' i size val = some (r', n) ∧ Agree r r' (i + n) := by
  unfold snprintfHex at stored ⊢
  by_cases tight : size ≤ 2
  · rw [if_pos tight] at stored ⊢
    obtain ⟨rfl, rfl⟩ := Prod.mk.inj (Option.some.inj stored)
    exact ⟨b', rfl, agree⟩
  · rw [if_neg tight] at stored ⊢
    exact storeTerminated_agree stored agree

theorem copyStr_agree : ∀ (cs : List Char) {i j : Nat} {b b' r : Nat → Char},
    copyStr cs i b = some (j, r) → Agree b b' i →
      ∃ r', copyStr cs i b' = some (j, r') ∧ Agree r r' j
  | [], _, _, _, b', _, stored, agree => by
    obtain ⟨rfl, rfl⟩ := Prod.mk.inj (Option.some.inj stored)
    exact ⟨b', rfl, agree⟩
  | c :: cs, i, _, b, b', _, stored, agree => by
    by_cases room : i < 63
    · rw [copyStr, if_pos room] at stored
      obtain ⟨b1, first, rest⟩ := Option.bind_eq_some.mp stored
      obtain ⟨b1', first', agree1⟩ := store_agree first agree
      obtain ⟨r', rest', agree'⟩ := copyStr_agree cs rest agree1
      exact ⟨r', by rw [copyStr, if_pos room, first', Option.some_bind, rest'], agree'⟩
    · rw [copyStr, if_neg room] at stored
      obtain ⟨rfl, rfl⟩ := Prod.mk.inj (Option.some.inj stored)
      exact ⟨b', by rw [copyStr, if_neg room], agree⟩

/-- A directive that returns extends the agreement to where it leaves the output index. -/
theorem fmtDirective_agree {args : FmtArgs} {d : Char} {k i k' p : Nat} {b b' r : Nat → Char}
    (stored : fmtDirective args d k i b = some (k', p, r)) (agree : Agree b b' i) :
    ∃ r', fmtDirective args d k i b' = some (k', p, r') ∧ Agree r r' p := by
  by_cases isInt : d = 'd'
  · subst isInt
    obtain ⟨⟨r0, n⟩, ran, same⟩ := Option.map_eq_some'.mp stored
    obtain ⟨rfl, rfl, rfl⟩ : k + 1 = k' ∧ i + n = p ∧ r0 = r := by simpa using same
    obtain ⟨r', ran', agree'⟩ := snprintfInt_agree ran agree
    exact ⟨r', by simp only [fmtDirective, ran', Option.map_some'], agree'⟩
  by_cases isHex : d = 'x'
  · subst isHex
    obtain ⟨⟨r0, n⟩, ran, same⟩ := Option.map_eq_some'.mp stored
    obtain ⟨rfl, rfl, rfl⟩ : k + 1 = k' ∧ i + n = p ∧ r0 = r := by simpa using same
    obtain ⟨r', ran', agree'⟩ := snprintfHex_agree ran agree
    exact ⟨r', by simp only [fmtDirective, ran', Option.map_some'], agree'⟩
  by_cases isStr : d = 's'
  · subst isStr
    obtain ⟨⟨j, r0⟩, copied, same⟩ := Option.map_eq_some'.mp stored
    obtain ⟨rfl, rfl, rfl⟩ : k + 1 = k' ∧ j = p ∧ r0 = r := by simpa using same
    obtain ⟨r', copied', agree'⟩ := copyStr_agree _ copied agree
    exact ⟨r', by simp only [fmtDirective, copied', Option.map_some'], agree'⟩
  by_cases isPercent : d = '%'
  · subst isPercent
    obtain ⟨r0, first, same⟩ := Option.map_eq_some'.mp stored
    obtain ⟨rfl, rfl, rfl⟩ : k = k' ∧ i + 1 = p ∧ r0 = r := by simpa using same
    obtain ⟨r', first', agree'⟩ := store_agree first agree
    exact ⟨r', by simp only [fmtDirective, first', Option.map_some'], agree'⟩
  rw [fmtDirective.eq_5 args d k i b isInt isHex isStr isPercent] at stored
  rw [fmtDirective.eq_5 args d k i b' isInt isHex isStr isPercent]
  obtain ⟨r1, both, same⟩ := Option.map_eq_some'.mp stored
  obtain ⟨rfl, rfl, rfl⟩ : k = k' ∧ i + 2 = p ∧ r1 = r := by simpa using same
  obtain ⟨r0, first, second⟩ := Option.bind_eq_some.mp both
  obtain ⟨r0', first', agree0⟩ := store_agree first agree
  obtain ⟨r', second', agree'⟩ := store_agree second agree0
  exact ⟨r', by rw [first', Option.some_bind, second', Option.map_some'], agree'⟩

/-- The formatting loop: the bytes below where it ends depend only on those below where it
started. -/
theorem fmtLoop_agree (args : FmtArgs) (cs : List Char) (k i : Nat) (b : Nat → Char) :
    ∀ {b' r : Nat → Char} {p : Nat}, fmtLoop args cs k i b = some (p, r) → Agree b b' i →
      ∃ r', fmtLoop args cs k i b' = some (p, r') ∧ Agree r r' p := by
  induction cs, k, i, b using fmtLoop.induct args with
  | case1 k i b =>
    intro b' r p stored agree
    obtain ⟨rfl, rfl⟩ := Prod.mk.inj (Option.some.inj stored)
    exact ⟨b', rfl, agree⟩
  | case2 k i b inside =>
    intro b' r p stored agree
    simp only [fmtLoop, if_pos inside, if_true, Option.some.injEq, Prod.mk.injEq] at stored
    obtain ⟨rfl, rfl⟩ := stored
    exact ⟨b', by simp [fmtLoop, inside], agree⟩
  | case3 k i b inside d rest ih =>
    intro b' r p stored agree
    rw [fmtLoop, if_pos inside, if_pos rfl] at stored
    obtain ⟨⟨k1, p1, r1⟩, first, rest'⟩ := Option.bind_eq_some.mp stored
    obtain ⟨r1', first', agree1⟩ := fmtDirective_agree first agree
    obtain ⟨r', loop', agree'⟩ := ih (k1, p1, r1) rest' agree1
    exact ⟨r', by rw [fmtLoop, if_pos inside, if_pos rfl, first', Option.some_bind]; exact loop',
      agree'⟩
  | case4 c rest k i b inside literal ih =>
    intro b' r p stored agree
    rw [fmtLoop_literal args c rest k i b inside literal, store_of_lt b c (by omega),
      Option.some_bind] at stored
    obtain ⟨r', loop', agree'⟩ := ih (Function.update b i c) stored (agree.update c)
    exact ⟨r', by rw [fmtLoop_literal args c rest k i b' inside literal,
      store_of_lt b' c (by omega), Option.some_bind, loop'], agree'⟩
  | case5 c rest k i b full =>
    intro b' r p stored agree
    rw [fmtLoop_full args c rest k i b full] at stored
    obtain ⟨rfl, rfl⟩ := Prod.mk.inj (Option.some.inj stored)
    exact ⟨b', fmtLoop_full args c rest k i b' full, agree⟩

/-- The formatting of `klog_printf_internal` from two stale buffers: both fault, or both end
with the same bytes up to and including the terminator they store below index 64. -/
theorem klogFormat_agree {args : FmtArgs} {fmt : CStr} {stack r : Nat → Char}
    (stack' : Nat → Char) (formatted : klogFormat args fmt stack = some r) :
    ∃ r', klogFormat args fmt stack' = some r' ∧
      ∃ p < 64, Agree r r' (p + 1) ∧ r p = nul := by
  obtain ⟨⟨p, b⟩, loop, term⟩ := Option.bind_eq_some.mp formatted
  obtain ⟨b', loop', agree⟩ := fmtLoop_agree args fmt.chars 0 0 stack loop
    (fun _ none => absurd none (Nat.not_lt_zero _))
  obtain ⟨r', term', agree'⟩ := store_agree term agree
  have inside : p < 64 := by
    by_contra outside
    rw [store_of_le _ _ (by omega)] at term
    cases term
  rw [store_of_lt _ _ inside, Option.some.injEq] at term
  subst term
  exact ⟨r', by rw [klogFormat, loop', Option.some_bind, term'], p, inside, agree',
    Function.update_same _ _ _⟩

/-- Two lists that agree up to and including a NUL at position `q` have the same C string. -/
theorem takeWhile_agree : ∀ (l l' : List Char) (q : Nat), (∀ j ≤ q, l[j]? = l'[j]?) →
    l[q]? = some nul → l.takeWhile (· ≠ nul) = l'.takeWhile (· ≠ nul)
  | [], _, _, _, ends => by simp at ends
  | _ :: _, [], _, agree, _ => by simpa using agree 0 (Nat.zero_le _)
  | a :: l, a' :: l', q, agree, ends => by
    have first := agree 0 (Nat.zero_le _)
    rw [List.getElem?_cons_zero, List.getElem?_cons_zero, Option.some.injEq] at first
    subst first
    by_cases ended : a = nul
    · rw [List.takeWhile_cons_of_neg (by simp [ended]), List.takeWhile_cons_of_neg (by simp [ended])]
    · cases q with
      | zero =>
        rw [List.getElem?_cons_zero, Option.some.injEq] at ends
        exact absurd ends ended
      | succ q =>
        rw [List.getElem?_cons_succ] at ends
        rw [List.takeWhile_cons_of_pos (by simp [ended]), List.takeWhile_cons_of_pos (by simp [ended])]
        exact congrArg _ (takeWhile_agree l l' q (fun j below => by
          simpa only [List.getElem?_cons_succ] using agree (j + 1) (by omega)) ends)

/-- The copy into the entry reads the buffer up to the terminator only. -/
theorem msgCopy_agree {r r' : Nat → Char} {p : Nat} (inside : p < 64) (agree : Agree r r' (p + 1))
    (ends : r p = nul) (old : List Char) : msgCopy r old = msgCopy r' old := by
  have copied : ((List.range 63).map r).takeWhile (· ≠ nul) =
      ((List.range 63).map r').takeWhile (· ≠ nul) := by
    by_cases last : p = 63
    · subst last
      exact congrArg _ (List.map_congr_left fun j mem => agree j (by
        have := List.mem_range.mp mem
        omega))
    · refine takeWhile_agree _ _ p (fun j below => ?_) ?_
      · simp only [List.getElem?_map, List.getElem?_range (show j < 63 by omega), Option.map_some']
        exact congrArg some (agree j (by omega))
      · simp only [List.getElem?_map, List.getElem?_range (show p < 63 by omega), Option.map_some',
          ends]
  simp only [msgCopy, copied]

/-- What `klog_printf_internal` does, the record it stores or its fault, does not depend on
the stale bytes of its stack buffer: none of them reaches the log. -/
theorem klogPrintfInternal_stack (NCPU : Nat) (s : KlogState) (ctx : KlogCtx)
    (stack' : Nat → Char) (level : BitVec 32) (fmt : CStr) (args : FmtArgs) :
    klogPrintfInternal NCPU s ctx level fmt args =
      klogPrintfInternal NCPU s { ctx with stack := stack' } level fmt args := by
  have append : ∀ {r r' : Nat → Char}, (∀ old, msgCopy r old = msgCopy r' old) →
      klogAppend s ctx.cpuId.toInt.toNat level (ctx.curPid.getD 0) ctx.tsc r =
        klogAppend s ctx.cpuId.toInt.toNat level (ctx.curPid.getD 0) ctx.tsc r' := by
    intro r r' same
    simp only [klogAppend, appendEntry, same]
  unfold klogPrintfInternal
  split
  · rfl
  · cases formatted : klogFormat args fmt ctx.stack with
    | none =>
      cases formatted' : klogFormat args fmt stack' with
      | none => rfl
      | some r' =>
        obtain ⟨r, back, -⟩ := klogFormat_agree ctx.stack formatted'
        rw [formatted] at back
        cases back
    | some r =>
      obtain ⟨r', formatted', p, inside, agree, ends⟩ := klogFormat_agree stack' formatted
      simp only [formatted', Option.map_some', Option.some.injEq]
      exact append (msgCopy_agree inside agree ends)

end Klog
