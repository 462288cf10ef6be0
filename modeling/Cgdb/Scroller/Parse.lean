import Mathlib

/-! `parse` from `scroller.c`: the character interpreter that `scr_add` runs on
each line. The C loop writes into a zeroed buffer of `length + 1` bytes; here the
same loop also runs on a plain line (`interp`), and `parse_eq` shows that on every
line whose caret is inside it the buffer version never writes outside its
allocation and returns the interpreted line with its trailing blanks trimmed. -/

namespace Cgdb

/-- `isprint` in the C locale. -/
def isprint (c : Char) : Bool := 32 ≤ c.toNat && c.toNat ≤ 126

/-- `isspace` in the C locale. -/
def isspace (c : Char) : Bool := c.toNat == 32 || (9 ≤ c.toNat && c.toNat ≤ 13)

def tabSize : Nat := 8

/-- `count`: the `strchr` loop visits each occurrence once. -/
def count (s : List Char) (c : Char) : Nat := s.count c

def strlen (s : List Char) : Nat := (s.takeWhile (· != '\x00')).length

/-- `rv[i] = c` into the `malloc`ed buffer; `none` is a write past its end. -/
def store (rv : List Char) (i : Nat) (c : Char) : Option (List Char) :=
  if i < rv.length then some (rv.set i c) else none

section Expand

variable {σ : Type} {m : Type → Type} [Monad m] (put : σ → Nat → Char → m σ)

/-- `do rv[i++] = ' '; while (i % tab_size != 0);`, at most `fuel` passes. -/
def tabFill (rv : σ) (i : Nat) : Nat → m (σ × Nat)
  | 0 => pure (rv, i)
  | fuel + 1 => do
    let rv ← put rv i ' '
    if (i + 1) % tabSize = 0 then pure (rv, i + 1) else tabFill rv (i + 1) fuel

/-- One pass of `parse`'s `switch (buf[j])`, writing through `put`. -/
def expand (state : σ × Nat) (c : Char) : m (σ × Nat) :=
  match c with
  | '\x08' | '\x7f' => pure (state.1, if 0 < state.2 then state.2 - 1 else state.2)
  | '\t' => tabFill put state.1 state.2 tabSize
  | '\r' => pure (state.1, 0)
  | c => if isprint c then do pure (← put state.1 state.2 c, state.2 + 1) else pure state

end Expand

/-- `for (j = strlen(rv) - 1; j > i && isspace(rv[j]); j--);` -/
def trimFrom (rv : List Char) (i : Nat) : Nat → Int → Int
  | 0, j => j
  | fuel + 1, j =>
    if (i : Int) < j && isspace (rv.getD j.toNat '\x00') then trimFrom rv i fuel (j - 1) else j

/-- `parse(scr, orig, buf)` with `scr->current.pos = pos`; returns the new line
and the new `current.pos`. -/
def parse (orig : List Char) (pos : Nat) (buf : List Char) : Option (List Char × Nat) := do
  let length := orig.length + buf.length + (tabSize - 1) * count buf '\t'
  let (rv, i) ← buf.foldlM (expand store)
    (orig ++ List.replicate (length + 1 - orig.length) '\x00', pos)
  let j := trimFrom rv i (strlen rv) ((strlen rv : Int) - 1)
  let rv ← store rv (j + 1).toNat '\x00'
  pure (rv.takeWhile (· != '\x00'), i)

/-- Writing at the caret of a line: overwrite inside it, append at its end. -/
def putAt (l : List Char) (i : Nat) (c : Char) : List Char := l.take i ++ c :: l.drop (i + 1)

/-- The interpreter on a plain line. -/
def interp (orig : List Char) (pos : Nat) (buf : List Char) : List Char × Nat :=
  buf.foldl (expand (m := Id) putAt) (orig, pos)

def rtrim (l : List Char) : List Char := (l.reverse.dropWhile isspace).reverse

/-- What the trim keeps: everything up to the caret, then the rest without its
trailing blanks. -/
def trimLine (l : List Char) (i : Nat) : List Char := l.take (i + 1) ++ rtrim (l.drop (i + 1))

/-- The zeroed buffer holding `l`, of `n` bytes. -/
def pad (l : List Char) (n : Nat) : List Char := l ++ List.replicate (n - l.length) '\x00'

/-- How much one input byte can lengthen the line: `parse` allocates one byte
per input byte and `tab_size - 1` more per tab. -/
def weight (c : Char) : Nat := if c = '\t' then tabSize else 1

theorem interp_cons (l : List Char) (i : Nat) (c : Char) (buf : List Char) :
    interp l i (c :: buf) =
      interp (expand (m := Id) putAt (l, i) c).1 (expand (m := Id) putAt (l, i) c).2 buf := rfl

theorem weight_tab : weight '\t' = tabSize := rfl

theorem one_le_weight (c : Char) : 1 ≤ weight c := by
  unfold weight tabSize; split <;> omega

theorem sum_weight (buf : List Char) :
    (buf.map weight).sum = buf.length + (tabSize - 1) * count buf '\t' := by
  induction buf with
  | nil => rfl
  | cons c buf ih =>
    simp only [List.map_cons, List.sum_cons, ih, count, List.count_cons, List.length_cons]
    by_cases h : c = '\t'
    · subst h; simp [weight_tab, tabSize]; omega
    · simp [weight, h, beq_iff_eq]; omega

theorem length_putAt {l : List Char} {i : Nat} (c : Char) (hi : i ≤ l.length) :
    (putAt l i c).length = max l.length (i + 1) := by
  simp [putAt]; omega

theorem store_pad {l : List Char} {i n : Nat} (c : Char) (hi : i ≤ l.length) (hn : l.length < n) :
    store (pad l n) i c = some (pad (putAt l i c) n) := by
  have hlen : (pad l n).length = n := by simp [pad]; omega
  rw [store, if_pos (by omega)]
  congr 1
  rcases Nat.lt_or_eq_of_le hi with hlt | rfl
  · rw [pad, List.set_append_left _ _ hlt, pad, length_putAt c hi, max_eq_left (by omega),
      List.set_eq_take_append_cons_drop, if_pos hlt, putAt]
  · obtain ⟨k, hk⟩ : ∃ k, n - l.length = k + 1 := ⟨n - l.length - 1, by omega⟩
    rw [pad, List.set_append_right _ _ (le_refl _), Nat.sub_self, hk, List.replicate_succ,
      List.set_cons_zero, pad, length_putAt c (le_refl _)]
    simp only [putAt, List.take_length, List.drop_eq_nil_of_le (Nat.le_succ _), List.length_append,
      List.length_singleton, List.append_assoc, List.singleton_append, List.nil_append]
    rw [max_eq_right (Nat.le_succ _)]
    congr 3
    omega

theorem tabFill_pad {l : List Char} {i n : Nat} (fuel : Nat) (hi : i ≤ l.length)
    (hn : l.length + (tabSize - i % tabSize) < n) :
    tabFill store (pad l n) i fuel =
      some (pad (tabFill (m := Id) putAt l i fuel).1 n, (tabFill (m := Id) putAt l i fuel).2) := by
  induction fuel generalizing l i with
  | zero => rfl
  | succ fuel ih =>
    have hlen := length_putAt ' ' hi
    have hmod : i % tabSize < tabSize := Nat.mod_lt _ (by decide)
    simp only [tabFill, store_pad (n := n) ' ' hi (by omega), Option.bind_eq_bind,
      Option.some_bind, Id.bind_eq, Id.pure_eq]
    split
    · rfl
    · have : (i + 1) % tabSize = i % tabSize + 1 := by unfold tabSize at *; omega
      exact ih (by omega) (by omega)

theorem tabFill_bounds {l : List Char} {i : Nat} (fuel : Nat) (hi : i ≤ l.length) :
    (tabFill (m := Id) putAt l i fuel).2 ≤ (tabFill (m := Id) putAt l i fuel).1.length ∧
      (tabFill (m := Id) putAt l i fuel).1.length ≤ l.length + (tabSize - i % tabSize) := by
  induction fuel generalizing l i with
  | zero => simp [tabFill]; omega
  | succ fuel ih =>
    have hlen := length_putAt ' ' hi
    have hmod : i % tabSize < tabSize := Nat.mod_lt _ (by decide)
    simp only [tabFill, Id.bind_eq, Id.pure_eq]
    split
    · simp only; omega
    · have : (i + 1) % tabSize = i % tabSize + 1 := by unfold tabSize at *; omega
      have := ih (l := putAt l i ' ') (i := i + 1) (by omega)
      omega

theorem expand_pad {l : List Char} {i n : Nat} (c : Char) (hi : i ≤ l.length)
    (hn : l.length + weight c < n) :
    expand store (pad l n, i) c =
      some (pad (expand (m := Id) putAt (l, i) c).1 n, (expand (m := Id) putAt (l, i) c).2) := by
  unfold expand
  split
  · rfl
  · rfl
  · exact tabFill_pad _ hi (by rw [weight_tab] at hn; omega)
  · rfl
  · split
    · rw [store_pad c hi (by have := one_le_weight c; unfold weight at hn; split at hn <;> omega)]
      rfl
    · rfl

theorem expand_bounds {l : List Char} {i : Nat} (c : Char) (hi : i ≤ l.length) :
    (expand (m := Id) putAt (l, i) c).2 ≤ (expand (m := Id) putAt (l, i) c).1.length ∧
      (expand (m := Id) putAt (l, i) c).1.length ≤ l.length + weight c := by
  unfold expand
  split
  · split <;> simp only [Id.pure_eq] <;> omega
  · split <;> simp only [Id.pure_eq] <;> omega
  · have := tabFill_bounds (l := l) tabSize hi
    rw [weight_tab]
    exact ⟨this.1, this.2.trans (by omega)⟩
  · simp
  · split
    · have := length_putAt c hi
      have := one_le_weight c
      simp only [Id.bind_eq, Id.pure_eq]
      omega
    · simp; omega

theorem interp_bounds {l : List Char} {i : Nat} (buf : List Char) (hi : i ≤ l.length) :
    (interp l i buf).2 ≤ (interp l i buf).1.length ∧
      (interp l i buf).1.length ≤ l.length + (buf.map weight).sum := by
  induction buf generalizing l i with
  | nil => simpa [interp] using hi
  | cons c buf ih =>
    have hb := expand_bounds c hi
    have := ih hb.1
    rw [interp_cons]
    simp only [List.map_cons, List.sum_cons]
    omega

theorem foldlM_pad (buf : List Char) {l : List Char} {i n : Nat} (hi : i ≤ l.length)
    (hn : l.length + (buf.map weight).sum < n) :
    buf.foldlM (expand store) (pad l n, i) = some (pad (interp l i buf).1 n, (interp l i buf).2) := by
  induction buf generalizing l i with
  | nil => rfl
  | cons c buf ih =>
    have hb := expand_bounds c hi
    simp only [List.map_cons, List.sum_cons] at hn
    rw [List.foldlM_cons, expand_pad c hi (by omega), Option.bind_eq_bind, Option.some_bind]
    exact ih hb.1 (by omega)

theorem printable_putAt {l : List Char} {c : Char} (i : Nat) (hl : ∀ x ∈ l, isprint x)
    (hc : isprint c) : ∀ x ∈ putAt l i c, isprint x := by
  intro x hx
  simp only [putAt, List.mem_append, List.mem_cons] at hx
  rcases hx with hx | rfl | hx
  · exact hl x (List.mem_of_mem_take hx)
  · exact hc
  · exact hl x (List.mem_of_mem_drop hx)

theorem printable_expand {l : List Char} (i : Nat) (c : Char) (hl : ∀ x ∈ l, isprint x) :
    ∀ x ∈ (expand (m := Id) putAt (l, i) c).1, isprint x := by
  unfold expand
  split
  · exact hl
  · exact hl
  · induction tabSize generalizing l i with
    | zero => exact hl
    | succ fuel ih =>
      simp only [tabFill, Id.bind_eq, Id.pure_eq]
      split
      · exact printable_putAt i hl (c := ' ') rfl
      · exact ih (l := putAt l i ' ') (i := i + 1) (printable_putAt i hl (c := ' ') rfl)
  · exact hl
  · split
    · exact printable_putAt i hl ‹_›
    · exact hl

theorem printable_interp {l : List Char} (i : Nat) (buf : List Char) (hl : ∀ x ∈ l, isprint x) :
    ∀ x ∈ (interp l i buf).1, isprint x := by
  induction buf generalizing l i with
  | nil => exact hl
  | cons c buf ih => exact ih _ (printable_expand i c hl)

theorem rtrim_append_space {l : List Char} {c : Char} (space : isspace c) :
    rtrim (l ++ [c]) = rtrim l := by
  simp [rtrim, List.dropWhile_cons, space]

theorem rtrim_append_of_not {l : List Char} {c : Char} (word : isspace c = false) :
    rtrim (l ++ [c]) = l ++ [c] := by
  simp [rtrim, List.dropWhile_cons, word]

theorem rtrim_isPrefix (l : List Char) : rtrim l <+: l := by
  have h := List.takeWhile_append_dropWhile (p := isspace) (l := l.reverse)
  refine ⟨(l.reverse.takeWhile isspace).reverse, ?_⟩
  rw [rtrim, ← List.reverse_append, h, List.reverse_reverse]

theorem trimLine_isPrefix (l : List Char) (i : Nat) : trimLine l i <+: l := by
  obtain ⟨t, ht⟩ := rtrim_isPrefix (l.drop (i + 1))
  exact ⟨t, by rw [trimLine, List.append_assoc, ht, List.take_append_drop]⟩

theorem trimLine_append_space {l : List Char} {i : Nat} {c : Char} (past : i < l.length)
    (space : isspace c) : trimLine (l ++ [c]) i = trimLine l i := by
  rw [trimLine, trimLine, List.take_append_of_le_length (by omega),
    List.drop_append_of_le_length (by omega), rtrim_append_space space]

theorem trimLine_append_keep {l : List Char} {i : Nat} {c : Char}
    (keep : l.length ≤ i ∨ isspace c = false) : trimLine (l ++ [c]) i = l ++ [c] := by
  by_cases past : i < l.length
  · have word : isspace c = false := keep.resolve_left (by omega)
    rw [trimLine, List.take_append_of_le_length (by omega),
      List.drop_append_of_le_length (by omega), rtrim_append_of_not word, ← List.append_assoc,
      List.take_append_drop]
  · rw [trimLine, List.take_of_length_le (by simp; omega), List.drop_of_length_le (by simp; omega)]
    simp [rtrim]

theorem trimFrom_take (l r : List Char) (i : Nat) {k fuel : Nat} (hk : k ≤ l.length)
    (hfuel : k ≤ fuel) :
    trimFrom (l ++ r) i fuel ((k : Int) - 1) = ((trimLine (l.take k) i).length : Int) - 1 := by
  induction k generalizing fuel with
  | zero =>
    cases fuel
    · rfl
    · simp [trimFrom, trimLine, rtrim]; omega
  | succ k ih =>
    obtain ⟨fuel, rfl⟩ : ∃ f, fuel = f + 1 := ⟨fuel - 1, by omega⟩
    have hget : (l ++ r).getD k '\x00' = l[k] := by
      rw [List.getD_eq_getElem?_getD, List.getElem?_append_left (by omega),
        List.getElem?_eq_getElem (by omega)]
      rfl
    have htake : l.take (k + 1) = l.take k ++ [l[k]] := by
      rw [List.take_succ, List.getElem?_eq_getElem (by omega)]; rfl
    have hlen : (l.take k).length = k := by simp; omega
    have hj : ((k + 1 : Nat) : Int) - 1 = (k : Int) := by omega
    simp only [trimFrom, hj, Int.toNat_ofNat, hget]
    by_cases past : (i : Int) < k ∧ isspace l[k]
    · rw [if_pos (by simpa using past), htake, trimLine_append_space (by omega) past.2]
      exact ih (by omega) (by omega)
    · have keep : (l.take k).length ≤ i ∨ isspace l[k] = false := by
        by_cases word : isspace l[k]
        · exact .inl (by rw [hlen]; by_contra lt; exact past ⟨by omega, word⟩)
        · exact .inr (by simpa using word)
      rw [if_neg (by simpa using past), htake, trimLine_append_keep keep, List.length_append, hlen]
      simp

theorem takeWhile_set_length {t : List Char} (r : List Char) (nul : '\x00' ∉ t) (hr : r ≠ []) :
    ((t ++ r).set t.length '\x00').takeWhile (· != '\x00') = t := by
  obtain ⟨a, r, rfl⟩ := List.exists_cons_of_ne_nil hr
  rw [List.set_append_right _ _ (le_refl _), Nat.sub_self, List.set_cons_zero,
    List.takeWhile_append_of_pos (fun x hx => by simpa using ne_of_mem_of_not_mem hx nul)]
  simp

theorem takeWhile_set_isPrefix {t L : List Char} {n : Nat} (pre : t <+: L) (nul : '\x00' ∉ L)
    (hn : L.length < n) : ((pad L n).set t.length '\x00').takeWhile (· != '\x00') = t := by
  obtain ⟨u, rfl⟩ := pre
  rw [pad, List.append_assoc, takeWhile_set_length _ (fun h => nul (List.mem_append_left u h))]
  simp only [List.length_append] at hn
  simp; omega

theorem nul_free {l : List Char} (hl : ∀ x ∈ l, isprint x) : '\x00' ∉ l :=
  fun h => absurd (hl _ h) (by decide)

theorem strlen_pad {l : List Char} {n : Nat} (nul : '\x00' ∉ l) (hn : l.length < n) :
    strlen (pad l n) = l.length := by
  obtain ⟨k, hk⟩ : ∃ k, n - l.length = k + 1 := ⟨n - l.length - 1, by omega⟩
  rw [strlen, pad, hk, List.replicate_succ,
    List.takeWhile_append_of_pos (fun x hx => by simpa using ne_of_mem_of_not_mem hx nul)]
  simp

theorem parse_eq {orig : List Char} {pos : Nat} (buf : List Char) (hpos : pos ≤ orig.length)
    (printable : ∀ x ∈ orig, isprint x) :
    parse orig pos buf =
      some (trimLine (interp orig pos buf).1 (interp orig pos buf).2, (interp orig pos buf).2) := by
  set n := orig.length + buf.length + (tabSize - 1) * count buf '\t' + 1
  obtain ⟨hcaret, hlen⟩ := interp_bounds buf hpos
  rw [sum_weight] at hlen
  have hfold := foldlM_pad buf (n := n) hpos (by rw [sum_weight]; omega)
  have nul := nul_free (printable_interp pos buf printable)
  set L := (interp orig pos buf).1
  set t := trimLine L (interp orig pos buf).2
  obtain ⟨u, hu⟩ := trimLine_isPrefix L (interp orig pos buf).2
  have ht : t.length ≤ L.length := by rw [← hu]; simp
  have hpad : (pad L n).length = n := by simp [pad]; omega
  have hj := trimFrom_take L (List.replicate (n - L.length) '\x00') (interp orig pos buf).2
    (le_refl L.length) (le_refl L.length)
  rw [List.take_length, ← pad, ← strlen_pad nul (by omega : L.length < n)] at hj
  have hinit : orig ++ List.replicate (n - orig.length) '\x00' = pad orig n := rfl
  have hidx : ((t.length : Int) - 1 + 1).toNat = t.length := by omega
  unfold parse
  simp only [hinit, hfold, Option.bind_eq_bind, Option.some_bind, hj, hidx, store,
    if_pos (show t.length < (pad L n).length by omega),
    takeWhile_set_isPrefix ⟨u, hu⟩ nul (show L.length < n by omega)]
  rfl

example : parse [] 0 "ab\tc\r".toList = some ("ab      c".toList, 0) := by decide

end Cgdb
