import Cgdb.Scroller.Refresh

/-! What `scr_up` and `scr_down` count. Both walk a line `W` bytes at a time, so
they give a line `max 1 ⌈strlen / W⌉` rows, format bytes included. Numbering
those rows line by line, `scr_down n` moves the viewport `n` rows down and
`scr_up n` moves it `n` rows up, stopping at either end. A row's number
determines the viewport (`OnRow.eq_of_rowIndex`), so away from the ends the two
undo each other (`scroll_up_down_inverse`). The renderer gives a
line the rows of its printed cells instead, so where format
bytes push `strlen` across a multiple of `W` the two numberings part. -/

namespace Cgdb

/-- The rows `scr_up` and `scr_down` give a line: `strlen` bytes, `width` to a row. -/
def byteRows (width : Nat) (l : List Char) : Nat := max 1 ((l.length + width - 1) / width)

/-- The rows `scr_refresh` draws a line in. -/
def drawnRows (width : Nat) (l : List Char) : Nat := (getLineHeight l width).toNat

/-- The number of the row the viewport `(r, c)` shows, counting `rows` of every
line above it. -/
def rowIndex (rows : List Char → Nat) (scr : Scroller) (cur : Cursor) : Nat :=
  ((scr.buffer.map rows).take cur.r).sum + cur.c / scr.width

def rowCount (rows : List Char → Nat) (scr : Scroller) : Nat := (scr.buffer.map rows).sum

/-- The viewport shows one of the `rows` of its line. -/
structure OnRow (rows : List Char → Nat) (scr : Scroller) (cur : Cursor) : Prop where
  row : cur.r < scr.buffer.length
  column : scr.width ∣ cur.c
  within : cur.c / scr.width < rows (scr.line cur.r)

theorem lt_byteRows {width k : Nat} (l : List Char) (hw : 0 < width) :
    k < byteRows width l ↔ k = 0 ∨ k * width < l.length := by
  have key : k < (l.length + width - 1) / width ↔ (k + 1) * width ≤ l.length + width - 1 :=
    Nat.le_div_iff_mul_le hw
  rw [byteRows, lt_max_iff, key, Nat.add_mul, one_mul]
  omega

theorem byteRows_eq {width : Nat} (l : List Char) (hw : 0 < width) (hl : 0 < l.length) :
    byteRows width l = (l.length - 1) / width + 1 := by
  rw [byteRows, show l.length + width - 1 = l.length - 1 + width by omega, Nat.add_div_right _ hw]
  exact max_eq_right (Nat.le_add_left _ _)

section Rows

variable (rows : List Char → Nat) (scr : Scroller) {r : Nat}

theorem sum_take_succ_rows (hr : r < scr.buffer.length) :
    ((scr.buffer.map rows).take (r + 1)).sum = ((scr.buffer.map rows).take r).sum + rows (scr.line r) := by
  rw [List.sum_take_succ _ _ (by simpa using hr), List.getElem_map, Scroller.line,
    List.getD_eq_getElem?_getD, List.getElem?_eq_getElem hr]
  rfl

theorem sum_take_rows_le (hr : r < scr.buffer.length) :
    ((scr.buffer.map rows).take r).sum + rows (scr.line r) ≤ rowCount rows scr := by
  have split := List.sum_take_add_sum_drop (scr.buffer.map rows) (r + 1)
  rw [rowCount, ← sum_take_succ_rows rows scr hr]
  omega

theorem sum_take_rows_last (hr : r + 1 = scr.buffer.length) :
    ((scr.buffer.map rows).take r).sum + rows (scr.line r) = rowCount rows scr := by
  rw [← sum_take_succ_rows rows scr (by omega), rowCount, hr,
    List.take_of_length_le (by simp)]

end Rows

theorem OnRow.rowIndex_lt {rows : List Char → Nat} {scr : Scroller} {cur : Cursor}
    (onRow : OnRow rows scr cur) : rowIndex rows scr cur < rowCount rows scr :=
  Nat.lt_of_lt_of_le (Nat.add_lt_add_left onRow.within _) (sum_take_rows_le rows scr onRow.row)

theorem OnRow.rowIndex_lt_of_lt {rows : List Char → Nat} {scr : Scroller} {cur cur' : Cursor}
    (onRow : OnRow rows scr cur) (earlier : cur.r < cur'.r) : rowIndex rows scr cur < rowIndex rows scr cur' :=
  calc rowIndex rows scr cur
      < ((scr.buffer.map rows).take cur.r).sum + rows (scr.line cur.r) := Nat.add_lt_add_left onRow.within _
    _ = ((scr.buffer.map rows).take (cur.r + 1)).sum := (sum_take_succ_rows rows scr onRow.row).symm
    _ ≤ ((scr.buffer.map rows).take cur'.r).sum :=
      (List.take_sublist_take_left _ earlier).sum_le_sum fun _ _ => Nat.zero_le _
    _ ≤ rowIndex rows scr cur' := Nat.le_add_right _ _

theorem OnRow.eq_of_rowIndex {rows : List Char → Nat} {scr : Scroller} {cur cur' : Cursor}
    (onRow : OnRow rows scr cur) (onRow' : OnRow rows scr cur')
    (same : rowIndex rows scr cur = rowIndex rows scr cur') : cur.r = cur'.r ∧ cur.c = cur'.c := by
  have line : cur.r = cur'.r := by
    rcases Nat.lt_trichotomy cur.r cur'.r with earlier | line | later
    · exact absurd same (onRow.rowIndex_lt_of_lt earlier).ne
    · exact line
    · exact absurd same (onRow'.rowIndex_lt_of_lt later).ne'
  have column : cur.c / scr.width = cur'.c / scr.width := by
    simp only [rowIndex, line] at same
    omega
  refine ⟨line, ?_⟩
  rw [← Nat.mul_div_cancel' onRow.column, ← Nat.mul_div_cancel' onRow'.column, column]

section Steps

variable {scr : Scroller} {cur : Cursor} (hw : 0 < scr.width)
  (onRow : OnRow (byteRows scr.width) scr cur)
include hw onRow

theorem downStep_rowIndex :
    (∀ cur', downStep scr cur = some cur' →
      OnRow (byteRows scr.width) scr cur' ∧
        rowIndex (byteRows scr.width) scr cur' = rowIndex (byteRows scr.width) scr cur + 1) ∧
    (downStep scr cur = none → rowIndex (byteRows scr.width) scr cur + 1 = rowCount (byteRows scr.width) scr) := by
  obtain ⟨row, ⟨k, hk⟩, within⟩ := onRow
  have hdiv : cur.c / scr.width = k := by rw [hk, Nat.mul_div_cancel_left _ hw]
  rw [hdiv, lt_byteRows _ hw] at within
  have full : ¬ (cur.c + scr.width < (scr.line cur.r).length) →
      byteRows scr.width (scr.line cur.r) = k + 1 := by
    intro h
    have lo := (lt_byteRows (scr.line cur.r) hw).mpr within
    have hi := (lt_byteRows (k := k + 1) (scr.line cur.r) hw).not.mpr
      (by rw [Nat.add_mul, one_mul, Nat.mul_comm]; omega)
    omega
  unfold downStep
  split_ifs with wraps next
  · refine ⟨fun cur' h => ?_, nofun⟩
    cases h
    have hdiv' : (cur.c + scr.width) / scr.width = k + 1 := by rw [Nat.add_div_right _ hw, hdiv]
    refine ⟨⟨row, ⟨k + 1, by rw [hk, Nat.mul_add, Nat.mul_one]⟩, ?_⟩, ?_⟩
    · dsimp only
      rw [hdiv', lt_byteRows _ hw, Nat.add_mul, one_mul, Nat.mul_comm]
      omega
    · simp only [rowIndex, hdiv', hdiv]
      omega
  · refine ⟨fun cur' h => ?_, nofun⟩
    cases h
    refine ⟨⟨by dsimp only; omega, Nat.dvd_zero _, by simp [lt_byteRows _ hw]⟩, ?_⟩
    simp only [rowIndex, Nat.zero_div, sum_take_succ_rows _ _ row, full (by omega), hdiv]
    omega
  · refine ⟨nofun, fun _ => ?_⟩
    rw [rowIndex, hdiv, Nat.add_assoc, ← full (by omega), sum_take_rows_last _ _ (by omega)]

theorem upStep_rowIndex :
    (∀ cur', upStep scr cur = some cur' →
      OnRow (byteRows scr.width) scr cur' ∧
        rowIndex (byteRows scr.width) scr cur' + 1 = rowIndex (byteRows scr.width) scr cur) ∧
    (upStep scr cur = none → rowIndex (byteRows scr.width) scr cur = 0) := by
  obtain ⟨row, ⟨k, hk⟩, within⟩ := onRow
  have hdiv : cur.c / scr.width = k := by rw [hk, Nat.mul_div_cancel_left _ hw]
  rw [hdiv] at within
  unfold upStep
  split_ifs with back up long
  · refine ⟨fun cur' h => ?_, nofun⟩
    cases h
    have hk0 : 0 < k := Nat.pos_of_ne_zero (by rintro rfl; omega)
    have hsub : cur.c - scr.width = scr.width * (k - 1) := by rw [hk, Nat.mul_sub_one]
    have hdiv' : (cur.c - scr.width) / scr.width = k - 1 := by
      rw [hsub, Nat.mul_div_cancel_left _ hw]
    refine ⟨⟨row, ⟨k - 1, hsub⟩, by dsimp only; omega⟩, ?_⟩
    simp only [rowIndex, hdiv', hdiv]
    omega
  · refine ⟨fun cur' h => ?_, nofun⟩
    cases h
    have hc : cur.c = 0 := by omega
    have rows := byteRows_eq (scr.line (cur.r - 1)) hw (by omega)
    have before := sum_take_succ_rows (byteRows scr.width) scr (r := cur.r - 1) (by omega)
    rw [Nat.sub_add_cancel up] at before
    refine ⟨⟨by dsimp only; omega, Nat.dvd_mul_left _ _, ?_⟩, ?_⟩
    · simp only [Nat.mul_div_cancel _ hw, rows]
      omega
    · simp only [rowIndex, Nat.mul_div_cancel _ hw, hc, Nat.zero_div]
      omega
  · refine ⟨fun cur' h => ?_, nofun⟩
    cases h
    have hc : cur.c = 0 := by omega
    have rows : byteRows scr.width (scr.line (cur.r - 1)) = 1 := by
      have := (lt_byteRows (k := 1) (scr.line (cur.r - 1)) hw).not.mpr (by omega)
      have := (lt_byteRows (k := 0) (scr.line (cur.r - 1)) hw).mpr (.inl rfl)
      omega
    have before := sum_take_succ_rows (byteRows scr.width) scr (r := cur.r - 1) (by omega)
    rw [Nat.sub_add_cancel up] at before
    refine ⟨⟨by dsimp only; omega, by rw [hc]; exact Nat.dvd_zero _, by simp [hc, rows]⟩, ?_⟩
    simp only [rowIndex, hc, Nat.zero_div]
    omega
  · refine ⟨nofun, fun _ => ?_⟩
    simp only [rowIndex, hdiv, show cur.r = 0 by omega, List.take_zero, List.sum_nil]
    rcases Nat.eq_zero_or_pos k with rfl | h
    · rfl
    · simp_all

end Steps

/-- `for (i = 0; i < nlines; i++)` over a step that moves one unit until it
breaks at `top`: the loop moves `min n` units. -/
theorem loop_counts {step : Cursor → Option Cursor} (P : Cursor → Prop) (f : Cursor → Nat)
    (top : Nat) (bound : ∀ cur, P cur → f cur ≤ top)
    (moves : ∀ cur cur', P cur → step cur = some cur' → P cur' ∧ f cur' = f cur + 1)
    (stops : ∀ cur, P cur → step cur = none → f cur = top) (n : Nat) {cur : Cursor} (h : P cur) :
    P (loop step n cur) ∧ f (loop step n cur) = min (f cur + n) top := by
  induction n generalizing cur with
  | zero => exact ⟨h, by have := bound cur h; simp only [loop]; omega⟩
  | succ n ih =>
    unfold loop
    split
    · rename_i cur' hs
      obtain ⟨h', hf⟩ := moves cur cur' h hs
      rw [(ih h').2, hf]
      exact ⟨(ih h').1, by omega⟩
    · rename_i hs
      have := stops cur h hs
      exact ⟨h, by omega⟩

theorem snap_of_dvd {c width : Nat} (h : width ∣ c) : snap c width = c := by
  unfold snap
  split_ifs with hs
  · exact absurd (Nat.mod_eq_zero_of_dvd h) hs.2
  · rfl

section Scroll

variable {scr : Scroller} (hw : 0 < scr.width) (onRow : OnRow (byteRows scr.width) scr scr.current)
include hw onRow

theorem scrDown_rowIndex (n : Nat) :
    OnRow (byteRows scr.width) scr (scrDown scr n).current ∧
      rowIndex (byteRows scr.width) scr (scrDown scr n).current =
        min (rowIndex (byteRows scr.width) scr scr.current + n) (rowCount (byteRows scr.width) scr - 1) := by
  have start : { scr.current with c := snap scr.current.c scr.width } = scr.current := by
    rw [snap_of_dvd onRow.column]
  simp only [scrDown, Int.toNat_ofNat, start]
  exact loop_counts _ _ _ (fun _ onRow => by have := onRow.rowIndex_lt; omega)
    (fun _ _ onRow => (downStep_rowIndex hw onRow).1 _) (fun _ onRow h => by
      have := (downStep_rowIndex hw onRow).2 h; omega) n onRow

theorem scrUp_rowIndex (n : Nat) :
    OnRow (byteRows scr.width) scr (scrUp scr n).current ∧
      rowIndex (byteRows scr.width) scr (scrUp scr n).current =
        rowIndex (byteRows scr.width) scr scr.current - n := by
  have start : { scr.current with c := snap scr.current.c scr.width } = scr.current := by
    rw [snap_of_dvd onRow.column]
  simp only [scrUp, Int.toNat_ofNat, start]
  have last := onRow.rowIndex_lt
  obtain ⟨onRow', index⟩ := @loop_counts (upStep scr) (OnRow (byteRows scr.width) scr)
    (fun cur => rowCount (byteRows scr.width) scr - 1 - rowIndex (byteRows scr.width) scr cur)
    (rowCount (byteRows scr.width) scr - 1) (fun _ _ => Nat.sub_le _ _)
    (fun _ _ o h => by
      obtain ⟨o', up⟩ := (upStep_rowIndex hw o).1 _ h
      have := o.rowIndex_lt
      exact ⟨o', by simp only; omega⟩)
    (fun _ o h => by have := (upStep_rowIndex hw o).2 h; simp only; omega) n _ onRow
  have := onRow'.rowIndex_lt
  exact ⟨onRow', by omega⟩

theorem scrDown_scrUp {n : Nat} (room : n ≤ rowIndex (byteRows scr.width) scr scr.current) :
    (scrDown (scrUp scr n) n).current = scr.current := by
  obtain ⟨up, upIndex⟩ := scrUp_rowIndex hw onRow n
  obtain ⟨down, downIndex⟩ := scrDown_rowIndex (show 0 < (scrUp scr n).width from hw) ⟨up.row, up.column, up.within⟩ n
  have back : rowIndex (byteRows scr.width) scr (scrDown (scrUp scr n) n).current =
      rowIndex (byteRows scr.width) scr scr.current := by
    change _ = min (rowIndex (byteRows scr.width) scr (scrUp scr n).current + n) (rowCount (byteRows scr.width) scr - 1)
      at downIndex
    have := onRow.rowIndex_lt
    rwa [upIndex, Nat.sub_add_cancel room, min_eq_left (by omega)] at downIndex
  obtain ⟨line, column⟩ := onRow.eq_of_rowIndex ⟨down.row, down.column, down.within⟩ back.symm
  have pos : (scrDown (scrUp scr n) n).current.pos = scr.current.pos :=
    (loop_pos downStep_pos _ _).trans (loop_pos upStep_pos _ _)
  show _ = ⟨scr.current.r, scr.current.c, scr.current.pos⟩
  rw [line, column, ← pos]

theorem scrUp_scrDown {n : Nat} (room : rowIndex (byteRows scr.width) scr scr.current + n < rowCount (byteRows scr.width) scr) :
    (scrUp (scrDown scr n) n).current = scr.current := by
  obtain ⟨down, downIndex⟩ := scrDown_rowIndex hw onRow n
  obtain ⟨up, upIndex⟩ := scrUp_rowIndex (show 0 < (scrDown scr n).width from hw) ⟨down.row, down.column, down.within⟩ n
  have back : rowIndex (byteRows scr.width) scr (scrUp (scrDown scr n) n).current =
      rowIndex (byteRows scr.width) scr scr.current := by
    change _ = rowIndex (byteRows scr.width) scr (scrDown scr n).current - n at upIndex
    rwa [downIndex, min_eq_left (by omega), Nat.add_sub_cancel] at upIndex
  obtain ⟨line, column⟩ := onRow.eq_of_rowIndex ⟨up.row, up.column, up.within⟩ back.symm
  have pos : (scrUp (scrDown scr n) n).current.pos = scr.current.pos :=
    (loop_pos upStep_pos _ _).trans (loop_pos downStep_pos _ _)
  show _ = ⟨scr.current.r, scr.current.c, scr.current.pos⟩
  rw [line, column, ← pos]

end Scroll

/-- `scr_down` and `scr_up` move the viewport by rows of `W` bytes: from any
viewport on a row of its line, `scr_down n` lands `n` rows further down and
`scr_up n` `n` rows further up, stopping at the last and the first row. -/
theorem scroll_moves_by_byte_rows {scr : Scroller} (hw : 0 < scr.width)
    (onRow : OnRow (byteRows scr.width) scr scr.current) (n : Nat) :
    (OnRow (byteRows scr.width) scr (scrDown scr n).current ∧
      rowIndex (byteRows scr.width) scr (scrDown scr n).current =
        min (rowIndex (byteRows scr.width) scr scr.current + n) (rowCount (byteRows scr.width) scr - 1)) ∧
    (OnRow (byteRows scr.width) scr (scrUp scr n).current ∧
      rowIndex (byteRows scr.width) scr (scrUp scr n).current =
        rowIndex (byteRows scr.width) scr scr.current - n) :=
  ⟨scrDown_rowIndex hw onRow n, scrUp_rowIndex hw onRow n⟩

theorem scroll_moves_by_byte_rows_sample :
    ∃ scr : Scroller, scr = ⟨["abcdefg".toList, "hi".toList], ⟨0, 3, 2⟩, 1, 3⟩ ∧
      0 < scr.width ∧ OnRow (byteRows scr.width) scr scr.current ∧
      (OnRow (byteRows scr.width) scr (scrDown scr 2).current ∧
        rowIndex (byteRows scr.width) scr (scrDown scr 2).current =
          min (rowIndex (byteRows scr.width) scr scr.current + 2) (rowCount (byteRows scr.width) scr - 1)) ∧
      (OnRow (byteRows scr.width) scr (scrUp scr 2).current ∧
        rowIndex (byteRows scr.width) scr (scrUp scr 2).current =
          rowIndex (byteRows scr.width) scr scr.current - 2) :=
  have onRow : OnRow (byteRows 3) ⟨["abcdefg".toList, "hi".toList], ⟨0, 3, 2⟩, 1, 3⟩ ⟨0, 3, 2⟩ :=
    ⟨by decide, by decide, by decide⟩
  ⟨_, rfl, by decide, onRow, scroll_moves_by_byte_rows (by decide) onRow 2⟩

/-- `scr_up` and `scr_down` undo each other: from a viewport on a row of its
line, `scr_down n` after `scr_up n` gives it back when `n` rows lie above it,
and `scr_up n` after `scr_down n` when `n` rows lie below it. -/
theorem scroll_up_down_inverse {scr : Scroller} (hw : 0 < scr.width)
    (onRow : OnRow (byteRows scr.width) scr scr.current) (n : Nat) :
    (n ≤ rowIndex (byteRows scr.width) scr scr.current → (scrDown (scrUp scr n) n).current = scr.current) ∧
    (rowIndex (byteRows scr.width) scr scr.current + n < rowCount (byteRows scr.width) scr →
      (scrUp (scrDown scr n) n).current = scr.current) :=
  ⟨scrDown_scrUp hw onRow, scrUp_scrDown hw onRow⟩

theorem scroll_up_down_inverse_sample :
    ∃ scr : Scroller, scr = ⟨["abcdefg".toList, "hi".toList], ⟨0, 3, 2⟩, 1, 3⟩ ∧
      0 < scr.width ∧ OnRow (byteRows scr.width) scr scr.current ∧
      1 ≤ rowIndex (byteRows scr.width) scr scr.current ∧
      rowIndex (byteRows scr.width) scr scr.current + 1 < rowCount (byteRows scr.width) scr ∧
      (scrDown (scrUp scr 1) 1).current = scr.current ∧ (scrUp (scrDown scr 1) 1).current = scr.current :=
  have onRow : OnRow (byteRows 3) ⟨["abcdefg".toList, "hi".toList], ⟨0, 3, 2⟩, 1, 3⟩ ⟨0, 3, 2⟩ :=
    ⟨by decide, by decide, by decide⟩
  ⟨_, rfl, by decide, onRow, by decide, by decide, (scroll_up_down_inverse (by decide) onRow 1).1 (by decide),
    (scroll_up_down_inverse (by decide) onRow 1).2 (by decide)⟩

/-- `"[31mhello[0m"` holds 12 bytes but prints 5 cells: the screen draws it in
one row of 10, `scr_down` gives it two. From the top, `scr_down 1` stops on
column 10 of line 0, a row `scr_refresh` never draws, where the rendered
numbering puts line 1. -/
theorem scrDown_counts_format_bytes :
    ∃ scr, scrAdd (scrNew 1 10) "[31mhello[0m\nx".toList = some scr ∧
      OnRow (drawnRows 10) scr (scrHome scr).current ∧ rowCount (drawnRows 10) scr = 2 ∧
      (scrDown (scrHome scr) 1).current = ⟨0, 10, 1⟩ ∧
      ¬ OnRow (drawnRows 10) scr (scrDown (scrHome scr) 1).current := by
  have add : scrAdd (scrNew 1 10) "[31mhello[0m\nx".toList =
      some ⟨["[31mhello[0m".toList, "x".toList], ⟨1, 0, 1⟩, 1, 10⟩ := by decide
  refine ⟨_, add, ⟨by decide, by decide, by decide⟩, by decide, by decide, fun onRow => ?_⟩
  have within := onRow.within
  revert within
  decide

theorem loop_stop {step : Cursor → Option Cursor} {cur : Cursor} (stop : step cur = none) (n : Nat) :
    loop step n cur = cur := by
  cases n <;> simp [loop, stop]

/-- `scr_end` puts the viewport on column `L / W * W` of the last line, while
`scr_down` stops at the first column `c` with `c + W ≥ L`. The two part when
`L` is a positive multiple of `W`: after `"xxxxxxxxxx"` in a window 10 wide,
`scr_end` shows column 10, a row past the end of the line, and `scr_home`
followed by `scr_down n` for every `n` stops at column 0. -/
theorem scrEnd_past_scrolling :
    ∃ scr, Reachable scr ∧ scr.width = 10 ∧ rowCount (byteRows scr.width) scr = 1 ∧
      (scrEnd scr).current = ⟨0, 10, 10⟩ ∧
      ∀ n : Int, (rowCount (byteRows scr.width) scr : Int) ≤ n → (scrDown (scrHome scr) n).current = ⟨0, 0, 10⟩ := by
  have add : scrAdd (scrNew 1 10) "xxxxxxxxxx".toList = some ⟨["xxxxxxxxxx".toList], ⟨0, 10, 10⟩, 1, 10⟩ := by
    decide
  refine ⟨_, .step (.scrAdd "xxxxxxxxxx".toList) (.scrNew 1 10) add, rfl, by decide, rfl, fun n _ => ?_⟩
  exact loop_stop (by decide) _

end Cgdb
