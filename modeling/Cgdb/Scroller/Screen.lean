import Cgdb.Scroller.Transcript

/-! What `scr_refresh` puts on the screen. The curses calls it makes
(`CanvasOp`) are run on a window of `height` rows of `width` cells, where
`wmove` outside the window fails and leaves the cursor where it was and
printing wraps at the width.

Two things the drawing loop does not bound: the color pairs, one per segment
and so one per `[` of the lines drawn, and the rows a line is printed into.
When a line is taller than the rows left above the lines already drawn, the
`wmove` to its first row fails and the line is printed from the row the
cursor stopped on, over the lines below it. -/

namespace Cgdb

theorem codeStep_bracket (t : List Char) : codeStep ('[' :: t) = (0, '[' :: t) := by
  simp [codeStep, strtol, strtolSign, isspace, isdigit]

theorem refreshCodes_bracket (t : List Char) : refreshCodes ('[' :: t) = ((0, 0), '[' :: t) := by
  simp [refreshCodes, codeStep_bracket, toCInt]

theorem segmentLoop_brackets (k : Nat) : ∀ fuel, k ≤ fuel →
    segmentLoop fuel (List.replicate k '[') = List.replicate k ⟨['['], 0, -1, -1⟩ := by
  induction k with
  | zero => intro fuel _; exact segmentLoop_nil fuel
  | succ k ih =>
    intro fuel hk
    obtain ⟨f, rfl⟩ : ∃ f, fuel = f + 1 := ⟨fuel - 1, by omega⟩
    have stays : (List.replicate k '[').dropWhile (· != '[') = List.replicate k '[' := by
      cases k <;> simp [List.replicate_succ, List.dropWhile_cons]
    rw [List.replicate_succ, segmentLoop, stays, ih f (by omega), List.replicate_succ]
    congr 1
    simp only [↓reduceIte]
    split
    · rename_i codes
      cases k
      · simp [refreshCodes] at codes
      · simp [List.replicate_succ, refreshCodes_bracket] at codes
    · simp

theorem drawLine_brackets (k : Nat) :
    drawLine (List.replicate k '[') = List.replicate k ⟨['['], 0, -1, -1⟩ :=
  segmentLoop_brackets k _ (by simp)

theorem initPair_mem_printSegments {segs : List Segment} {k : Nat} (hk : k < segs.length) (pairNo : Int)
    (total column : Nat) :
    CanvasOp.initPair (pairNo + k + 1) segs[k].foreground segs[k].background ∈
      (printSegments segs pairNo total column).2.2.2 := by
  induction segs generalizing k pairNo total column with
  | nil => simp at hk
  | cons seg segs ih =>
    cases k with
    | zero => simp [printSegments]
    | succ k =>
      have := ih (k := k) (by simpa using hk) (pairNo + 1) (total + seg.text.length) (total + seg.text.length)
      simp only [printSegments, List.mem_cons]
      right; right
      simpa [Int.add_assoc, Int.add_comm 1] using this

theorem segments_plain {buf : List Char} (plain : '\n' ∉ buf) : segments buf = (buf, []) := by
  induction buf with
  | nil => rfl
  | cons c cs ih =>
    have nl : c ≠ '\n' := fun h => plain (h ▸ List.mem_cons_self _ _)
    simp [segments, nl, ih fun h => plain (List.mem_cons_of_mem _ h)]

theorem scrAdd_new_line (height width : Nat) {line : List Char} (printable : ∀ c ∈ line, isprint c)
    (nonempty : line ≠ []) :
    scrAdd (scrNew height width) line =
      some ⟨[line], ⟨0, line.length / width * width, line.length⟩, height, width⟩ := by
  have nl : '\n' ∉ line := fun h => absurd (printable _ h) (by decide)
  have fed : feedLine [] 0 line = (line, line.length) := by
    simpa using feedLine_at_end ([] : List Char) printable
  rw [scrAdd_eq line (Wf.scrNew height width)]
  simp [Scroller.addText, segments_plain nl, Scroller.feedFirst, List.length_pos.mpr nonempty,
    Scroller.feed, scrNew, Scroller.lastLine, Scroller.line, fed, scrEnd]

theorem initPair_mem_scrRefresh_brackets {k j : Nat} (hj : j < k) (c pos width : Nat) (focus : Bool) :
    CanvasOp.initPair (100 + j + 1) (-1) (-1) ∈
      (scrRefresh ⟨[List.replicate k '['], ⟨0, c, pos⟩, 1, width⟩ focus).2 := by
  have pair := initPair_mem_printSegments (k := j)
    (show j < (drawLine (List.replicate k '[')).length by rw [drawLine_brackets, List.length_replicate]; exact hj)
    100 0 (snap c width)
  simp only [drawLine_brackets, List.getElem_replicate] at pair
  simp only [scrRefresh, refreshLoop, refreshStep, Nat.cast_one, Nat.cast_zero, le_refl, lt_irrefl,
    ↓reduceIte, Int.toNat_zero, Scroller.line, List.getD_cons_zero, drawLine_brackets, List.mem_append]
  exact .inl (.inl (.inr pair))

/-- `pair_no` goes up once per segment and every `[` starts one, format
sequence or not, so the pairs follow the buffer and not the window: a line of
156 `[` in a window of one row makes `scr_refresh` call `init_pair(256, -1, -1)`. -/
theorem scrRefresh_pair_past_255 :
    ∃ scr, Reachable scr ∧ ∀ focus, CanvasOp.initPair 256 (-1) (-1) ∈ (scrRefresh scr focus).2 := by
  have add := scrAdd_new_line 1 80
    (show ∀ c ∈ List.replicate 156 '[', isprint c from fun c mem => by rw [List.eq_of_mem_replicate mem]; decide)
    (by decide)
  exact ⟨_, .step (.scrAdd (List.replicate 156 '[')) (.scrNew 1 80) add,
    initPair_mem_scrRefresh_brackets (j := 155) (by decide) _ _ _⟩

/-- Modelled from the spec: the curses window, `height` rows of `width` cells,
and its cursor. -/
structure Window where
  height : Nat
  width : Nat
  rows : List (List Char)
  row : Nat
  col : Nat
  deriving DecidableEq, Repr

/-- Modelled from the spec: a blank window, the cursor at its origin. -/
def Window.blank (height width : Nat) : Window :=
  ⟨height, width, List.replicate height (List.replicate width ' '), 0, 0⟩

/-- Modelled from the spec: `waddch` for each character of `text`. The
character goes under the cursor, which moves right and wraps to the next row at
the width; past the last row the rest is dropped. -/
def Window.print (w : Window) : List Char → Window
  | [] => w
  | c :: cs =>
    if w.row < w.height then
      let rows := w.rows.set w.row ((w.rows.getD w.row []).set w.col c)
      let next : Window :=
        if w.col + 1 < w.width then { w with rows := rows, col := w.col + 1 }
        else { w with rows := rows, row := w.row + 1, col := 0 }
      next.print cs
    else w

/-- Modelled from the spec: one curses call. `wmove` outside the window fails
and leaves the cursor where it was; `wclrtoeol` blanks the cursor's row from the
cursor on. -/
def Window.apply (w : Window) : CanvasOp → Window
  | .move row col =>
    if 0 ≤ row ∧ row < w.height ∧ 0 ≤ col ∧ col < w.width then { w with row := row.toNat, col := col.toNat }
    else w
  | .clearToEol =>
    { w with rows := w.rows.set w.row ((w.rows.getD w.row []).take w.col ++ List.replicate (w.width - w.col) ' ') }
  | .print _ _ text => w.print text
  | .initPair .. | .cursorVisible _ | .refresh => w

def Window.run (w : Window) (ops : List CanvasOp) : Window := ops.foldl Window.apply w

/-- A line taller than the rows left above the lines already drawn. In a window
of 2 rows by 4 columns `"b"` takes row 1, and `"aaaaaaaaaaaa"`, three rows
high, is left row 0. The `wmove`s to rows -1 and -2 fail, the cursor stays on
row 0, and the line is printed from there on over row 1: the bottom row shows
`"aaaa"`, not the last row of line `current.r`. -/
theorem scrRefresh_overwrites_lower_line :
    ∃ scr, Reachable scr ∧ scr.buffer = ["aaaaaaaaaaaa".toList, "b".toList] ∧ scr.current.r = 1 ∧
      ((Window.blank 2 4).run (scrRefresh scr false).2).rows = ["aaaa".toList, "aaaa".toList] := by
  have add : scrAdd (scrNew 2 4) "aaaaaaaaaaaa\nb".toList =
      some ⟨["aaaaaaaaaaaa".toList, "b".toList], ⟨1, 0, 1⟩, 2, 4⟩ := by decide
  exact ⟨_, .step (.scrAdd "aaaaaaaaaaaa\nb".toList) (.scrNew 2 4) add, rfl, rfl, by decide⟩

end Cgdb
