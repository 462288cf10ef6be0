import Cgdb.Scroller.Screen
import Cgdb.Scroller.Scroll
import Cgdb.Scroller.Transcript

/-! `scr_refresh` against the screen it should leave. The curses calls of the
drawing loop, run on the window of `Screen`, leave exactly the last `height`
rows of lines `0` to `current.r`, each line wrapped at the width into
`get_line_height` rows, with blank rows above line `0`. The loop draws
bottom-up; `Painted` is its invariant, kept by each pass of
`while(nlines <= height)`, and it holds while no line it draws runs past the
top of the window (`noLineCut`). With the transcript of `Transcript`, the
screen is the scroller's output itself; and it does not depend on where the
viewport stands inside line `current.r`. -/

namespace Cgdb

/-- A window row with nothing on it. -/
def blankRow (width : Nat) : List Char := List.replicate width ' '

/-- The `count` rows a text takes printed from the start of a row of a window
`width` wide: each row the next `width` bytes, blank after the text. -/
def wrapRows (width : Nat) (text : List Char) : Nat → List (List Char)
  | 0 => []
  | count + 1 =>
    (text.take width ++ List.replicate (width - (text.take width).length) ' ') ::
      wrapRows width (text.drop width) count

@[simp] theorem length_wrapRows (width : Nat) (text : List Char) (count : Nat) :
    (wrapRows width text count).length = count := by
  induction count generalizing text <;> simp [wrapRows, *]

theorem wrapRows_nil (width count : Nat) : wrapRows width [] count = List.replicate count (blankRow width) := by
  induction count <;> simp [wrapRows, blankRow, List.replicate_succ, *]

@[simp] theorem Window.height_print (w : Window) (text : List Char) : (w.print text).height = w.height := by
  induction text generalizing w with
  | nil => rfl
  | cons c cs ih => unfold Window.print; split <;> [split <;> simp [ih]; rfl]

@[simp] theorem Window.width_print (w : Window) (text : List Char) : (w.print text).width = w.width := by
  induction text generalizing w with
  | nil => rfl
  | cons c cs ih => unfold Window.print; split <;> [split <;> simp [ih]; rfl]

theorem Window.print_of_below {w : Window} (below : w.height ≤ w.row) (text : List Char) : w.print text = w := by
  cases text <;> simp [Window.print, Nat.not_lt.mpr below]

theorem Window.print_append (w : Window) (a b : List Char) : w.print (a ++ b) = (w.print a).print b := by
  induction a generalizing w with
  | nil => rfl
  | cons c cs ih =>
    simp only [List.cons_append, Window.print]
    split
    · exact ih _
    · exact (Window.print_of_below (by omega) b).symm

theorem Window.print_row (text : List Char) : ∀ {w : Window} (pre post : List (List Char)) (p : List Char),
    w.rows = pre ++ (p ++ List.replicate (w.width - p.length) ' ') :: post → w.row = pre.length →
    w.col = p.length → w.row < w.height → p.length < w.width → p.length + text.length ≤ w.width →
    w.print text = { w with
      rows := pre ++ (p ++ text ++ List.replicate (w.width - p.length - text.length) ' ') :: post
      row := w.row + (p.length + text.length) / w.width
      col := (p.length + text.length) % w.width } := by
  induction text with
  | nil =>
    intro w pre post p rows atRow atCol _ short _
    rw [Window.print, List.length_nil, Nat.add_zero, Nat.sub_zero, List.append_nil, Nat.div_eq_of_lt short,
      Nat.mod_eq_of_lt short, ← rows, ← atCol, Nat.add_zero]
  | cons x xs ih =>
    intro w pre post p rows atRow atCol inside short fits
    rw [List.length_cons] at fits
    have longer : (p ++ [x]).length = p.length + 1 := by rw [List.length_append, List.length_singleton]
    have cell : (w.rows.getD w.row []).set w.col x = (p ++ [x]) ++ List.replicate (w.width - (p ++ [x]).length) ' ' := by
      obtain ⟨n, hn⟩ : ∃ n, w.width - p.length = n + 1 := ⟨w.width - p.length - 1, by omega⟩
      rw [rows, atRow, List.getD_append_right _ _ _ _ (le_refl _), Nat.sub_self, List.getD_cons_zero, atCol, hn,
        List.replicate_succ, List.set_append_right _ _ (le_refl _), Nat.sub_self, List.set_cons_zero, longer,
        show w.width - (p.length + 1) = n by omega, List.append_assoc, List.singleton_append]
    have placed : w.rows.set w.row ((w.rows.getD w.row []).set w.col x) =
        pre ++ ((p ++ [x]) ++ List.replicate (w.width - (p ++ [x]).length) ' ') :: post := by
      rw [cell, rows, atRow, List.set_append_right _ _ (le_refl _), Nat.sub_self, List.set_cons_zero]
    rw [Window.print, if_pos inside]
    dsimp only
    split
    · rename_i more
      rw [placed, ih (w := ⟨w.height, w.width, pre ++ (p ++ [x] ++ List.replicate (w.width - (p ++ [x]).length) ' ') ::
          post, w.row, w.col + 1⟩) pre post (p ++ [x]) rfl atRow (by rw [longer, ← atCol]) inside (by dsimp only; omega)
          (by dsimp only; omega),
]
      dsimp only
      rw [longer, List.length_cons, show p.length + 1 + xs.length = p.length + (xs.length + 1) by omega,
        show w.width - (p.length + 1) - xs.length = w.width - p.length - (xs.length + 1) by omega]
      simp only [List.append_assoc, List.singleton_append, List.cons_append, List.nil_append]
    · obtain rfl : xs = [] := List.eq_nil_of_length_eq_zero (by omega)
      have full : p.length + 1 = w.width := by omega
      rw [placed]
      simp only [Window.print, List.length_append, List.length_singleton, List.length_cons, List.length_nil,
        List.append_assoc, List.singleton_append, full, Nat.div_self (by omega : 0 < w.width), Nat.mod_self]
      rw [show w.width - p.length - (0 + 1) = w.width - w.width by omega]

theorem Window.print_rows (count : Nat) : ∀ {w : Window} (pre post : List (List Char)) (text : List Char),
    w.rows = pre ++ List.replicate count (blankRow w.width) ++ post → w.row = pre.length → w.col = 0 →
    pre.length + count ≤ w.height → 0 < w.width → text.length ≤ count * w.width →
    (w.print text).rows = pre ++ wrapRows w.width text count ++ post := by
  induction count with
  | zero =>
    intro w pre post text rows _ _ _ _ fits
    obtain rfl : text = [] := List.eq_nil_of_length_eq_zero (by simpa using fits)
    rw [Window.print, rows]
    rfl
  | succ count ih =>
    intro w pre post text rows atRow atCol room hw fits
    have first := Window.print_row (text.take w.width) pre (List.replicate count (blankRow w.width) ++ post) []
      (by rw [rows, List.replicate_succ, blankRow, List.length_nil, Nat.sub_zero, List.nil_append, List.append_assoc,
        List.cons_append]) atRow atCol (by omega) hw (by simp)
    conv_lhs => rw [← List.take_append_drop w.width text, Window.print_append]
    by_cases rest : text.drop w.width = []
    · rw [rest, wrapRows, rest, wrapRows_nil, first]
      simp [Window.print]
    · have whole : (text.take w.width).length = w.width := by
        have := List.length_pos.mpr rest
        simp only [List.length_drop] at this
        simp only [List.length_take]
        omega
      rw [ih (w := w.print (text.take w.width)) (pre ++ [text.take w.width]) post (text.drop w.width)
        (by rw [first]; simp [whole]) (by rw [first]; simp [whole, atRow, Nat.div_self hw])
        (by rw [first]; simp [whole]) (by simp; omega) (by simpa using hw)
        (by simp only [List.length_drop, Window.width_print]; rw [Nat.succ_mul] at fits; omega)]
      simp [wrapRows, whole]

@[simp] theorem Window.run_nil (w : Window) : w.run [] = w := rfl

@[simp] theorem Window.run_cons (w : Window) (op : CanvasOp) (ops : List CanvasOp) :
    w.run (op :: ops) = (w.apply op).run ops := rfl

theorem Window.run_append (w : Window) (a b : List CanvasOp) : w.run (a ++ b) = (w.run a).run b :=
  List.foldl_append _ _ _ _

theorem Window.clear_at {w : Window} (pre post : List (List Char)) (x : List Char) (rows : w.rows = pre ++ x :: post)
    (inside : pre.length < w.height) (hw : 0 < w.width) :
    w.run [.move (pre.length : Int) 0, .clearToEol] =
      { w with rows := pre ++ blankRow w.width :: post, row := pre.length, col := 0 } := by
  simp [Window.run, Window.apply, inside, hw, rows, List.set_append_right, blankRow]

theorem Window.clear_above {w : Window} {k : Nat} (old below : List (List Char)) (rows : w.rows = old.take k ++ below)
    (long : k ≤ old.length) (room : k ≤ w.height) (pos : 0 < k) (hw : 0 < w.width) :
    (w.run [.move ((k - 1 : Nat) : Int) 0, .clearToEol]).rows = old.take (k - 1) ++ blankRow w.width :: below := by
  have inside : k - 1 < old.length := by omega
  have cut : old.take k = old.take (k - 1) ++ [old[k - 1]] := by
    conv_lhs => rw [show k = k - 1 + 1 by omega]
    rw [List.take_succ, List.getElem?_eq_getElem inside]
    rfl
  have shown : (old.take (k - 1)).length = k - 1 := by rw [List.length_take]; omega
  rw [show ((k - 1 : Nat) : Int) = ((old.take (k - 1)).length : Int) by rw [shown],
    Window.clear_at _ below old[k - 1] (by rw [rows, cut, List.append_assoc, List.singleton_append]) (by omega) hw]

theorem Window.run_clearRows (count : Nat) : ∀ {w : Window} (pre mid post : List (List Char)),
    w.rows = pre ++ mid ++ post → mid.length = count + 1 → pre.length + count < w.height → 0 < w.width →
    w.run (clearRows ((pre.length + count : Nat) : Int) (count + 1)) =
      { w with rows := pre ++ List.replicate (count + 1) (blankRow w.width) ++ post, row := pre.length, col := 0 } := by
  induction count with
  | zero =>
    intro w pre mid post rows size inside hw
    obtain ⟨x, rfl⟩ : ∃ x, mid = [x] := List.length_eq_one.mp size
    simpa [clearRows] using Window.clear_at pre post x (by simpa using rows) (by omega) hw
  | succ count ih =>
    intro w pre mid post rows size inside hw
    obtain ⟨x, mid, rfl⟩ := List.exists_cons_of_length_eq_add_one size
    rw [clearRows, Window.run_append,
      show ((pre.length + (count + 1) : Nat) : Int) = ((pre ++ [x]).length + count : Nat) by simp; omega,
      ih (pre ++ [x]) mid post (by simpa using rows) (by simpa using size) (by simp; omega) hw]
    rw [show ((pre ++ [x]).length + count : Nat) - ((count + 1 : Nat) : Int) = (pre.length : Int) by simp; omega]
    have above : pre.length < w.height := by omega
    simp [Window.run, Window.apply, hw, above, List.set_append_right, blankRow, List.replicate_succ]

theorem Window.run_printSegments (segs : List Segment) : ∀ (w : Window) (pairNo : Int) (total column : Nat),
    w.run (printSegments segs pairNo total column).2.2.2 = w.print (segs.flatMap (·.text)) := by
  induction segs with
  | nil => intro w _ _ _; rfl
  | cons seg segs ih =>
    intro w pairNo total column
    simp only [printSegments, List.flatMap_cons, Window.print_append]
    exact ih _ _ _ _

/-- The text `scr_refresh` prints for a line: its segments' texts in order. -/
def printedText (line : List Char) : List Char := (drawLine line).flatMap (·.text)

/-- The rows of a line on a window `width` wide: `get_line_height` rows holding
its printed text. -/
def lineRows (width : Nat) (line : List Char) : List (List Char) :=
  wrapRows width (printedText line) (drawnRows width line)

/-- The rows the lines `lines` take, each line `get_line_height` rows. -/
def rowsOf (width : Nat) (lines : List (List Char)) : Nat := (lines.map (drawnRows width)).sum

/-- The lines `scr_refresh` can draw: `0` to `current.r`. -/
def Scroller.shownLines (scr : Scroller) : List (List Char) := scr.buffer.take (scr.current.r + 1)

/-- The last `height` rows of `lines` on a window `width` wide: every line in
its rows, blank rows above the first. -/
def tailRows (height width : Nat) (lines : List (List Char)) : List (List Char) :=
  let rows := lines.flatMap (lineRows width)
  (List.replicate height (blankRow width) ++ rows).drop rows.length

/-- The screen a refresh should leave: the last `height` rows of the lines up to
`current.r`. -/
def visibleRows (scr : Scroller) : List (List Char) := tailRows scr.height scr.width scr.shownLines

/-- Lines taken bottom-up against `room` rows: while rows are left, the next
line fits in them. -/
def fitsRows : List Nat → Nat → Bool
  | [], _ => true
  | k :: ks, room => room == 0 || (decide (k ≤ room) && fitsRows ks (room - k))

theorem fitsRows_cons {k : Nat} {ks : List Nat} {room : Nat} (left : 0 < room) :
    fitsRows (k :: ks) room = (decide (k ≤ room) && fitsRows ks (room - k)) := by
  simp [fitsRows, Nat.pos_iff_ne_zero.mp left]

/-- No line that `scr_refresh` draws runs past the top of the window. -/
def Scroller.noLineCut (scr : Scroller) : Bool :=
  fitsRows (scr.shownLines.reverse.map (drawnRows scr.width)) scr.height

theorem length_printedText (line : List Char) : (printedText line).length = printedLength line := by
  simp [printedText, printedLength, List.length_flatMap, Function.comp_def]

theorem drawnRows_pos (line : List Char) {width : Nat} (hw : 0 < width) : 0 < drawnRows width line := by
  rw [drawnRows, lineHeight_eq line (by omega)]
  omega

theorem length_printedText_le (line : List Char) {width : Nat} (hw : 0 < width) :
    (printedText line).length ≤ drawnRows width line * width := by
  have rows : drawnRows width line = max 1 ((printedLength line + width - 1) / width) := by
    rw [drawnRows, lineHeight_eq line (by omega),
      show (printedLength line : Int) + width - 1 = ((printedLength line + width - 1 : Nat) : Int) by omega,
      ← Int.ofNat_ediv]
    omega
  have round := Nat.lt_div_mul_add (a := printedLength line + width - 1) hw
  calc (printedText line).length
      ≤ (printedLength line + width - 1) / width * width := by rw [length_printedText]; omega
    _ ≤ drawnRows width line * width := Nat.mul_le_mul_right _ (rows ▸ le_max_right _ _)

theorem Window.draw_line {w : Window} {width k : Nat} (line : List Char) (old below : List (List Char))
    (rows : w.rows = old.take k ++ below) (long : k ≤ old.length) (room : k ≤ w.height) (wide : w.width = width)
    (hw : 0 < width) (fits : drawnRows width line ≤ k) (pairNo : Int) (column : Nat) :
    ((w.run (clearRows ((k - 1 : Nat) : Int) (drawnRows width line))).run
      (printSegments (drawLine line) pairNo 0 column).2.2.2).rows =
        old.take (k - drawnRows width line) ++ (lineRows width line ++ below) := by
  have printable := length_printedText_le line hw
  subst wide
  obtain ⟨n, height⟩ : ∃ n, drawnRows w.width line = n + 1 :=
    ⟨_, (Nat.succ_pred_eq_of_pos (drawnRows_pos line hw)).symm⟩
  rw [height] at fits printable
  have cut : old.take k = old.take (k - (n + 1)) ++ (old.take k).drop (k - (n + 1)) := by
    conv_lhs => rw [← List.take_append_drop (k - (n + 1)) (old.take k)]
    rw [List.take_take, min_eq_left (by omega)]
  have shown : (old.take (k - (n + 1))).length = k - (n + 1) := by rw [List.length_take]; omega
  rw [lineRows, height, show k - 1 = (old.take (k - (n + 1))).length + n by omega,
    Window.run_clearRows n _ _ below (by rw [rows, ← cut]) (by rw [List.length_drop, List.length_take]; omega)
      (by omega) hw,
    Window.run_printSegments, show (drawLine line).flatMap (·.text) = printedText line from rfl,
    Window.print_rows (n + 1) (w := { w with rows := _, row := _, col := 0 }) _ below
      (printedText line) rfl rfl rfl (by dsimp only; omega) hw printable, List.append_assoc]

@[simp] theorem length_flatMap_lineRows (width : Nat) (lines : List (List Char)) :
    (lines.flatMap (lineRows width)).length = rowsOf width lines := by
  simp [rowsOf, lineRows, List.length_flatMap, Function.comp_def]

theorem flatMap_lineRows_split (width : Nat) (lines : List (List Char)) {i : Nat} (inside : i < lines.length) :
    lines.flatMap (lineRows width) = (lines.take i).flatMap (lineRows width) ++
      (lineRows width lines[i] ++ (lines.drop (i + 1)).flatMap (lineRows width)) := by
  conv_lhs => rw [← List.take_append_drop i lines, List.drop_eq_getElem_cons inside]
  rw [List.flatMap_append, List.flatMap_cons]

theorem rowsOf_take_succ (width : Nat) (lines : List (List Char)) {i : Nat} (inside : i < lines.length) :
    rowsOf width (lines.take (i + 1)) = rowsOf width (lines.take i) + drawnRows width lines[i] := by
  simp only [rowsOf, List.take_succ, List.getElem?_eq_getElem inside, Option.toList_some, List.map_append,
    List.map_singleton, List.sum_append, List.sum_singleton]

theorem rowsOf_split (width : Nat) (lines : List (List Char)) (n : Nat) :
    rowsOf width lines = rowsOf width (lines.take n) + rowsOf width (lines.drop n) := by
  conv_lhs => rw [← List.take_append_drop n lines]
  simp [rowsOf]

theorem visibleRows_drop (scr : Scroller) (k : Nat) :
    (visibleRows scr).drop k = (List.replicate scr.height (blankRow scr.width) ++
      scr.shownLines.flatMap (lineRows scr.width)).drop (rowsOf scr.width scr.shownLines + k) := by
  rw [visibleRows, tailRows, List.drop_drop, length_flatMap_lineRows]

theorem visibleRows_drop_line (scr : Scroller) {i used : Nat} (inside : i < scr.shownLines.length)
    (drawn : used + rowsOf scr.width (scr.shownLines.take (i + 1)) = rowsOf scr.width scr.shownLines)
    (room : used + drawnRows scr.width scr.shownLines[i] ≤ scr.height) :
    (visibleRows scr).drop (scr.height - used - drawnRows scr.width scr.shownLines[i]) =
      lineRows scr.width scr.shownLines[i] ++ (visibleRows scr).drop (scr.height - used) := by
  have total := rowsOf_split scr.width scr.shownLines (i + 1)
  have line := rowsOf_take_succ scr.width _ inside
  have above : rowsOf scr.width scr.shownLines + (scr.height - used - drawnRows scr.width scr.shownLines[i]) =
      (List.replicate scr.height (blankRow scr.width) ++ (scr.shownLines.take i).flatMap (lineRows scr.width)).length := by
    simp only [List.length_append, List.length_replicate, length_flatMap_lineRows]
    omega
  have below : rowsOf scr.width scr.shownLines + (scr.height - used) =
      (List.replicate scr.height (blankRow scr.width) ++ (scr.shownLines.take i).flatMap (lineRows scr.width) ++
        lineRows scr.width scr.shownLines[i]).length := by
    simp only [List.length_append, List.length_replicate, length_flatMap_lineRows, lineRows, length_wrapRows]
    omega
  rw [visibleRows_drop, visibleRows_drop, above, below, flatMap_lineRows_split _ _ inside, ← List.append_assoc,
    List.drop_left, ← List.append_assoc, List.drop_left]

theorem visibleRows_drop_blank (scr : Scroller) {used : Nat} (drawn : rowsOf scr.width scr.shownLines ≤ used)
    (more : used < scr.height) :
    (visibleRows scr).drop (scr.height - used - 1) = blankRow scr.width :: (visibleRows scr).drop (scr.height - used) := by
  rw [visibleRows_drop, visibleRows_drop, List.drop_append_of_le_length (by simp; omega),
    List.drop_append_of_le_length (by simp; omega), List.drop_replicate, List.drop_replicate,
    show scr.height - (rowsOf scr.width scr.shownLines + (scr.height - used - 1)) =
      scr.height - (rowsOf scr.width scr.shownLines + (scr.height - used)) + 1 by omega,
    List.replicate_succ, List.cons_append]

@[simp] theorem Window.height_apply (w : Window) (op : CanvasOp) : (w.apply op).height = w.height := by
  cases op <;> simp [Window.apply, apply_ite]

@[simp] theorem Window.width_apply (w : Window) (op : CanvasOp) : (w.apply op).width = w.width := by
  cases op <;> simp [Window.apply, apply_ite]

@[simp] theorem Window.height_run (ops : List CanvasOp) (w : Window) : (w.run ops).height = w.height := by
  induction ops generalizing w with
  | nil => rfl
  | cons op ops ih => exact (ih (w.apply op)).trans (w.height_apply op)

@[simp] theorem Window.width_run (ops : List CanvasOp) (w : Window) : (w.run ops).width = w.width := by
  induction ops generalizing w with
  | nil => rfl
  | cons op ops ih => exact (ih (w.apply op)).trans (w.width_apply op)

theorem Scroller.line_eq_shownLines (scr : Scroller) {i : Nat} (inside : i < scr.shownLines.length) :
    scr.line i = scr.shownLines[i] := by
  have stored : i < scr.buffer.length := by simp only [Scroller.shownLines, List.length_take] at inside; omega
  simp [Scroller.line, Scroller.shownLines, List.getD_eq_getElem?_getD, List.getElem?_eq_getElem stored]

/-- The drawing loop of `scr_refresh` after `used` rows from the bottom are
drawn, with lines `0` to `left - 1` still to draw: the rows drawn are the last
`used` of `visibleRows`, the rows above are as the window had them, and the
lines left fit in the rows left. -/
structure Painted (scr : Scroller) (win : Window) (d : Drawing) (used left : Nat) : Prop where
  nlines : d.nlines = used + 1
  row : d.row + 1 = left
  budget : used ≤ scr.height
  lines : left ≤ scr.shownLines.length
  drawn : 0 < left → used + rowsOf scr.width (scr.shownLines.take left) = rowsOf scr.width scr.shownLines
  blank : left = 0 → rowsOf scr.width scr.shownLines ≤ used
  fits : fitsRows ((scr.shownLines.take left).reverse.map (drawnRows scr.width)) (scr.height - used) = true
  shows : (win.run d.ops).rows = win.rows.take (scr.height - used) ++ (visibleRows scr).drop (scr.height - used)

section Loop

variable {scr : Scroller} {win : Window} (hw : 0 < scr.width) (height : win.height = scr.height)
  (width : win.width = scr.width) (size : win.rows.length = scr.height)

include hw height width size

theorem Painted.step_blank {d : Drawing} {used : Nat} (p : Painted scr win d used 0) (more : used < scr.height) :
    Painted scr win (refreshStep scr d) (used + 1) 0 := by
  have above : d.row < 0 := by have := p.row; omega
  have pass : refreshStep scr d =
      { d with nlines := d.nlines + 1, ops := d.ops ++ [.move (scr.height - d.nlines) 0, .clearToEol] } :=
    if_pos above
  have top : (scr.height : Int) - d.nlines = ((scr.height - used - 1 : Nat) : Int) := by rw [p.nlines]; omega
  rw [pass]
  refine ⟨by rw [p.nlines]; push_cast; ring, p.row, by omega, Nat.zero_le _, fun zero => absurd zero (lt_irrefl 0),
    fun _ => (p.blank rfl).trans (Nat.le_succ _), rfl, ?_⟩
  dsimp only
  rw [Window.run_append, top, Window.clear_above _ _ p.shows (by omega) (by rw [Window.height_run, height]; omega)
      (by omega) (by rw [Window.width_run, width]; exact hw),
    Window.width_run, width, ← Nat.sub_sub, visibleRows_drop_blank scr (p.blank rfl) more]

theorem Painted.step_line {d : Drawing} {used i : Nat} (p : Painted scr win d used (i + 1)) (more : used < scr.height) :
    Painted scr win (refreshStep scr d) (used + drawnRows scr.width (scr.line i)) i := by
  have inside : i < scr.shownLines.length := p.lines
  have notAbove : ¬ d.row < 0 := by have := p.row; omega
  rw [scr.line_eq_shownLines inside]
  obtain ⟨pairNo, cursorCol, column, pass⟩ : ∃ pairNo cursorCol column, refreshStep scr d =
      ⟨d.row - 1, d.nlines + drawnRows scr.width scr.shownLines[i], pairNo, cursorCol, column,
        d.ops ++ clearRows (scr.height - d.nlines) (drawnRows scr.width scr.shownLines[i]) ++
          (printSegments (drawLine scr.shownLines[i]) d.pairNo 0 d.column).2.2.2⟩ := by
    have atLine : d.row.toNat = i := by have := p.row; omega
    have pos := drawnRows_pos scr.shownLines[i] hw
    rw [drawnRows] at pos ⊢
    rw [refreshStep, if_neg notAbove, atLine, scr.line_eq_shownLines inside, Int.toNat_of_nonneg (by omega)]
    exact ⟨_, _, _, rfl⟩
  have fit := p.fits
  rw [List.take_succ, List.getElem?_eq_getElem inside] at fit
  simp only [Option.toList_some, List.reverse_append, List.reverse_singleton, List.singleton_append, List.map_cons,
    fitsRows_cons (Nat.sub_pos_of_lt more), Bool.and_eq_true, decide_eq_true_eq] at fit
  have drawn := p.drawn (Nat.succ_pos i)
  have succ := rowsOf_take_succ scr.width _ inside
  have top : (scr.height : Int) - d.nlines = ((scr.height - used - 1 : Nat) : Int) := by rw [p.nlines]; omega
  rw [pass]
  refine ⟨by rw [p.nlines]; push_cast; ring, by have := p.row; dsimp only; omega, by omega, by omega, fun _ => by omega,
    fun zero => by subst zero; have none : rowsOf scr.width (scr.shownLines.take 0) = 0 := rfl; omega,
    by rw [← Nat.sub_sub]; exact fit.2, ?_⟩
  dsimp only
  rw [Window.run_append, Window.run_append, top, Window.draw_line _ win.rows _ p.shows (by omega)
      (by rw [Window.height_run, height]; omega) (by rw [Window.width_run, width]) hw fit.1,
    ← Nat.sub_sub, visibleRows_drop_line scr inside (by omega) (by omega)]

/-- Every pass with rows left keeps the invariant and draws at least one more row. -/
theorem Painted.step {d : Drawing} {used left : Nat} (p : Painted scr win d used left) (more : used < scr.height) :
    ∃ used' left', used < used' ∧ Painted scr win (refreshStep scr d) used' left' := by
  cases left with
  | zero => exact ⟨_, _, Nat.lt_succ_self used, p.step_blank hw height width size more⟩
  | succ i =>
    have inside : i < scr.shownLines.length := p.lines
    exact ⟨_, _, Nat.lt_add_of_pos_right (scr.line_eq_shownLines inside ▸ drawnRows_pos _ hw),
      p.step_line hw height width size more⟩

theorem Painted.loop (fuel : Nat) : ∀ {d : Drawing} {used left : Nat}, Painted scr win d used left →
    scr.height ≤ fuel + used → ∃ left', Painted scr win (refreshLoop scr fuel d) scr.height left' := by
  induction fuel with
  | zero =>
    intro d used left p enough
    obtain rfl : used = scr.height := by have := p.budget; omega
    exact ⟨left, p⟩
  | succ fuel ih =>
    intro d used left p enough
    by_cases more : used < scr.height
    · obtain ⟨used', left', drew, p'⟩ := p.step hw height width size more
      rw [refreshLoop, if_pos (by rw [p.nlines]; omega)]
      exact ih p' (by omega)
    · obtain rfl : used = scr.height := by have := p.budget; omega
      rw [refreshLoop, if_neg (by rw [p.nlines]; omega)]
      exact ⟨left, p⟩

end Loop

@[simp] theorem length_visibleRows (scr : Scroller) : (visibleRows scr).length = scr.height := by
  simp [visibleRows, tailRows]

theorem Painted.start {scr : Scroller} {win : Window} (row : scr.current.r < scr.buffer.length)
    (uncut : scr.noLineCut = true) (size : win.rows.length = scr.height) :
    Painted scr win ⟨scr.current.r, 1, 100, 0, snap scr.current.c scr.width, []⟩ 0 (scr.current.r + 1) := by
  have lines : scr.shownLines.length = scr.current.r + 1 := by simp [Scroller.shownLines]; omega
  exact
    { nlines := rfl
      row := by push_cast; rfl
      budget := Nat.zero_le _
      lines := lines.ge
      drawn := fun _ => by rw [← lines, List.take_length, Nat.zero_add]
      blank := fun zero => absurd zero (Nat.succ_ne_zero _)
      fits := by rw [← lines, List.take_length]; exact uncut
      shows := by
        rw [Nat.sub_zero, List.take_of_length_le size.le,
          List.drop_of_length_le (length_visibleRows scr).le, List.append_nil]
        rfl }

theorem rows_scrRefresh (scr : Scroller) (focus : Bool) (win : Window) :
    (win.run (scrRefresh scr focus).2).rows =
      (win.run (refreshLoop scr scr.height ⟨scr.current.r, 1, 100, 0, snap scr.current.c scr.width, []⟩).ops).rows := by
  rw [scrRefresh]
  dsimp only
  rw [Window.run_append, Window.run_append]
  split <;> simp [Window.apply, apply_ite]

/-- `scr_refresh` on a window of the scroller's size: when no line it draws runs
past the top, the window shows afterwards exactly the last `height` rows of
lines `0` to `current.r`, each line wrapped at the width into `get_line_height`
rows, with blank rows above line `0`, whatever it showed before. -/
theorem scrRefresh_draws_visibleRows (scr : Scroller) (focus : Bool) (hw : 0 < scr.width)
    (row : scr.current.r < scr.buffer.length) (uncut : scr.noLineCut = true) (win : Window)
    (height : win.height = scr.height) (width : win.width = scr.width) (size : win.rows.length = scr.height) :
    (win.run (scrRefresh scr focus).2).rows = visibleRows scr := by
  obtain ⟨_, painted⟩ := (Painted.start row uncut size).loop hw height width size scr.height (by omega)
  rw [rows_scrRefresh, painted.shows, Nat.sub_self, List.take_zero, List.drop_zero, List.nil_append]

theorem scrRefresh_draws_visibleRows_wrapped :
    Reachable ⟨["ab".toList, "cdefgh".toList], ⟨1, 4, 6⟩, 3, 4⟩ ∧
      0 < 4 ∧ 1 < ["ab".toList, "cdefgh".toList].length ∧
      Scroller.noLineCut ⟨["ab".toList, "cdefgh".toList], ⟨1, 4, 6⟩, 3, 4⟩ = true ∧
      (Window.blank 3 4).height = 3 ∧ (Window.blank 3 4).width = 4 ∧ (Window.blank 3 4).rows.length = 3 ∧
      ((Window.blank 3 4).run (scrRefresh ⟨["ab".toList, "cdefgh".toList], ⟨1, 4, 6⟩, 3, 4⟩ true).2).rows =
        visibleRows ⟨["ab".toList, "cdefgh".toList], ⟨1, 4, 6⟩, 3, 4⟩ ∧
      visibleRows ⟨["ab".toList, "cdefgh".toList], ⟨1, 4, 6⟩, 3, 4⟩ = ["ab  ".toList, "cdef".toList, "gh  ".toList] := by
  have add : scrAdd (scrNew 3 4) "ab\ncdefgh".toList = some ⟨["ab".toList, "cdefgh".toList], ⟨1, 4, 6⟩, 3, 4⟩ := by
    decide
  exact ⟨.step (.scrAdd "ab\ncdefgh".toList) (.scrNew 3 4) add, by decide, by decide, by decide, rfl, rfl, by decide,
    scrRefresh_draws_visibleRows _ true (by decide) (by decide) (by decide) _ rfl rfl (by decide), by decide⟩

theorem Transcript.buffer_eq {scr : Scroller} {text : List Char} (t : Transcript scr text) :
    scr.buffer = text.splitOn '\n' := by
  rw [← t.joined, joinLines_eq_intercalate,
    List.splitOn_intercalate _ _ (fun l mem newline => absurd (t.printable l mem _ newline) (by decide)) t.nonempty]

/-- From `scr_new`, after any run whose output is printable bytes and newlines,
`scr_refresh` on a window of the scroller's size shows the output itself: the
last `height` rows of its lines up to `current.r`, the lines split at the
newlines and each wrapped at the width, when no line drawn runs past the top. -/
theorem scrRefresh_shows_output (height width : Nat) (ops : List Op)
    (plain : ∀ op ∈ ops, ∀ c ∈ op.output, isprint c ∨ c = '\n') {scr : Scroller}
    (run : ops.foldlM applyOp (scrNew height width) = some scr) (hw : 0 < scr.width) (uncut : scr.noLineCut = true)
    (focus : Bool) (win : Window) (wh : win.height = scr.height) (ww : win.width = scr.width)
    (size : win.rows.length = scr.height) :
    (win.run (scrRefresh scr focus).2).rows =
      tailRows scr.height scr.width (((ops.flatMap Op.output).splitOn '\n').take (scr.current.r + 1)) := by
  obtain ⟨_, run', t⟩ := (Transcript.scrNew height width).run ops plain
  rw [List.nil_append, Option.some_inj.mp (run'.symm.trans run)] at t
  obtain ⟨_, painted⟩ := (Painted.start t.row uncut size).loop hw wh ww size scr.height (by omega)
  rw [rows_scrRefresh, painted.shows, Nat.sub_self, List.take_zero, List.drop_zero, List.nil_append, visibleRows,
    Scroller.shownLines, t.buffer_eq]

theorem scrRefresh_shows_output_session :
    (∀ op ∈ [Op.scrAdd "(gdb) ".toList, .scrAdd "run\nok".toList], ∀ c ∈ op.output, isprint c ∨ c = '\n') ∧
      [Op.scrAdd "(gdb) ".toList, .scrAdd "run\nok".toList].foldlM applyOp (scrNew 3 5) =
        some ⟨["(gdb) run".toList, "ok".toList], ⟨1, 0, 2⟩, 3, 5⟩ ∧
      0 < 5 ∧ Scroller.noLineCut ⟨["(gdb) run".toList, "ok".toList], ⟨1, 0, 2⟩, 3, 5⟩ = true ∧
      (Window.blank 3 5).height = 3 ∧ (Window.blank 3 5).width = 5 ∧ (Window.blank 3 5).rows.length = 3 ∧
      ((Window.blank 3 5).run (scrRefresh ⟨["(gdb) run".toList, "ok".toList], ⟨1, 0, 2⟩, 3, 5⟩ true).2).rows =
        tailRows 3 5 (("(gdb) run\nok".toList.splitOn '\n').take 2) ∧
      tailRows 3 5 (("(gdb) run\nok".toList.splitOn '\n').take 2) = ["(gdb)".toList, " run ".toList, "ok   ".toList] :=
  ⟨by decide, by decide, by decide, by decide, rfl, rfl, by decide,
    scrRefresh_shows_output 3 5 [.scrAdd "(gdb) ".toList, .scrAdd "run\nok".toList] (by decide) (by decide)
      (by decide) (by decide) true _ rfl rfl (by decide),
    by decide⟩

/-- The variables of the drawing loop its calls depend on. `column` and
`cursorCol` are written by the loop but decide none of its calls. -/
def Drawing.calls (d : Drawing) : Int × Int × Int × List CanvasOp := (d.row, d.nlines, d.pairNo, d.ops)

theorem printSegments_column (segs : List Segment) (pairNo : Int) (total column column' : Nat) :
    (printSegments segs pairNo total column).1 = (printSegments segs pairNo total column').1 ∧
      (printSegments segs pairNo total column).2.2.2 = (printSegments segs pairNo total column').2.2.2 := by
  cases segs <;> exact ⟨rfl, rfl⟩

theorem calls_refreshStep (scr : Scroller) {d d' : Drawing} (same : d.calls = d'.calls) :
    (refreshStep scr d).calls = (refreshStep scr d').calls := by
  obtain ⟨row, nlines, pairNo, ops⟩ : d.row = d'.row ∧ d.nlines = d'.nlines ∧ d.pairNo = d'.pairNo ∧ d.ops = d'.ops := by
    simpa [Drawing.calls] using same
  have segments := printSegments_column (drawLine (scr.line d.row.toNat)) d.pairNo 0 d.column d'.column
  unfold refreshStep
  by_cases above : d.row < 0
  · simp [Drawing.calls, above, ← row, nlines, pairNo, ops]
  · simp [Drawing.calls, above, ← row, nlines, ← pairNo, ops, segments.1, segments.2]

theorem calls_refreshLoop (scr : Scroller) (fuel : Nat) : ∀ {d d' : Drawing}, d.calls = d'.calls →
    (refreshLoop scr fuel d).calls = (refreshLoop scr fuel d').calls := by
  induction fuel with
  | zero => intro d d' same; exact same
  | succ fuel ih =>
    intro d d' same
    have nlines : d.nlines = d'.nlines := congrArg (·.2.1) same
    rw [refreshLoop, refreshLoop, nlines]
    split
    · exact ih (calls_refreshStep scr same)
    · exact same

theorem refreshLoop_current (scr : Scroller) (cur : Cursor) (fuel : Nat) :
    ∀ d, refreshLoop { scr with current := cur } fuel d = refreshLoop scr fuel d := by
  induction fuel with
  | zero => intro d; rfl
  | succ fuel ih => intro d; simp only [refreshLoop]; split <;> [exact ih _; rfl]

/-- What the window shows after `scr_refresh` depends on the buffer, on
`current.r` and on the window size only: where the viewport stands inside line
`current.r` (`current.c`, `current.pos`, which `scr_up` and `scr_down` move row
by row) and `focus` change none of its rows, whatever the window showed. -/
theorem scrRefresh_screen_ignores_column (scr : Scroller) (cur : Cursor) (same : cur.r = scr.current.r)
    (focus focus' : Bool) (win : Window) :
    (win.run (scrRefresh { scr with current := cur } focus').2).rows = (win.run (scrRefresh scr focus).2).rows := by
  rw [rows_scrRefresh, rows_scrRefresh]
  dsimp only
  rw [refreshLoop_current]
  exact congrArg (fun ops => (win.run ops).rows)
    (congrArg (·.2.2.2) (calls_refreshLoop scr scr.height (by simp [Drawing.calls, same])))

theorem scrRefresh_screen_ignores_column_scrUp :
    (scrUp ⟨["ab".toList, "cdefgh".toList], ⟨1, 4, 6⟩, 3, 4⟩ 1).current = ⟨1, 0, 6⟩ ∧
      ((Window.blank 3 4).run (scrRefresh (scrUp ⟨["ab".toList, "cdefgh".toList], ⟨1, 4, 6⟩, 3, 4⟩ 1) true).2).rows =
        ((Window.blank 3 4).run (scrRefresh ⟨["ab".toList, "cdefgh".toList], ⟨1, 4, 6⟩, 3, 4⟩ false).2).rows :=
  ⟨by decide, scrRefresh_screen_ignores_column _ _ (by decide) false true _⟩

end Cgdb
