import Cgdb.Scroller.Format

/-! `scr_refresh`, which draws the buffer bottom-up from line `current.r`, and the
runs of the scroller: every state `scr_new` and the operations of `scroller.c`
reach. The drawing loop stores each segment's running length in
`scr->current.c`, so a refresh leaves the viewport column wherever the last line
it drew ended. -/

namespace Cgdb

/-- The curses calls `scr_refresh` makes on `scr->win`. `print` stands for
`wattron(COLOR_PAIR(pair) | attributes); wprintw(text); wattroff(...)`. -/
inductive CanvasOp
  | move (row col : Int)
  | clearToEol
  | initPair (pair foreground background : Int)
  | print (pair attributes : Int) (text : List Char)
  | cursorVisible (visible : Bool)
  | refresh
  deriving DecidableEq, Repr

/-- The variables of `scr_refresh`'s drawing loop, with `column` for
`scr->current.c` and the calls made so far. -/
structure Drawing where
  row : Int
  nlines : Int
  pairNo : Int
  cursorCol : Int
  column : Nat
  ops : List CanvasOp
  deriving DecidableEq, Repr

/-- The segment loop for one line: `init_pair(++pair_no, ...)`, the print, and
`total_length += segment_length; scr->current.c = total_length;`. Returns the
pair counter, `total_length`, `scr->current.c` and the calls. -/
def printSegments : List Segment → Int → Nat → Nat → Int × Nat × Nat × List CanvasOp
  | [], pairNo, total, column => (pairNo, total, column, [])
  | seg :: segs, pairNo, total, _ =>
    let rest := printSegments segs (pairNo + 1) (total + seg.text.length) (total + seg.text.length)
    (rest.1, rest.2.1, rest.2.2.1,
      .initPair (pairNo + 1) seg.foreground seg.background ::
        .print (pairNo + 1) seg.attributes seg.text :: rest.2.2.2)

/-- The `wmove`/`wclrtoeol` pairs clearing `count` rows upwards from `top`. -/
def clearRows (top : Int) : Nat → List CanvasOp
  | 0 => []
  | k + 1 => clearRows top k ++ [.move (top - k) 0, .clearToEol]

/-- One pass of `while(nlines <= height)`. -/
def refreshStep (scr : Scroller) (d : Drawing) : Drawing :=
  if d.row < 0 then
    { d with nlines := d.nlines + 1, ops := d.ops ++ [.move (scr.height - d.nlines) 0, .clearToEol] }
  else
    let line := scr.line d.row.toNat
    let lineHeight := getLineHeight line scr.width
    let printed := printSegments (drawLine line) d.pairNo 0 d.column
    { row := d.row - 1
      nlines := d.nlines + lineHeight
      pairNo := printed.1
      cursorCol := if d.nlines = 1 then (printed.2.1 : Int) % scr.width else d.cursorCol
      column := printed.2.2.1
      ops := d.ops ++ clearRows (scr.height - d.nlines) lineHeight.toNat ++ printed.2.2.2 }

/-- The drawing loop, `fuel` passes at most; each pass raises `nlines`. -/
def refreshLoop (scr : Scroller) : Nat → Drawing → Drawing
  | 0, d => d
  | fuel + 1, d => if d.nlines ≤ scr.height then refreshLoop scr fuel (refreshStep scr d) else d

/-- `scr_refresh(scr, focus)`: the new state and the curses calls. The cursor
test reads `strlen(scr->buffer[scr->current.r] + scr->current.c)`. -/
def scrRefresh (scr : Scroller) (focus : Bool) : Scroller × List CanvasOp :=
  let d := refreshLoop scr scr.height
    ⟨scr.current.r, 1, 100, 0, snap scr.current.c scr.width, []⟩
  let length := (scr.line scr.current.r).length - d.column
  let cursor :=
    if focus ∧ scr.current.r = scr.buffer.length - 1 ∧ length ≤ scr.width then
      [.cursorVisible true, .move (scr.height - 1) (min (scr.current.pos : Int) d.cursorCol)]
    else [.cursorVisible false]
  ({ scr with current := { scr.current with c := d.column } }, d.ops ++ cursor ++ [.refresh])

/-- The operations of `scroller.c` a caller can apply to a scroller. -/
inductive Op
  | scrAdd (buf : List Char)
  | scrUp (nlines : Int)
  | scrDown (nlines : Int)
  | scrHome
  | scrEnd
  | scrRefresh (focus : Bool)
  | scrMove (height width : Nat)

def applyOp (scr : Scroller) : Op → Option Scroller
  | .scrAdd buf => scrAdd scr buf
  | .scrUp n => some (scrUp scr n)
  | .scrDown n => some (scrDown scr n)
  | .scrHome => some (scrHome scr)
  | .scrEnd => some (scrEnd scr)
  | .scrRefresh focus => some (scrRefresh scr focus).1
  | .scrMove height width => some (scrMove scr height width)

/-- The states reachable from `scr_new(height, width)`. -/
inductive Reachable : Scroller → Prop
  | scrNew (height width : Nat) : Reachable (scrNew height width)
  | step {scr scr' : Scroller} (op : Op) : Reachable scr → applyOp scr op = some scr' → Reachable scr'

theorem scrRefresh_buffer (scr : Scroller) (focus : Bool) :
    (scrRefresh scr focus).1 = { scr with current := { scr.current with
      c := (scrRefresh scr focus).1.current.c } } := rfl

theorem Wf.scrRefresh {scr : Scroller} (focus : Bool) (wf : Wf scr) : Wf (scrRefresh scr focus).1 :=
  { wf with }

theorem Wf.applyOp {scr scr' : Scroller} {op : Op} (wf : Wf scr) (h : applyOp scr op = some scr') :
    Wf scr' := by
  cases op <;> simp only [Cgdb.applyOp, Option.some_inj] at h
  · rename_i buf
    rw [scrAdd_eq buf wf, Option.some_inj] at h
    exact h ▸ (Inv.scrEnd (wf.addText buf)).toWf
  all_goals subst h
  · exact wf.scrUp _
  · exact wf.scrDown _
  · exact (Inv.scrHome wf).toWf
  · exact (Inv.scrEnd wf).toWf
  · exact wf.scrRefresh _
  · exact { wf with }

theorem Wf.scrNew (height width : Nat) : Wf (scrNew height width) where
  nonempty := by simp [Cgdb.scrNew]
  row := by simp [Cgdb.scrNew]
  caret := by simp [Cgdb.scrNew, Scroller.lastLine, Scroller.line]
  printable := by simp [Cgdb.scrNew]

theorem reachable_wf {scr : Scroller} (h : Reachable scr) : Wf scr := by
  induction h with
  | scrNew height width => exact Wf.scrNew height width
  | step op _ hs ih => exact ih.applyOp hs

/-- Every reachable state keeps the caret inside the last line, which is what
`parse` needs: every `parse` that `scr_add` runs writes only inside the
`length + 1` bytes it allocates (a write past them is `none` in `store`), so
`scr_add` returns for every input, and the caret is inside the last line again. -/
theorem scrAdd_stays_in_bounds {scr : Scroller} (reach : Reachable scr) (buf : List Char) :
    scr.current.pos ≤ scr.lastLine.length ∧
      ∃ scr', scrAdd scr buf = some scr' ∧ scr'.current.pos ≤ scr'.lastLine.length := by
  have wf := reachable_wf reach
  exact ⟨wf.caret, _, scrAdd_eq buf wf, (Inv.scrAdd wf (scrAdd_eq buf wf)).caret⟩

theorem scrAdd_stays_in_bounds_tab :
    Reachable (scrNew 1 10) ∧ (scrNew 1 10).current.pos ≤ (scrNew 1 10).lastLine.length ∧
      ∃ scr', scrAdd (scrNew 1 10) "a\tb\x08\rc".toList = some scr' ∧
        scr'.current.pos ≤ scr'.lastLine.length :=
  ⟨.scrNew 1 10, scrAdd_stays_in_bounds (.scrNew 1 10) _⟩

/-- The operations that neither draw nor resize the window. -/
def Op.keepsView : Op → Bool
  | .scrRefresh _ | .scrMove _ _ => false
  | _ => true

theorem Inv.applyOp {scr scr' : Scroller} {op : Op} (inv : Inv scr) (keeps : op.keepsView)
    (h : applyOp scr op = some scr') : Inv scr' := by
  cases op <;> simp only [Cgdb.applyOp, Option.some_inj, Op.keepsView, Bool.false_eq_true] at h keeps
  · exact Inv.scrAdd inv.toWf h
  all_goals subst h
  · exact inv.scrUp _
  · exact inv.scrDown _
  · exact Inv.scrHome inv.toWf
  · exact Inv.scrEnd inv.toWf

theorem Inv.scrNew (height width : Nat) : Inv (scrNew height width) where
  toWf := Wf.scrNew height width
  column := Nat.dvd_zero _
  within := Nat.zero_le _

theorem Inv.run {scr scr' : Scroller} (ops : List Op) (keeps : ∀ op ∈ ops, op.keepsView)
    (inv : Inv scr) (h : ops.foldlM Cgdb.applyOp scr = some scr') : Inv scr' := by
  induction ops generalizing scr with
  | nil => exact Option.some_inj.mp h ▸ inv
  | cons op ops ih =>
    rw [List.foldlM_cons, Option.bind_eq_bind, Option.bind_eq_some] at h
    obtain ⟨next, hnext, hrest⟩ := h
    exact ih (fun op' mem => keeps op' (List.mem_cons_of_mem _ mem))
      (inv.applyOp (keeps op (List.mem_cons_self _ _)) hnext) hrest

/-- Without `scr_refresh` the viewport stays well formed: every run of `scr_add`,
`scr_up`, `scr_down`, `scr_home` and `scr_end` from `scr_new` keeps `Inv`. -/
theorem inv_of_run {scr : Scroller} {height width : Nat} (ops : List Op)
    (keeps : ∀ op ∈ ops, op.keepsView) (run : ops.foldlM applyOp (scrNew height width) = some scr) :
    Inv scr :=
  Inv.run ops keeps (Inv.scrNew height width) run

theorem inv_of_run_scrolls :
    (∀ op ∈ [Op.scrAdd "abc\ndefg".toList, .scrUp 1, .scrEnd], op.keepsView) ∧
      Inv ⟨["abc".toList, "defg".toList], ⟨1, 4, 4⟩, 1, 2⟩ :=
  ⟨by decide, @inv_of_run _ 1 2 [.scrAdd "abc\ndefg".toList, .scrUp 1, .scrEnd]
    (by decide) (by decide)⟩

/-- `scr_refresh` stores the printed length of the last line it drew as the
viewport column: after `"xxxxxxxxxx\n"` in a 2 by 20 window the column becomes
10, no multiple of 20 and past the end of the empty line 1. -/
theorem scrRefresh_breaks_viewport :
    ∃ scr, scrAdd (scrNew 2 20) "xxxxxxxxxx\n".toList = some scr ∧ Inv scr ∧
      (scrRefresh scr false).1.current = ⟨1, 10, 0⟩ ∧ ¬ Inv (scrRefresh scr false).1 := by
  have add : scrAdd (scrNew 2 20) "xxxxxxxxxx\n".toList =
      some ⟨["xxxxxxxxxx".toList, []], ⟨1, 0, 0⟩, 2, 20⟩ := by decide
  refine ⟨_, add, Inv.scrAdd (Wf.scrNew 2 20) add, by decide, fun inv => ?_⟩
  have column := inv.column
  revert column
  decide

/-- Line 435 reads `strlen(buffer[current.r] + current.c)` with the `current.c`
the drawing loop left: the printed length of the topmost line it drew, not of
line `current.r`. After `"xxxxxxxxxx\n"` in a 2 by 20 window, line
`current.r = 1` is empty and the offset is 10, whatever `focus` is. -/
theorem scrRefresh_reads_past_line :
    ∃ scr, Reachable scr ∧ scr.current.r = 1 ∧ (scr.line scr.current.r).length = 0 ∧
      ∀ focus, (scrRefresh scr focus).1.current.c = 10 := by
  have add : scrAdd (scrNew 2 20) "xxxxxxxxxx\n".toList =
      some ⟨["xxxxxxxxxx".toList, []], ⟨1, 0, 0⟩, 2, 20⟩ := by decide
  exact ⟨_, .step (.scrAdd "xxxxxxxxxx\n".toList) (.scrNew 2 20) add, rfl, rfl, by decide⟩

end Cgdb
