import Cgdb.Scroller.Parse

/-! The scroller record and the operations of `scroller.c` that move its viewport
or append to its buffer. Each operation has one spec lemma; `Wf` is what every
operation keeps, `Inv` adds the viewport column. -/

namespace Cgdb

/-- `scr->current`: the viewport `(r, c)` and the caret `pos`. -/
structure Cursor where
  r : Nat
  c : Nat
  pos : Nat
  deriving DecidableEq, Repr

/-- `struct scroller`, with the size `getmaxyx(scr->win, ...)` reports. -/
structure Scroller where
  buffer : List (List Char)
  current : Cursor
  height : Nat
  width : Nat
  deriving DecidableEq, Repr

/-- `scr_new(pos_r, pos_c, height, width)`. -/
def scrNew (height width : Nat) : Scroller :=
  ⟨[[]], ⟨0, 0, 0⟩, height, width⟩

/-- `strchr(buf, '\n')` walked over `buf`: the text before the first newline, and
the text after each newline up to the next. -/
def segments : List Char → List Char × List (List Char)
  | [] => ([], [])
  | c :: cs =>
    if c = '\n' then ([], (segments cs).1 :: (segments cs).2)
    else (c :: (segments cs).1, (segments cs).2)

/-- Line `r` of the buffer, `""` past its end. -/
def Scroller.line (scr : Scroller) (r : Nat) : List Char := scr.buffer.getD r []

def Scroller.lastLine (scr : Scroller) : List Char := scr.line (scr.buffer.length - 1)

/-- `scr->buffer[scr->length - 1] = parse(scr, temp, buf2)`. -/
def appendLast (scr : Scroller) (seg : List Char) : Option Scroller := do
  let (line, pos) ← parse scr.lastLine scr.current.pos seg
  pure { scr with buffer := scr.buffer.set (scr.buffer.length - 1) line,
                  current := { scr.current with pos := pos } }

/-- One pass of `scr_add`'s `while (x != NULL)`: a new line parsed from `""`. -/
def addLine (scr : Scroller) (seg : List Char) : Option Scroller := do
  let (line, pos) ← parse [] 0 seg
  pure { scr with buffer := scr.buffer ++ [line], current := { scr.current with pos := pos } }

/-- The `Sanity check` that opens `scr_up`, `scr_down` and `scr_refresh`. -/
def snap (c width : Nat) : Nat :=
  if 0 < c ∧ c % width ≠ 0 then c / width * width else c

/-- One pass of `scr_up`'s loop; `none` is `/* At top */ break`. -/
def upStep (scr : Scroller) (cur : Cursor) : Option Cursor :=
  if 0 < cur.c then some { cur with c := cur.c - scr.width }
  else if 0 < cur.r then
    if scr.width < (scr.line (cur.r - 1)).length then
      some { cur with r := cur.r - 1, c := ((scr.line (cur.r - 1)).length - 1) / scr.width * scr.width }
    else some { cur with r := cur.r - 1 }
  else none

/-- One pass of `scr_down`'s loop; `none` is `/* At bottom */ break`. -/
def downStep (scr : Scroller) (cur : Cursor) : Option Cursor :=
  if (cur.c : Int) < ((scr.line cur.r).length : Int) - scr.width then
    some { cur with c := cur.c + scr.width }
  else if (cur.r : Int) < (scr.buffer.length : Int) - 1 then some { cur with r := cur.r + 1, c := 0 }
  else none

/-- `for (i = 0; i < nlines; i++)` over a step that may `break`. -/
def loop (step : Cursor → Option Cursor) : Nat → Cursor → Cursor
  | 0, cur => cur
  | n + 1, cur => match step cur with
    | some cur' => loop step n cur'
    | none => cur

def scrUp (scr : Scroller) (nlines : Int) : Scroller :=
  let cur := { scr.current with c := snap scr.current.c scr.width }
  { scr with current := loop (upStep scr) nlines.toNat cur }

def scrDown (scr : Scroller) (nlines : Int) : Scroller :=
  let cur := { scr.current with c := snap scr.current.c scr.width }
  { scr with current := loop (downStep scr) nlines.toNat cur }

def scrHome (scr : Scroller) : Scroller :=
  { scr with current := { scr.current with r := 0, c := 0 } }

def scrEnd (scr : Scroller) : Scroller :=
  { scr with current := { scr.current with
      r := scr.buffer.length - 1,
      c := (scr.line (scr.buffer.length - 1)).length / scr.width * scr.width } }

def scrAdd (scr : Scroller) (buf : List Char) : Option Scroller := do
  let scr ← if 0 < (segments buf).1.length then appendLast scr (segments buf).1 else pure scr
  let scr ← (segments buf).2.foldlM addLine scr
  pure (scrEnd scr)

/-- `scr_move`: a new window of the given size; the buffer and cursor stay. -/
def scrMove (scr : Scroller) (height width : Nat) : Scroller :=
  { scr with height := height, width := width }

/-- What `parse` leaves when the caret is inside the line. -/
def feedLine (l : List Char) (pos : Nat) (seg : List Char) : List Char × Nat :=
  (trimLine (interp l pos seg).1 (interp l pos seg).2, (interp l pos seg).2)

/-- What every operation keeps: a non-empty printable buffer, the viewport row
inside it and the caret inside the last line. -/
structure Wf (scr : Scroller) : Prop where
  nonempty : scr.buffer ≠ []
  row : scr.current.r < scr.buffer.length
  caret : scr.current.pos ≤ scr.lastLine.length
  printable : ∀ l ∈ scr.buffer, ∀ x ∈ l, isprint x

/-- `Wf` and the viewport column: a multiple of the width inside line `r`. -/
structure Inv (scr : Scroller) extends Wf scr : Prop where
  column : scr.width ∣ scr.current.c
  within : scr.current.c ≤ (scr.line scr.current.r).length

/-- `appendLast` once `parse_eq` applies. -/
def Scroller.feed (scr : Scroller) (seg : List Char) : Scroller :=
  { scr with
    buffer := scr.buffer.set (scr.buffer.length - 1) (feedLine scr.lastLine scr.current.pos seg).1
    current := { scr.current with pos := (feedLine scr.lastLine scr.current.pos seg).2 } }

/-- A new empty last line with the caret at its start. -/
def Scroller.newline (scr : Scroller) : Scroller :=
  { scr with buffer := scr.buffer ++ [[]], current := { scr.current with pos := 0 } }

/-- `scr_add`'s first `parse`, made only when `buf` does not start with a newline. -/
def Scroller.feedFirst (scr : Scroller) (seg : List Char) : Scroller :=
  if 0 < seg.length then scr.feed seg else scr

/-- `scr_add` before its closing `scr_end`, once `parse_eq` applies. -/
def Scroller.addText (scr : Scroller) (buf : List Char) : Scroller :=
  (segments buf).2.foldl (fun s seg => s.newline.feed seg) (scr.feedFirst (segments buf).1)

theorem parse_eq_feedLine {l : List Char} {pos : Nat} (seg : List Char) (hpos : pos ≤ l.length)
    (printable : ∀ x ∈ l, isprint x) : parse l pos seg = some (feedLine l pos seg) :=
  parse_eq seg hpos printable

theorem lastLine_mem {scr : Scroller} (nonempty : scr.buffer ≠ []) : scr.lastLine ∈ scr.buffer := by
  rw [Scroller.lastLine, Scroller.line, List.getD_eq_getElem?_getD,
    List.getElem?_eq_getElem (by have := List.length_pos.mpr nonempty; omega)]
  exact List.getElem_mem _

theorem appendLast_eq {scr : Scroller} (seg : List Char) (wf : Wf scr) :
    appendLast scr seg = some (scr.feed seg) := by
  rw [appendLast, parse_eq_feedLine seg wf.caret (wf.printable _ (lastLine_mem wf.nonempty))]
  rfl

theorem addLine_eq (scr : Scroller) (seg : List Char) :
    addLine scr seg = some (scr.newline.feed seg) := by
  rw [addLine, parse_eq_feedLine seg (Nat.zero_le _) (by simp)]
  simp [Scroller.feed, Scroller.newline, Scroller.lastLine, Scroller.line]

theorem foldlM_addLine (scr : Scroller) (rest : List (List Char)) :
    rest.foldlM addLine scr = some (rest.foldl (fun s seg => s.newline.feed seg) scr) := by
  induction rest generalizing scr with
  | nil => rfl
  | cons seg rest ih => rw [List.foldlM_cons, addLine_eq, Option.bind_eq_bind, Option.some_bind, ih]; rfl

theorem scrAdd_eq {scr : Scroller} (buf : List Char) (wf : Wf scr) :
    scrAdd scr buf = some (scrEnd (scr.addText buf)) := by
  unfold scrAdd Scroller.addText Scroller.feedFirst
  split
  · rw [appendLast_eq _ wf]; simp [foldlM_addLine]
  · simp [foldlM_addLine]

theorem feedLine_caret {l : List Char} {pos : Nat} (seg : List Char) (hpos : pos ≤ l.length) :
    (feedLine l pos seg).2 ≤ (feedLine l pos seg).1.length := by
  have := (interp_bounds seg hpos).1
  simp only [feedLine, trimLine, List.length_append, List.length_take]
  omega

theorem feedLine_printable {l : List Char} (pos : Nat) (seg : List Char)
    (hl : ∀ x ∈ l, isprint x) : ∀ x ∈ (feedLine l pos seg).1, isprint x := fun x hx =>
  printable_interp pos seg hl x ((trimLine_isPrefix _ _).subset hx)

theorem lastLine_set {scr : Scroller} (l : List Char) (nonempty : scr.buffer ≠ []) :
    (scr.buffer.set (scr.buffer.length - 1) l).getD (scr.buffer.length - 1) [] = l := by
  rw [List.getD_eq_getElem?_getD, List.getElem?_set_self]
  · rfl
  · have := List.length_pos.mpr nonempty; omega

@[simp] theorem Scroller.feed_length (scr : Scroller) (seg : List Char) :
    (scr.feed seg).buffer.length = scr.buffer.length := List.length_set ..

@[simp] theorem Scroller.feed_pos (scr : Scroller) (seg : List Char) :
    (scr.feed seg).current.pos = (feedLine scr.lastLine scr.current.pos seg).2 := rfl

theorem Scroller.feed_lastLine {scr : Scroller} (seg : List Char) (nonempty : scr.buffer ≠ []) :
    (scr.feed seg).lastLine = (feedLine scr.lastLine scr.current.pos seg).1 := by
  rw [Scroller.lastLine, Scroller.line, feed_length]
  exact lastLine_set _ nonempty

theorem Scroller.feed_line {scr : Scroller} (seg : List Char) (nonempty : scr.buffer ≠ []) (r : Nat) :
    (scr.feed seg).line r =
      if r = scr.buffer.length - 1 then (feedLine scr.lastLine scr.current.pos seg).1 else scr.line r := by
  simp only [Scroller.feed, Scroller.line, List.getD_eq_getElem?_getD, List.getElem?_set]
  have := List.length_pos.mpr nonempty
  split <;> split <;> first | omega | simp_all

theorem Wf.feed {scr : Scroller} (seg : List Char) (wf : Wf scr) : Wf (scr.feed seg) where
  nonempty := by simpa [Scroller.feed] using wf.nonempty
  row := by simpa [Scroller.feed] using wf.row
  caret := by
    simp only [Scroller.feed, Scroller.lastLine, Scroller.line, List.length_set,
      lastLine_set _ wf.nonempty]
    exact feedLine_caret seg wf.caret
  printable := by
    intro l hl
    rcases List.mem_or_eq_of_mem_set hl with hl | rfl
    · exact wf.printable l hl
    · exact feedLine_printable _ seg (wf.printable _ (lastLine_mem wf.nonempty))

theorem Wf.newline {scr : Scroller} (wf : Wf scr) : Wf scr.newline where
  nonempty := by simp [Scroller.newline]
  row := by simp [Scroller.newline]; have := wf.row; omega
  caret := by simp [Scroller.newline]
  printable := by
    intro l hl
    simp only [Scroller.newline, List.mem_append, List.mem_singleton] at hl
    rcases hl with hl | rfl
    · exact wf.printable l hl
    · simp

theorem Wf.lines {scr : Scroller} (rest : List (List Char)) (wf : Wf scr) :
    Wf (rest.foldl (fun s seg => s.newline.feed seg) scr) := by
  induction rest generalizing scr with
  | nil => exact wf
  | cons seg rest ih => exact ih (wf.newline.feed seg)

theorem Wf.feedFirst {scr : Scroller} (seg : List Char) (wf : Wf scr) : Wf (scr.feedFirst seg) := by
  unfold Scroller.feedFirst
  split
  · exact wf.feed _
  · exact wf

theorem Wf.addText {scr : Scroller} (buf : List Char) (wf : Wf scr) : Wf (scr.addText buf) :=
  Wf.lines _ (wf.feedFirst _)

theorem length_pos_of_wf {scr : Scroller} (wf : Wf scr) : 0 < scr.buffer.length :=
  List.length_pos.mpr wf.nonempty

theorem Inv.scrEnd {scr : Scroller} (wf : Wf scr) : Inv (scrEnd scr) where
  toWf := { wf with row := by have := length_pos_of_wf wf; simp [Cgdb.scrEnd]; omega }
  column := Nat.dvd_mul_left _ _
  within := Nat.div_mul_le_self _ _

theorem Inv.scrHome {scr : Scroller} (wf : Wf scr) : Inv (scrHome scr) where
  toWf := { wf with row := by simpa [Cgdb.scrHome] using length_pos_of_wf wf }
  column := Nat.dvd_zero _
  within := Nat.zero_le _

theorem Inv.scrAdd {scr scr' : Scroller} {buf : List Char} (wf : Wf scr)
    (h : Cgdb.scrAdd scr buf = some scr') : Inv scr' := by
  rw [scrAdd_eq buf wf, Option.some_inj] at h
  exact h ▸ Inv.scrEnd (wf.addText buf)

theorem loop_invariant {step : Cursor → Option Cursor} (P : Cursor → Prop)
    (preserved : ∀ cur cur', P cur → step cur = some cur' → P cur') (n : Nat) {cur : Cursor}
    (h : P cur) : P (loop step n cur) := by
  induction n generalizing cur with
  | zero => exact h
  | succ n ih =>
    unfold loop
    split
    · exact ih (preserved _ _ h ‹_›)
    · exact h

theorem snap_dvd (c width : Nat) : width ∣ snap c width := by
  unfold snap
  split
  · exact Nat.dvd_mul_left _ _
  · rename_i h
    rcases Nat.eq_zero_or_pos c with rfl | hc
    · exact Nat.dvd_zero _
    · exact Nat.dvd_of_mod_eq_zero (by simpa [hc] using h)

theorem snap_le (c width : Nat) : snap c width ≤ c := by
  unfold snap; split
  · exact Nat.div_mul_le_self _ _
  · exact le_refl _

/-- The viewport part of `Inv`, for the cursor the scrolling loops carry. -/
def ViewOk (scr : Scroller) (cur : Cursor) : Prop :=
  cur.r < scr.buffer.length ∧ scr.width ∣ cur.c ∧ cur.c ≤ (scr.line cur.r).length

theorem upStep_viewOk {scr : Scroller} {cur cur' : Cursor} (ok : ViewOk scr cur)
    (h : upStep scr cur = some cur') : ViewOk scr cur' := by
  obtain ⟨hr, hdvd, hle⟩ := ok
  unfold upStep at h
  split at h
  · cases h
    exact ⟨hr, Nat.dvd_sub' hdvd (Nat.dvd_refl _), by simp only; omega⟩
  · split at h
    · split at h <;> cases h
      · exact ⟨by simp only; omega, Nat.dvd_mul_left _ _, by
          simp only; have := Nat.div_mul_le_self ((scr.line (cur.r - 1)).length - 1) scr.width; omega⟩
      · exact ⟨by simp only; omega, by simp only; omega, by simp only; omega⟩
    · cases h

theorem downStep_viewOk {scr : Scroller} {cur cur' : Cursor} (ok : ViewOk scr cur)
    (h : downStep scr cur = some cur') : ViewOk scr cur' := by
  obtain ⟨hr, hdvd, hle⟩ := ok
  unfold downStep at h
  split at h
  · cases h
    exact ⟨hr, Nat.dvd_add hdvd (Nat.dvd_refl _), by simp only; omega⟩
  · split at h <;> cases h
    exact ⟨by simp only; omega, Nat.dvd_zero _, Nat.zero_le _⟩

theorem viewOk_snap {scr : Scroller} (inv : Inv scr) :
    ViewOk scr { scr.current with c := snap scr.current.c scr.width } :=
  ⟨inv.row, snap_dvd _ _, (snap_le _ _).trans inv.within⟩

theorem Inv.of_viewOk {scr : Scroller} {cur : Cursor} (inv : Inv scr) (pos : cur.pos = scr.current.pos)
    (ok : ViewOk scr cur) : Inv { scr with current := cur } where
  toWf := { inv.toWf with row := ok.1, caret := pos ▸ inv.caret }
  column := ok.2.1
  within := ok.2.2

theorem loop_pos {step : Cursor → Option Cursor} (keeps : ∀ cur cur', step cur = some cur' → cur'.pos = cur.pos)
    (n : Nat) (cur : Cursor) : (loop step n cur).pos = cur.pos :=
  loop_invariant (fun c => c.pos = cur.pos) (fun _ _ h hs => (keeps _ _ hs).trans h) n rfl

theorem upStep_pos {scr : Scroller} (cur cur' : Cursor) (h : upStep scr cur = some cur') :
    cur'.pos = cur.pos := by
  unfold upStep at h; split at h
  · cases h; rfl
  · split at h
    · split at h <;> cases h <;> rfl
    · cases h

theorem downStep_pos {scr : Scroller} (cur cur' : Cursor) (h : downStep scr cur = some cur') :
    cur'.pos = cur.pos := by
  unfold downStep at h; split at h
  · cases h; rfl
  · split at h <;> cases h; rfl

theorem Inv.scrUp {scr : Scroller} (n : Int) (inv : Inv scr) : Inv (scrUp scr n) :=
  inv.of_viewOk (loop_pos upStep_pos _ _)
    (loop_invariant _ (fun _ _ ok h => upStep_viewOk ok h) _ (viewOk_snap inv))

theorem Inv.scrDown {scr : Scroller} (n : Int) (inv : Inv scr) : Inv (scrDown scr n) :=
  inv.of_viewOk (loop_pos downStep_pos _ _)
    (loop_invariant _ (fun _ _ ok h => downStep_viewOk ok h) _ (viewOk_snap inv))

theorem upStep_row {scr : Scroller} {cur cur' : Cursor} (h : upStep scr cur = some cur') :
    cur'.r ≤ cur.r := by
  unfold upStep at h; split at h
  · cases h; exact le_refl _
  · split at h
    · split at h <;> cases h <;> exact Nat.sub_le _ _
    · cases h

theorem downStep_row {scr : Scroller} {cur cur' : Cursor} (hr : cur.r < scr.buffer.length)
    (h : downStep scr cur = some cur') : cur'.r < scr.buffer.length := by
  unfold downStep at h; split at h
  · cases h; exact hr
  · split at h <;> cases h; simp only; omega

theorem Wf.scrUp {scr : Scroller} (n : Int) (wf : Wf scr) : Wf (scrUp scr n) :=
  { wf with
    row := loop_invariant (fun c => c.r < scr.buffer.length)
      (fun _ _ hr h => lt_of_le_of_lt (upStep_row h) hr) _ wf.row
    caret := (loop_pos upStep_pos _ _).symm ▸ wf.caret }

theorem Wf.scrDown {scr : Scroller} (n : Int) (wf : Wf scr) : Wf (scrDown scr n) :=
  { wf with
    row := loop_invariant (fun c => c.r < scr.buffer.length)
      (fun _ _ hr h => downStep_row hr h) _ wf.row
    caret := (loop_pos downStep_pos _ _).symm ▸ wf.caret }

end Cgdb
