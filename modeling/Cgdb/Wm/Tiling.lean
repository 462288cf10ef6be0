import Cgdb.Wm.Neighbor
import Cgdb.Wm.Splitter
import Cgdb.Wm.Capacity

/-! Splitters whose children tile them, and the two functions of
`wm_splitter.c` that change the children's sizes in place.

`wm_splitter_resize_window` moves boundaries between children. Each change it
makes, in the shrinking branch and in every pass of its two borrowing loops, is
one `transfer`: a child takes `c` from another, and the children between the
two, with the second of them, move by `c`. A transfer keeps the children
contiguous, keeps their total and changes nothing else of them, so on a valid
layout the resize reaches the clamped size and leaves a valid layout
(`resizeWindow_valid`).

`wm_splitter_layout` is not idempotent: a child that is legitimately `1 x 1`
passes for a window never laid out, and the extent is shared out again
(`layout_moves_tiled_children`). With the source's `float`s, a tiling with no
such child is a fixed point when every child's size survives
`size / extent * extent` (`layout_keeps_tiling`), as every size does over an
extent that is a power of two (`layout_keeps_two_pow_tiling`), and so is a whole
tree of such splitters under the layout event (`layout_fixes_settled_tree`); a
split of 7 and 16 rows does not, and moves to 6 and 17. -/

namespace Cgdb

/-- `get_position(splitter, window) += delta`. -/
def Rect.move (o : Orientation) (delta : Int) (r : Rect) : Rect :=
  match o with
  | .horizontal => { r with top := r.top + delta }
  | .vertical => { r with left := r.left + delta }

/-- `get_dimension(splitter, window) += delta`. -/
def Rect.grow (o : Orientation) (delta : Int) (r : Rect) : Rect :=
  match o with
  | .horizontal => { r with height := r.height + delta }
  | .vertical => { r with width := r.width + delta }

def Node.move (o : Orientation) (delta : Int) (n : Node) : Node := n.setRect (n.rect.move o delta)

def Node.grow (o : Orientation) (delta : Int) (n : Node) : Node := n.setRect (n.rect.grow o delta)

section Geometry

variable (o : Orientation) (a b : Int) (r : Rect) (n : Node)

@[simp] theorem Rect.position_move : (r.move o a).position o = r.position o + a := by cases o <;> rfl

@[simp] theorem Rect.dimension_move : (r.move o a).dimension o = r.dimension o := by cases o <;> rfl

@[simp] theorem Rect.position_grow : (r.grow o a).position o = r.position o := by cases o <;> rfl

@[simp] theorem Rect.dimension_grow : (r.grow o a).dimension o = r.dimension o + a := by cases o <;> rfl

@[simp] theorem Rect.position_cross_move : (r.move o a).position o.cross = r.position o.cross := by
  cases o <;> rfl

@[simp] theorem Rect.dimension_cross_move : (r.move o a).dimension o.cross = r.dimension o.cross := by
  cases o <;> rfl

@[simp] theorem Rect.position_cross_grow : (r.grow o a).position o.cross = r.position o.cross := by
  cases o <;> rfl

@[simp] theorem Rect.dimension_cross_grow : (r.grow o a).dimension o.cross = r.dimension o.cross := by
  cases o <;> rfl

@[simp] theorem Node.rect_move : (n.move o a).rect = n.rect.move o a := Node.rect_setRect _ _

@[simp] theorem Node.rect_grow : (n.grow o a).rect = n.rect.grow o a := Node.rect_setRect _ _

@[simp] theorem Node.erase_move : (n.move o a).erase = n.erase := Node.erase_setRect _ _

@[simp] theorem Node.erase_grow : (n.grow o a).erase = n.erase := Node.erase_setRect _ _

@[simp] theorem Rect.move_zero : r.move o 0 = r := by cases o <;> cases r <;> simp [Rect.move]

@[simp] theorem Rect.grow_zero : r.grow o 0 = r := by cases o <;> cases r <;> simp [Rect.grow]

@[simp] theorem Node.move_zero : n.move o 0 = n := by simp [Node.move, Node.setRect_rect]

@[simp] theorem Node.grow_zero : n.grow o 0 = n := by simp [Node.grow, Node.setRect_rect]

theorem Node.move_grow_move_grow (c d : Int) :
    (((n.move o a).grow o b).move o c).grow o d = (n.move o (a + c)).grow o (b + d) := by
  cases o <;> simp [Node.move, Node.grow, Rect.move, Rect.grow, Node.setRect_setRect, Int.add_assoc]

end Geometry

/-- `g` sees nothing of a child's place along `o`. -/
def Blind (o : Orientation) {α : Type} (g : Node → α) : Prop :=
  ∀ n a b, g ((n.move o a).grow o b) = g n

theorem minDimension_setRect (o : Orientation) (r : Rect) (n : Node) :
    minDimension o (n.setRect r) = minDimension o n := by
  cases n <;> rfl

section Blind

variable {o : Orientation}

theorem blind_erase : Blind o Node.erase := fun n a b => by simp

theorem blind_id : Blind o Node.id := fun n a b => by simp [Node.move, Node.grow]

theorem blind_minDimension : Blind o (minDimension o) := fun n a b => by
  simp only [Node.move, Node.grow, minDimension_setRect]

theorem blind_position_cross : Blind o (·.rect.position o.cross) := fun n a b => by simp

theorem blind_dimension_cross : Blind o (·.rect.dimension o.cross) := fun n a b => by simp

end Blind

/-- Child `k` moved by `moves k` and grown by `grows k` along `o`. -/
def reshape (o : Orientation) (moves grows : Nat → Int) (children : List Node) : List Node :=
  children.mapIdx fun k child => (child.move o (moves k)).grow o (grows k)

/-- The rectangles lie one after another along `o` from `position`, each
starting where the one before it ends, past the separator column of a vertical
splitter. -/
def contiguous (o : Orientation) : Int → List Rect → Bool
  | _, [] => true
  | position, r :: rs => r.position o == position && contiguous o (position + r.dimension o + gap o) rs

section Reshape

variable {o : Orientation} {moves grows : Nat → Int}

theorem reshape_cons (c : Node) (cs : List Node) :
    reshape o moves grows (c :: cs) =
      (c.move o (moves 0)).grow o (grows 0) :: reshape o (fun k => moves (k + 1)) (fun k => grows (k + 1)) cs :=
  List.mapIdx_cons

@[simp] theorem getElem?_reshape (cs : List Node) (k : Nat) :
    (reshape o moves grows cs)[k]? = cs[k]?.map fun c => (c.move o (moves k)).grow o (grows k) :=
  List.getElem?_mapIdx

@[simp] theorem length_reshape (cs : List Node) : (reshape o moves grows cs).length = cs.length :=
  List.length_mapIdx

theorem reshape_congr {moves' grows' : Nat → Int} (sameMoves : ∀ k, moves k = moves' k)
    (sameGrows : ∀ k, grows k = grows' k) (cs : List Node) :
    reshape o moves grows cs = reshape o moves' grows' cs := by
  rw [funext sameMoves, funext sameGrows]

theorem reshape_zero (cs : List Node) : reshape o (fun _ => 0) (fun _ => 0) cs = cs := by
  ext1 k
  simp

theorem reshape_reshape {moves' grows' : Nat → Int} (cs : List Node) :
    reshape o moves grows (reshape o moves' grows' cs) =
      reshape o (fun k => moves' k + moves k) (fun k => grows' k + grows k) cs := by
  simp only [reshape, List.mapIdx_mapIdx]
  congr
  funext k c
  exact Node.move_grow_move_grow ..

theorem map_reshape {α : Type} {g : Node → α} (blind : Blind o g) (cs : List Node) :
    (reshape o moves grows cs).map g = cs.map g := by
  induction cs generalizing moves grows with
  | nil => rfl
  | cons c cs ih => rw [reshape_cons, List.map_cons, List.map_cons, blind, ih]

theorem contiguous_reshape (cs : List Node) (steps : ∀ k, moves (k + 1) = moves k + grows k) {position : Int}
    (laid : contiguous o position (cs.map (·.rect)) = true) :
    contiguous o (position + moves 0) ((reshape o moves grows cs).map (·.rect)) = true := by
  induction cs generalizing moves grows position with
  | nil => rfl
  | cons c cs ih =>
    rw [reshape_cons]
    simp only [List.map_cons, contiguous, Bool.and_eq_true, beq_iff_eq, Node.rect_grow, Node.rect_move,
      Rect.position_grow, Rect.position_move, Rect.dimension_grow, Rect.dimension_move] at laid ⊢
    refine ⟨by omega, ?_⟩
    have rest := @ih (fun k => moves (k + 1)) (fun k => grows (k + 1)) (fun k => steps (k + 1)) _ laid.2
    dsimp only at rest
    rwa [steps 0, show position + c.rect.dimension o + gap o + (moves 0 + grows 0) =
      position + moves 0 + (c.rect.dimension o + grows 0) + gap o by omega] at rest

theorem sum_reshape (steps : ∀ k, moves (k + 1) = moves k + grows k) (cs : List Node) :
    ((reshape o moves grows cs).map (·.rect.dimension o)).sum + moves 0 =
      (cs.map (·.rect.dimension o)).sum + moves cs.length := by
  induction cs generalizing moves grows with
  | nil => simp [reshape]
  | cons c cs ih =>
    have rest := @ih (fun k => moves (k + 1)) (fun k => grows (k + 1)) (fun k => steps (k + 1))
    rw [reshape_cons]
    simp only [List.map_cons, List.sum_cons, List.length_cons, Node.rect_grow, Node.rect_move,
      Rect.dimension_grow, Rect.dimension_move] at rest ⊢
    have := steps 0
    omega

theorem modify_move (a : Int) (j : Nat) (cs : List Node) :
    cs.modify (Node.move o a) j = reshape o (fun k => if k = j then a else 0) (fun _ => 0) cs := by
  ext1 k
  by_cases at_j : k = j
  · subst at_j; cases cs[k]? <;> simp [List.getElem?_modify]
  · cases h : cs[k]? <;> simp [List.getElem?_modify, at_j, Ne.symm at_j, h]

theorem modify_grow (a : Int) (j : Nat) (cs : List Node) :
    cs.modify (Node.grow o a) j = reshape o (fun _ => 0) (fun k => if k = j then a else 0) cs := by
  ext1 k
  by_cases at_j : k = j
  · subst at_j; cases cs[k]? <;> simp [List.getElem?_modify]
  · cases h : cs[k]? <;> simp [List.getElem?_modify, at_j, Ne.symm at_j, h]

end Reshape

/-- How far child `k` moves when `taker` takes `c` from `donor`: the children
after the first of the two, up to the second, move towards `donor`. -/
def transferMoves (c : Int) (donor taker k : Nat) : Int :=
  (if taker < k ∧ k ≤ donor then c else 0) - (if donor < k ∧ k ≤ taker then c else 0)

/-- How much child `k` grows when `taker` takes `c` from `donor`. -/
def transferGrows (c : Int) (donor taker k : Nat) : Int :=
  (if k = taker then c else 0) - (if k = donor then c else 0)

/-- Child `taker` takes `c` from child `donor`: the boundaries between them
move by `c` towards `donor`, and with them the children between the two and
the second of the two. -/
def transfer (o : Orientation) (c : Int) (donor taker : Nat) (children : List Node) : List Node :=
  reshape o (transferMoves c donor taker) (transferGrows c donor taker) children

section Transfer

variable {o : Orientation} {c : Int} {donor taker : Nat}

theorem transferMoves_succ (k : Nat) :
    transferMoves c donor taker (k + 1) = transferMoves c donor taker k + transferGrows c donor taker k := by
  unfold transferMoves transferGrows
  split_ifs <;> omega

theorem contiguous_transfer {position : Int} {cs : List Node} (laid : contiguous o position (cs.map (·.rect)) = true) :
    contiguous o position ((transfer o c donor taker cs).map (·.rect)) = true := by
  simpa [transferMoves] using contiguous_reshape cs transferMoves_succ laid

theorem sum_transfer {cs : List Node} (inside : donor < cs.length ∧ taker < cs.length) :
    ((transfer o c donor taker cs).map (·.rect.dimension o)).sum = (cs.map (·.rect.dimension o)).sum := by
  have sum := sum_reshape (o := o) (@transferMoves_succ c donor taker) cs
  simp only [transferMoves, Nat.not_lt_zero, false_and, if_false, sub_zero] at sum
  rw [if_neg (by omega), if_neg (by omega)] at sum
  simpa using sum

end Transfer

theorem map_transfer {o : Orientation} {α : Type} {g : Node → α} (blind : Blind o g) (c : Int) (donor taker : Nat)
    (cs : List Node) : (transfer o c donor taker cs).map g = cs.map g :=
  map_reshape blind cs

theorem getD_transfer {o : Orientation} {α : Type} {g : Node → α} (blind : Blind o g) (c : Int) (donor taker : Nat)
    (cs : List Node) (k : Nat) : g ((transfer o c donor taker cs).getD k default) = g (cs.getD k default) := by
  simpa only [List.getD_map] using congrArg (fun l => l.getD k (g default)) (map_transfer blind c donor taker cs)

theorem dimension_transfer {o : Orientation} (c : Int) (donor taker : Nat) {cs : List Node} {k : Nat}
    (inside : k < cs.length) :
    ((transfer o c donor taker cs).getD k default).rect.dimension o =
      (cs.getD k default).rect.dimension o + transferGrows c donor taker k := by
  simp [transfer, List.getD_eq_getElem?_getD, List.getElem?_eq_getElem inside]

/-- `for (k = first; k < first + count; ++k) f(children[k])`. -/
def modifyRange {α : Type} (f : α → α) (l : List α) : Nat → Nat → List α
  | _, 0 => l
  | k, count + 1 => modifyRange f (l.modify f k) (k + 1) count

/-- `for (k = last; k > last - count; --k) f(children[k])`. -/
def modifyRangeDown {α : Type} (f : α → α) (l : List α) : Nat → Nat → List α
  | _, 0 => l
  | k, count + 1 => modifyRangeDown f (l.modify f k) (k - 1) count

/-- `avail`: what child `j` has above its minimum. -/
def avail (o : Orientation) (children : List Node) (j : Nat) : Int :=
  (children.getD j default).rect.dimension o - minDimension o (children.getD j default)

/-- `this_change`: what is still wanted, at most `avail`. -/
def thisChange (desiredChange actualChange avail : Int) : Int :=
  if desiredChange - actualChange > avail then avail else desiredChange - actualChange

/-- The `Borrow from successors` loop from child `j`, `rest` children before
the end, so that `j < num_children` is `0 < rest`. Child `j` gives up to what
it has above its minimum to `window`, child `i`; it and the children between
them move down by that much. -/
def borrowAfter (o : Orientation) (i : Nat) (desiredChange : Int) :
    Nat → List Node → Int → Nat → List Node × Int
  | 0, children, actualChange, _ => (children, actualChange)
  | rest + 1, children, actualChange, j =>
    if actualChange ≠ desiredChange then
      let change := thisChange desiredChange actualChange (avail o children j)
      let children := ((children.modify (Node.move o change) j).modify (Node.grow o (-change)) j).modify
        (Node.grow o change) i
      borrowAfter o i desiredChange rest (modifyRange (Node.move o change) children (i + 1) (j - (i + 1)))
        (actualChange + change) (j + 1)
    else (children, actualChange)

/-- The `Borrow from predecessors` loop at child `j`, given `j + 1` so that
`j >= 0` is `0 < j + 1`. Child `j` gives up to what it has above its minimum to
`window`, child `i`, which moves up by that much with the children between
them. -/
def borrowBefore (o : Orientation) (i : Nat) (desiredChange : Int) : Nat → List Node → Int → List Node × Int
  | 0, children, actualChange => (children, actualChange)
  | j + 1, children, actualChange =>
    if actualChange ≠ desiredChange then
      let change := thisChange desiredChange actualChange (avail o children j)
      let children := ((children.modify (Node.grow o (-change)) j).modify (Node.move o (-change)) i).modify
        (Node.grow o change) i
      borrowBefore o i desiredChange j (modifyRangeDown (Node.move o (-change)) children (i - 1) (i - 1 - j))
        (actualChange + change)
    else (children, actualChange)

/-- The `desired_change < 0` branch: `next`, the child after `window` or,
`wrapped`, the one before it when `window` is last, takes what `window` gives
up. -/
def giveToNext (o : Orientation) (i : Nat) (desiredChange : Int) (children : List Node) : List Node :=
  if i + 1 = children.length then
    ((children.modify (Node.grow o (-desiredChange)) (i - 1)).modify (Node.grow o desiredChange) i).modify
      (Node.move o (-desiredChange)) i
  else
    ((children.modify (Node.grow o (-desiredChange)) (i + 1)).modify (Node.grow o desiredChange) i).modify
      (Node.move o desiredChange) (i + 1)

/-- The closing loop, `Place windows that have been updated`: a child whose
curses window, still where the child was before the resize, is not where the
child now is gets placed again, which sends it a layout event. -/
def placeMoved (event : Node → Node) (before after : List Node) : List Node :=
  List.zipWith (fun old child => if child.rect ≠ old.rect then event child else child) before after

/-- `max`: the splitter's extent along the split, less the separator columns of
a vertical splitter, less the minimums of the children other than `window`. -/
def resizeMax (o : Orientation) (r : Rect) (children : List Node) (window : Node) : Int :=
  available o r children.length - ((children.filter (·.id ≠ window.id)).map (minDimension o)).sum

/-- `Limit to what is possible`: `size` raised to `min`, then lowered to `max`. -/
def clampSize (min max size : Int) : Int :=
  let size := if size < min then min else size
  if size > max then max else size

/-- `wm_splitter_resize_window(splitter, window, dir, size)`: `none` is the
`-1` of a splitter with one child, of a direction across the split, and of a
window that is not a child; `event` stands for the layout event
`wm_splitter_place_window` sends. -/
def resizeWindow (event : Node → Node) (splitter window : Node) (dir : Orientation) (size : Int) :
    Option Node :=
  match splitter with
  | .leaf .. => none
  | .splitter sid r o children cap =>
    if children.length = 1 then none
    else if dir ≠ o then none
    else
      let desiredChange :=
        clampSize (minDimension o window) (resizeMax o r children window) size - window.rect.dimension o
      if desiredChange = 0 then some splitter
      else match findChild children window.id with
        | none => none
        | some i =>
          let resized :=
            if desiredChange < 0 then giveToNext o i desiredChange children
            else
              let after := borrowAfter o i desiredChange (children.length - (i + 1)) children 0 (i + 1)
              (borrowBefore o i desiredChange i after.1 after.2).1
          some (.splitter sid r o (placeMoved event children resized) cap)

section Steps

variable {o : Orientation}

theorem modifyRange_move (a : Int) (cs : List Node) (first count : Nat) :
    modifyRange (Node.move o a) cs first count =
      reshape o (fun k => if first ≤ k ∧ k < first + count then a else 0) (fun _ => 0) cs := by
  induction count generalizing cs first with
  | zero => exact ((reshape_congr (fun k => by split_ifs <;> omega) (fun _ => rfl) cs).trans (reshape_zero cs)).symm
  | succ count ih =>
    rw [modifyRange, ih, modify_move, reshape_reshape]
    exact reshape_congr (fun k => by split_ifs <;> omega) (fun k => by simp) cs

theorem modifyRangeDown_move (a : Int) (cs : List Node) (last count : Nat) (fits : count ≤ last + 1) :
    modifyRangeDown (Node.move o a) cs last count =
      reshape o (fun k => if last + 1 ≤ k + count ∧ k ≤ last then a else 0) (fun _ => 0) cs := by
  induction count generalizing cs last with
  | zero => exact (reshape_congr (fun k => by split_ifs <;> omega) (fun _ => rfl) cs).trans (reshape_zero cs) |>.symm
  | succ count ih =>
    rw [modifyRangeDown, ih _ _ (by omega), modify_move, reshape_reshape]
    exact reshape_congr (fun k => by split_ifs <;> omega) (fun k => by simp) cs

theorem borrowAfter_pass {i j : Nat} (c : Int) (cs : List Node) (after : i < j) :
    modifyRange (Node.move o c) (((cs.modify (Node.move o c) j).modify (Node.grow o (-c)) j).modify
      (Node.grow o c) i) (i + 1) (j - (i + 1)) = transfer o c j i cs := by
  simp only [modify_move, modify_grow, modifyRange_move, reshape_reshape]
  exact reshape_congr (fun k => by unfold transferMoves; split_ifs <;> omega)
    (fun k => by unfold transferGrows; split_ifs <;> omega) cs

theorem borrowBefore_pass {i j : Nat} (c : Int) (cs : List Node) (before : j < i) :
    modifyRangeDown (Node.move o (-c)) (((cs.modify (Node.grow o (-c)) j).modify (Node.move o (-c)) i).modify
      (Node.grow o c) i) (i - 1) (i - 1 - j) = transfer o c j i cs := by
  rw [modifyRangeDown_move _ _ _ _ (by omega)]
  simp only [modify_move, modify_grow, reshape_reshape]
  exact reshape_congr (fun k => by unfold transferMoves; split_ifs <;> omega)
    (fun k => by unfold transferGrows; split_ifs <;> omega) cs

theorem giveToNext_eq {i : Nat} (desiredChange : Int) {cs : List Node} (two : 2 ≤ cs.length) :
    giveToNext o i desiredChange cs =
      transfer o (-desiredChange) i (if i + 1 = cs.length then i - 1 else i + 1) cs := by
  unfold giveToNext
  split_ifs <;> simp only [modify_move, modify_grow, reshape_reshape] <;>
    exact reshape_congr (fun k => by unfold transferMoves; split_ifs <;> omega)
      (fun k => by unfold transferGrows; split_ifs <;> omega) cs

end Steps

/-- What the resize keeps of a row of children taken from `before`: contiguous
from `position`, the same total, each child at least its minimum, and
everything but the places along `o` unchanged. -/
structure Resized (o : Orientation) (position : Int) (before children : List Node) : Prop where
  contiguous : contiguous o position (children.map (·.rect)) = true
  total : (children.map (·.rect.dimension o)).sum = (before.map (·.rect.dimension o)).sum
  aboveMin : ∀ c ∈ children, minDimension o c ≤ c.rect.dimension o
  frame : ∀ {α : Type} (g : Node → α), Blind o g → children.map g = before.map g

/-- A state of the borrowing loops: `window`, child `i`, has taken `actual` of
`desired`. -/
structure Borrowing (o : Orientation) (position : Int) (i : Nat) (desired : Int) (before children : List Node)
    (actual : Int) extends Resized o position before children : Prop where
  window : (children.getD i default).rect.dimension o = (before.getD i default).rect.dimension o + actual
  taken : 0 ≤ actual ∧ actual ≤ desired

/-- Every child `k` but `window`, child `i`, with `drained k` is down to its minimum. -/
def Drained (o : Orientation) (i : Nat) (children : List Node) (drained : Nat → Prop) : Prop :=
  ∀ k, k ≠ i → k < children.length → drained k → avail o children k = 0

/-- A loop's result: a state of the loops where all is taken, or every child
from `lo` on but `window` is down to its minimum. -/
def Borrowed (o : Orientation) (position : Int) (i : Nat) (desired : Int) (before : List Node) (lo : Nat)
    (state : List Node × Int) : Prop :=
  Borrowing o position i desired before state.1 state.2 ∧ (state.2 = desired ∨ Drained o i state.1 (lo ≤ ·))

section Loops

variable {o : Orientation} {position : Int} {before : List Node}

theorem Resized.length {cs : List Node} (done : Resized o position before cs) : cs.length = before.length := by
  simpa using congrArg List.length (done.frame Node.erase blind_erase)

theorem getD_of_map_eq {α : Type} {g : Node → α} {l l' : List Node} (same : l.map g = l'.map g) (k : Nat) :
    g (l.getD k default) = g (l'.getD k default) := by
  simpa only [List.getD_map] using congrArg (fun l => l.getD k (g default)) same

theorem Resized.getD {cs : List Node} (done : Resized o position before cs) {α : Type} {g : Node → α}
    (blind : Blind o g) (k : Nat) : g (cs.getD k default) = g (before.getD k default) :=
  getD_of_map_eq (done.frame g blind) k

theorem avail_transfer (c : Int) (donor taker : Nat) {cs : List Node} {k : Nat} (inside : k < cs.length) :
    avail o (transfer o c donor taker cs) k = avail o cs k + transferGrows c donor taker k := by
  unfold avail
  rw [dimension_transfer c donor taker inside, getD_transfer blind_minDimension]
  omega

theorem Resized.transferred {cs : List Node} (done : Resized o position before cs) {c : Int} {donor taker : Nat}
    (inside : donor < cs.length ∧ taker < cs.length) (grows : 0 ≤ c) (spare : c ≤ avail o cs donor) :
    Resized o position before (transfer o c donor taker cs) where
  contiguous := contiguous_transfer done.contiguous
  total := (sum_transfer inside).trans done.total
  aboveMin := fun x mem => by
    obtain ⟨k, hk, rfl⟩ := List.getElem_of_mem mem
    have inK : k < cs.length := by simpa [transfer] using hk
    have was := done.aboveMin _ (List.getElem_mem inK)
    have step := avail_transfer (o := o) c donor taker inK
    rw [← List.getD_eq_getElem _ default] at was ⊢
    unfold avail at step spare
    unfold transferGrows at step
    by_cases atDonor : k = donor
    · subst atDonor
      split_ifs at step <;> omega
    · split_ifs at step <;> omega
  frame := fun g blind => (map_transfer blind c donor taker cs).trans (done.frame g blind)

theorem Borrowing.transferred {i : Nat} {desired actual c : Int} {j : Nat} {cs : List Node}
    (state : Borrowing o position i desired before cs actual) (apart : j ≠ i) (inside : j < cs.length)
    (window : i < cs.length) (grows : 0 ≤ c) (spare : c ≤ avail o cs j) (room : actual + c ≤ desired) :
    Borrowing o position i desired before (transfer o c j i cs) (actual + c) where
  toResized := state.toResized.transferred ⟨inside, window⟩ grows spare
  window := by
    rw [dimension_transfer c j i window, state.window]
    simp [transferGrows, Ne.symm apart, Int.add_assoc]
  taken := ⟨by have := state.taken; omega, room⟩

theorem thisChange_cases (desired actual avail : Int) :
    thisChange desired actual avail = avail ∧ avail < desired - actual ∨
      thisChange desired actual avail = desired - actual ∧ desired - actual ≤ avail := by
  unfold thisChange
  split_ifs <;> omega

theorem Borrowing.pass {i j : Nat} {desired actual : Int} {cs : List Node} {drained : Nat → Prop}
    (state : Borrowing o position i desired before cs actual) (apart : j ≠ i) (inside : j < cs.length)
    (window : i < cs.length) (done : actual = desired ∨ Drained o i cs drained) :
    Borrowing o position i desired before (transfer o (thisChange desired actual (avail o cs j)) j i cs)
        (actual + thisChange desired actual (avail o cs j)) ∧
      (actual + thisChange desired actual (avail o cs j) = desired ∨
        Drained o i (transfer o (thisChange desired actual (avail o cs j)) j i cs) (fun k => drained k ∨ k = j)) := by
  have spare : 0 ≤ avail o cs j := by
    have := state.aboveMin (cs.getD j default) (by rw [List.getD_eq_getElem _ _ inside]; exact List.getElem_mem inside)
    unfold avail; omega
  have moved : ∀ k, k ≠ i → k < cs.length → avail o (transfer o (thisChange desired actual (avail o cs j)) j i cs) k =
      avail o cs k - if k = j then thisChange desired actual (avail o cs j) else 0 := fun k other inK => by
    rw [avail_transfer _ _ _ inK]
    simp [transferGrows, other, sub_eq_add_neg]
  have := state.taken
  rcases thisChange_cases desired actual (avail o cs j) with ⟨eq, _⟩ | ⟨eq, _⟩ <;> rw [eq] at moved ⊢
  · refine ⟨state.transferred apart inside window spare le_rfl (by omega), done.imp (fun _ => by omega) ?_⟩
    intro zero k other high either
    have inK : k < cs.length := by simpa [transfer] using high
    rw [moved k other inK]
    by_cases at_j : k = j
    · simp [at_j]
    · simp [at_j, zero k other inK (either.resolve_right at_j)]
  · exact ⟨state.transferred apart inside window (by omega) (by omega) (by omega), .inl (by omega)⟩

theorem borrowAfter_spec {i : Nat} {desired : Int} (rest : Nat) :
    ∀ {cs : List Node} {actual : Int} {j : Nat}, Borrowing o position i desired before cs actual →
      i < j → j + rest = cs.length → (actual = desired ∨ Drained o i cs fun k => i < k ∧ k < j) →
      Borrowed o position i desired before i (borrowAfter o i desired rest cs actual j) := by
  induction rest with
  | zero =>
    intro cs actual j state after count done
    show Borrowed o position i desired before i (cs, actual)
    exact ⟨state, done.imp_right fun zero k other (high : k < cs.length) low => zero k other high ⟨by omega, by omega⟩⟩
  | succ rest ih =>
    intro cs actual j state after count done
    unfold borrowAfter
    split_ifs with pending
    · dsimp only
      rw [borrowAfter_pass _ cs after]
      obtain ⟨next, took⟩ := state.pass (Nat.ne_of_gt after) (by omega) (by omega) done
      exact ih next (by omega) (by simp [transfer]; omega)
        (took.imp_right fun zero k other high low => zero k other high (by omega))
    · exact ⟨state, .inl (not_not.mp pending)⟩

theorem borrowBefore_spec {i : Nat} {desired : Int} (window : i < before.length) :
    ∀ (m : Nat) {cs : List Node} {actual : Int}, Borrowing o position i desired before cs actual → m ≤ i →
      (actual = desired ∨ Drained o i cs (m ≤ ·)) →
      Borrowed o position i desired before 0 (borrowBefore o i desired m cs actual)
  | 0, cs, actual, state, _, done => ⟨state, done⟩
  | j + 1, cs, actual, state, below, done => by
    have size := state.length
    unfold borrowBefore
    split_ifs with pending
    · dsimp only
      rw [borrowBefore_pass _ cs (by omega)]
      obtain ⟨next, took⟩ := state.pass (j := j) (by omega) (by omega) (by omega) done
      exact borrowBefore_spec window j next (by omega)
        (took.imp_right fun zero k other high low => zero k other high (by omega))
    · exact ⟨state, .inl (not_not.mp pending)⟩

end Loops

mutual
theorem Node.minimumSize_erase : (n : Node) → n.erase.minimumSize = n.minimumSize
  | .leaf .. => rfl
  | .splitter _ _ o children _ => by
    simp only [Node.erase, Node.minimumSize]
    exact minimumSizeLoop_erase o children (0, 0)

theorem minimumSizeLoop_erase (o : Orientation) :
    (children : List Node) → (size : Int × Int) → minimumSizeLoop o (eraseAll children) size = minimumSizeLoop o children size
  | [], _ => rfl
  | child :: rest, (h, w) => by
    simp only [eraseAll, minimumSizeLoop, Node.minimumSize_erase child]
    exact minimumSizeLoop_erase o rest _
end

theorem minDimension_erase (o : Orientation) (n : Node) : minDimension o n.erase = minDimension o n := by
  unfold minDimension
  rw [Node.minimumSize_erase]

theorem minDimension_layoutEvent (o : Orientation) (p : Proportions) (n : Node) :
    minDimension o (layoutEvent p n) = minDimension o n := by
  rw [← minDimension_erase, erase_layoutEvent, minDimension_erase]

theorem findChild_of_mem {children : List Node} {window : Node} (ids : (children.map (·.id)).Nodup)
    (mem : window ∈ children) :
    ∃ i, findChild children window.id = some i ∧ i < children.length ∧ children.getD i default = window := by
  obtain ⟨i, hi, at_i⟩ := List.getElem_of_mem mem
  refine ⟨i, List.findIdx?_eq_some_iff_getElem.mpr ⟨hi, by simp [at_i], fun j hji same => ?_⟩, hi,
    by rw [List.getD_eq_getElem _ _ hi, at_i]⟩
  have hj' : j < (children.map (·.id)).length := by simpa using Nat.lt_trans hji hi
  have hi' : i < (children.map (·.id)).length := by simpa using hi
  have := (List.Nodup.getElem_inj_iff ids).mp
    (show (children.map (·.id))[j] = (children.map (·.id))[i] by simpa [at_i] using same)
  omega

theorem sum_filter_id {cs : List Node} {i : Nat} (ids : (cs.map (·.id)).Nodup) (hi : i < cs.length)
    (f : Node → Int) :
    ((cs.filter (·.id ≠ (cs.getD i default).id)).map f).sum + f (cs.getD i default) = (cs.map f).sum := by
  induction cs generalizing i with
  | nil => simp at hi
  | cons c cs ih =>
    simp only [List.map_cons, List.nodup_cons, List.mem_map, not_exists, not_and] at ids
    cases i with
    | zero =>
      have others : cs.filter (·.id ≠ c.id) = cs :=
        List.filter_eq_self.mpr fun x mem => by simpa using fun same => ids.1 x mem same
      rw [List.getD_cons_zero, List.filter_cons_of_neg (by simp), others, List.map_cons, List.sum_cons]
      omega
    | succ k =>
      have inside : k < cs.length := by simpa using hi
      have other : c.id ≠ (cs.getD k default).id := fun same =>
        ids.1 _ (by rw [List.getD_eq_getElem _ _ inside]; exact List.getElem_mem inside) same.symm
      have := ih ids.2 inside
      simp only [List.getD_cons_succ, List.filter_cons, other, ne_eq, not_false_eq_true, decide_True,
        if_true, List.map_cons, List.sum_cons] at this ⊢
      omega

section Limits

variable {o : Orientation} {r : Rect} {children : List Node} {window : Node} {i : Nat}
  (ids : (children.map (·.id)).Nodup) (hi : i < children.length) (atI : children.getD i default = window)
  (total : (children.map (·.rect.dimension o)).sum = available o r children.length)
  (aboveMin : ∀ c ∈ children, minDimension o c ≤ c.rect.dimension o)
include ids hi atI total aboveMin

theorem dimension_le_resizeMax : window.rect.dimension o ≤ resizeMax o r children window := by
  have whole := sum_filter_id ids hi (·.rect.dimension o)
  have mins : ((children.filter (·.id ≠ window.id)).map (minDimension o)).sum ≤
      ((children.filter (·.id ≠ window.id)).map (·.rect.dimension o)).sum :=
    List.sum_le_sum fun c mem => aboveMin c (List.mem_of_mem_filter mem)
  rw [atI] at whole
  unfold resizeMax
  omega

theorem clampSize_bounds (size : Int) :
    minDimension o window ≤ clampSize (minDimension o window) (resizeMax o r children window) size ∧
      clampSize (minDimension o window) (resizeMax o r children window) size ≤ resizeMax o r children window := by
  have := dimension_le_resizeMax ids hi atI total aboveMin
  have := aboveMin window (atI ▸ by rw [List.getD_eq_getElem _ _ hi]; exact List.getElem_mem hi)
  dsimp only [clampSize]
  split_ifs <;> omega

end Limits

section Resize

variable {o : Orientation} {position : Int} {children : List Node}

theorem Resized.refl (laid : Cgdb.contiguous o position (children.map (·.rect)) = true)
    (aboveMin : ∀ c ∈ children, minDimension o c ≤ c.rect.dimension o) : Resized o position children children :=
  ⟨laid, rfl, aboveMin, fun _ _ => rfl⟩

theorem blind_idMin : Blind o fun c : Node => (c.id, minDimension o c) := fun n a b => by
  simp only [Node.move, Node.grow, Node.id_setRect, minDimension_setRect]

theorem giveToNext_resized {i : Nat} {desired : Int} (two : 2 ≤ children.length) (hi : i < children.length)
    (laid : contiguous o position (children.map (·.rect)) = true)
    (aboveMin : ∀ c ∈ children, minDimension o c ≤ c.rect.dimension o) (shrinks : desired < 0)
    (keepsMin : minDimension o (children.getD i default) ≤ (children.getD i default).rect.dimension o + desired) :
    Resized o position children (giveToNext o i desired children) ∧
      ((giveToNext o i desired children).getD i default).rect.dimension o =
        (children.getD i default).rect.dimension o + desired := by
  rw [giveToNext_eq desired two]
  have apart : i ≠ (if i + 1 = children.length then i - 1 else i + 1) := by split_ifs <;> omega
  refine ⟨(Resized.refl laid aboveMin).transferred ⟨hi, by split_ifs <;> omega⟩ (by omega)
    (by unfold avail; omega), ?_⟩
  rw [dimension_transfer _ _ _ hi]
  simp [transferGrows, apart]

theorem Borrowing.taken_of_drained {i : Nat} {desired actual : Int} {cs : List Node}
    (final : Borrowing o position i desired children cs actual) (ids : (children.map (·.id)).Nodup)
    (hi : i < children.length) (zero : Drained o i cs (0 ≤ ·)) :
    actual = (children.map (·.rect.dimension o)).sum - (children.getD i default).rect.dimension o -
      ((children.filter (·.id ≠ (children.getD i default).id)).map (minDimension o)).sum := by
  have wid : (cs.getD i default).id = (children.getD i default).id := final.getD blind_id i
  have sameMins : ((cs.filter (·.id ≠ (children.getD i default).id)).map (minDimension o)) =
      ((children.filter (·.id ≠ (children.getD i default).id)).map (minDimension o)) := by
    simpa [List.filter_map, Function.comp_def] using
      congrArg (fun l => (l.filter (·.1 ≠ (children.getD i default).id)).map Prod.snd) (final.frame _ blind_idMin)
  have atMin : ((cs.filter (·.id ≠ (children.getD i default).id)).map (·.rect.dimension o)) =
      ((cs.filter (·.id ≠ (children.getD i default).id)).map (minDimension o)) := by
    refine List.map_congr_left fun x mem => ?_
    obtain ⟨inState, other⟩ := List.mem_filter.mp mem
    have other : x.id ≠ (children.getD i default).id := of_decide_eq_true other
    obtain ⟨k, hk, rfl⟩ := List.getElem_of_mem inState
    have apart : k ≠ i := fun same => other (by subst same; rw [← List.getD_eq_getElem _ default hk]; exact wid)
    have := zero k apart hk (Nat.zero_le _)
    unfold avail at this
    rw [List.getD_eq_getElem _ _ hk] at this
    omega
  have stateIds : (cs.map (·.id)).Nodup := by
    rw [show cs.map (·.id) = children.map (·.id) by
      simpa [List.map_map, Function.comp_def] using congrArg (List.map Prod.fst) (final.frame _ blind_idMin)]
    exact ids
  have whole := sum_filter_id stateIds (by rw [final.length]; exact hi) (·.rect.dimension o)
  rw [wid, atMin, sameMins, final.window, final.total] at whole
  omega

theorem borrow_resized {i : Nat} {desired : Int} (ids : (children.map (·.id)).Nodup) (hi : i < children.length)
    (laid : contiguous o position (children.map (·.rect)) = true)
    (aboveMin : ∀ c ∈ children, minDimension o c ≤ c.rect.dimension o) (grows : 0 < desired)
    (room : desired ≤ (children.map (·.rect.dimension o)).sum - (children.getD i default).rect.dimension o -
      ((children.filter (·.id ≠ (children.getD i default).id)).map (minDimension o)).sum) :
    Borrowing o position i desired children
      (borrowBefore o i desired i (borrowAfter o i desired (children.length - (i + 1)) children 0 (i + 1)).1
        (borrowAfter o i desired (children.length - (i + 1)) children 0 (i + 1)).2).1 desired := by
  have start : Borrowing o position i desired children children 0 :=
    ⟨Resized.refl laid aboveMin, by simp, le_rfl, grows.le⟩
  obtain ⟨after, drained⟩ := borrowAfter_spec (children.length - (i + 1)) start (Nat.lt_succ_self i) (by omega)
    (.inr fun k _ _ _ => by omega)
  obtain ⟨final, all⟩ := borrowBefore_spec (m := i) hi after le_rfl drained
  -- either all is taken, or every other child is down to its minimum and the room bounds what was taken
  rcases all with done | zero
  · rwa [done] at final
  · have := final.taken_of_drained ids hi zero
    have := final.taken
    rwa [show (borrowBefore o i desired i _ _).2 = desired by omega] at final

end Resize

theorem map_placeMoved {event : Node → Node} {α : Type} {g : Node → α} (keeps : ∀ n, g (event n) = g n) :
    ∀ {before after : List Node}, before.length = after.length → (placeMoved event before after).map g = after.map g
  | [], [], _ => rfl
  | old :: before, child :: after, len => by
    show (_ :: placeMoved event before after).map g = _
    rw [List.map_cons, List.map_cons, map_placeMoved keeps (by simpa using len)]
    congr 1
    dsimp only
    split <;> simp [keeps]
  | [], _ :: _, len | _ :: _, [], len => by simp at len

section Valid

variable {o : Orientation} {position : Int} {children : List Node}

theorem resized_valid {resized children' : List Node} {window : Node} {i : Nat} {size : Int}
    (done : Resized o position children resized) (hi : i < children.length) (atI : children.getD i default = window)
    (dimI : (resized.getD i default).rect.dimension o = size)
    (same : children'.map (fun c => (c.erase, minDimension o c, c.rect)) =
      resized.map (fun c => (c.erase, minDimension o c, c.rect))) :
    (∃ w ∈ children', w.id = window.id ∧ w.rect.dimension o = size) ∧
      contiguous o position (children'.map (·.rect)) = true ∧
      (children'.map (·.rect.dimension o)).sum = (children.map (·.rect.dimension o)).sum ∧
      (∀ c ∈ children', minDimension o c ≤ c.rect.dimension o) ∧
      children'.map (·.rect.position o.cross) = children.map (·.rect.position o.cross) ∧
      children'.map (·.rect.dimension o.cross) = children.map (·.rect.dimension o.cross) ∧
      children'.map Node.erase = children.map Node.erase := by
  have view : ∀ {β : Type} (f : Node × Int × Rect → β),
      children'.map (fun c => f (c.erase, minDimension o c, c.rect)) =
        resized.map (fun c => f (c.erase, minDimension o c, c.rect)) := fun f => by
    simpa [List.map_map, Function.comp_def] using congrArg (List.map f) same
  have rects : children'.map (·.rect) = resized.map (·.rect) := view (·.2.2)
  have erased : children'.map Node.erase = children.map Node.erase := (view (·.1)).trans (done.frame _ blind_erase)
  have inside : i < children'.length := by
    have := congrArg List.length erased
    simp only [List.length_map] at this
    omega
  refine ⟨⟨children'.getD i default, by rw [List.getD_eq_getElem _ _ inside]; exact List.getElem_mem inside,
      ?_, ?_⟩, by rw [rects]; exact done.contiguous, by rw [← done.total, ← view (·.2.2.dimension o)],
      fun c mem => ?_, (view (·.2.2.position o.cross)).trans (done.frame _ blind_position_cross),
      (view (·.2.2.dimension o.cross)).trans (done.frame _ blind_dimension_cross), erased⟩
  · rw [← atI, ← Node.id_erase, getD_of_map_eq erased, Node.id_erase]
  · rw [← dimI, getD_of_map_eq rects]
  · have seen : (minDimension o c, c.rect.dimension o) ∈ resized.map fun c => (minDimension o c, c.rect.dimension o) := by
      rw [← view fun q => (q.2.1, q.2.2.dimension o)]
      exact List.mem_map_of_mem _ mem
    obtain ⟨d, inResized, eq⟩ := List.mem_map.mp seen
    simp only [Prod.mk.injEq] at eq
    rw [← eq.1, ← eq.2]
    exact done.aboveMin d inResized

end Valid

/-- `wm_splitter_resize_window` on a valid layout: every splitter with at least
two children placed one after another (past separator columns when vertical),
their sizes along the split adding up to its extent, each child at least its
minimum and each child once. For every child `window`, the split's own
direction and every `size`, it returns `0`; `window` then has `size` clamped to
`[min, max]` with `max` as the code computes it; the children are still
contiguous, in the same order, with the same total and each at least its
minimum; their places across the split and everything else of the tree are
unchanged. -/
theorem resizeWindow_valid (p : Proportions) {sid : Nat} {r : Rect} {o : Orientation} {children : List Node}
    {cap : Nat} {window : Node} {position : Int} (size : Int) (two : 2 ≤ children.length)
    (laid : contiguous o position (children.map (·.rect)) = true)
    (total : (children.map (·.rect.dimension o)).sum = available o r children.length)
    (aboveMin : ∀ c ∈ children, minDimension o c ≤ c.rect.dimension o)
    (ids : (children.map (·.id)).Nodup) (child : window ∈ children) :
    ∃ children', resizeWindow (layoutEvent p) (.splitter sid r o children cap) window o size =
        some (.splitter sid r o children' cap) ∧
      (∃ w ∈ children', w.id = window.id ∧
        w.rect.dimension o = clampSize (minDimension o window) (resizeMax o r children window) size) ∧
      contiguous o position (children'.map (·.rect)) = true ∧
      (children'.map (·.rect.dimension o)).sum = (children.map (·.rect.dimension o)).sum ∧
      (∀ c ∈ children', minDimension o c ≤ c.rect.dimension o) ∧
      children'.map (·.rect.position o.cross) = children.map (·.rect.position o.cross) ∧
      children'.map (·.rect.dimension o.cross) = children.map (·.rect.dimension o.cross) ∧
      children'.map Node.erase = children.map Node.erase := by
  obtain ⟨i, found, hi, atI⟩ := findChild_of_mem ids child
  obtain ⟨low, high⟩ := clampSize_bounds ids hi atI total aboveMin size
  set clamped := clampSize (minDimension o window) (resizeMax o r children window) size
  have start := Resized.refl laid aboveMin
  have keeps : ∀ n, ((layoutEvent p n).erase, minDimension o (layoutEvent p n), (layoutEvent p n).rect) =
      (n.erase, minDimension o n, n.rect) := fun n => by
    rw [minDimension_layoutEvent, erase_layoutEvent, layoutEvent, rect_layout]
  simp only [resizeWindow, if_neg (show children.length ≠ 1 by omega), ne_eq, not_true_eq_false, if_false, found]
  split_ifs with still shrinks
  · exact ⟨children, rfl, resized_valid start hi atI (by rw [atI]; omega) rfl⟩
  · obtain ⟨done, dimI⟩ := giveToNext_resized two hi laid aboveMin shrinks (by rw [atI]; omega)
    exact ⟨_, rfl, resized_valid done hi atI (by rw [dimI, atI]; omega) (map_placeMoved keeps done.length.symm)⟩
  · have grown : Borrowing o position i (clamped - window.rect.dimension o) children _ _ :=
      borrow_resized ids hi laid aboveMin (by omega) (by rw [atI, total]; unfold resizeMax at high; omega)
    exact ⟨_, rfl, resized_valid grown.toResized hi atI (by rw [grown.window, atI]; omega)
      (map_placeMoved keeps grown.length.symm)⟩

/-- Three panes stacked in 10 rows. -/
def stackedThree : List Node :=
  [.leaf 1 ⟨0, 0, 3, 80⟩ 1 1, .leaf 2 ⟨3, 0, 3, 80⟩ 1 1, .leaf 3 ⟨6, 0, 4, 80⟩ 1 1]

theorem resizeWindow_valid_first :
    ∃ children', resizeWindow (layoutEvent floatProportions) (.splitter 0 ⟨0, 0, 10, 80⟩ .horizontal stackedThree 4)
        (.leaf 1 ⟨0, 0, 3, 80⟩ 1 1) .horizontal 6 = some (.splitter 0 ⟨0, 0, 10, 80⟩ .horizontal children' 4) ∧
      (∃ w ∈ children', w.id = 1 ∧ w.rect.dimension .horizontal =
        clampSize (minDimension .horizontal (.leaf 1 ⟨0, 0, 3, 80⟩ 1 1))
          (resizeMax .horizontal ⟨0, 0, 10, 80⟩ stackedThree (.leaf 1 ⟨0, 0, 3, 80⟩ 1 1)) 6) ∧
      contiguous .horizontal 0 (children'.map (·.rect)) = true ∧
      (children'.map (·.rect.dimension .horizontal)).sum = (stackedThree.map (·.rect.dimension .horizontal)).sum ∧
      (∀ c ∈ children', minDimension .horizontal c ≤ c.rect.dimension .horizontal) ∧
      children'.map (·.rect.position Orientation.horizontal.cross) =
        stackedThree.map (·.rect.position Orientation.horizontal.cross) ∧
      children'.map (·.rect.dimension Orientation.horizontal.cross) =
        stackedThree.map (·.rect.dimension Orientation.horizontal.cross) ∧
      children'.map Node.erase = stackedThree.map Node.erase :=
  resizeWindow_valid floatProportions 6 (by decide) (by decide) (by decide) (by decide) (by decide)
    (List.mem_cons_self _ _)

theorem redistributes_of_unit (p : Proportions) (o : Orientation) (extent : Int) {children : List Node} {c : Node}
    (mem : c ∈ children) (unit : c.rect.height = 1 ∧ c.rect.width = 1) : redistributes p o extent children = true :=
  List.any_eq_true.mpr ⟨c, mem, by simp [unit]⟩

/-- A splitter of 3 rows and 1 column whose children tile it exactly: a pane
of 1 row, legitimately `1 x 1`, above a pane of 2 rows. -/
def unitAbove : Node :=
  .splitter 0 ⟨0, 0, 3, 1⟩ .horizontal [.leaf 1 ⟨0, 0, 1, 1⟩ 1 1, .leaf 2 ⟨1, 0, 2, 1⟩ 1 1] 4

/-- The `1 x 1` test takes the first pane for a window never laid out, so
`wm_splitter_layout` shares the 3 rows out equally, whatever the proportions:
each pane gets `3 / 2 = 1` row, the second pane shrinks and the third row goes
to neither. -/
theorem layout_moves_tiled_children (p : Proportions) :
    unitAbove.laidOut = true ∧
      (∀ c ∈ unitAbove.children, minDimension .horizontal c ≤ c.rect.dimension .horizontal) ∧
      unitAbove.children.map (·.rect) = [⟨0, 0, 1, 1⟩, ⟨1, 0, 2, 1⟩] ∧
      (layout p 1 unitAbove).children.map (·.rect) = [⟨0, 0, 1, 1⟩, ⟨1, 0, 1, 1⟩] := by
  have unit := redistributes_of_unit p .horizontal
    (available .horizontal ⟨0, 0, 3, 1⟩ [Node.leaf 1 ⟨0, 0, 1, 1⟩ 1 1, .leaf 2 ⟨1, 0, 2, 1⟩ 1 1].length)
    (List.mem_cons_self (Node.leaf 1 ⟨0, 0, 1, 1⟩ 1 1) [Node.leaf 2 ⟨1, 0, 2, 1⟩ 1 1]) ⟨rfl, rfl⟩
  refine ⟨by decide, by decide, rfl, ?_⟩
  rw [unitAbove, layout_children p 0, newSizes, if_pos unit, sizesSum, if_pos unit]
  rfl

section Fixed

variable {o : Orientation} {r : Rect}

theorem fills_sum {position : Int} {rects : List Rect} (laid : fills o r position rects = true) :
    position + (rects.map (·.dimension o)).sum + rects.length * gap o = r.position o + r.dimension o + gap o := by
  induction rects generalizing position with
  | nil => simpa [fills] using laid
  | cons c cs ih =>
    have := ih (fills_cons.mp laid).2.2
    simp only [List.map_cons, List.sum_cons, List.length_cons] at this ⊢
    push_cast at this ⊢
    linarith

theorem fills_nonneg {position : Int} {rects : List Rect} (laid : fills o r position rects = true) :
    ∀ c ∈ rects, 0 ≤ c.dimension o := by
  induction rects generalizing position with
  | nil => simp
  | cons c cs ih =>
    obtain ⟨-, size, rest⟩ := fills_cons.mp laid
    exact List.forall_mem_cons.mpr ⟨size, ih rest⟩

theorem placeLoop_fixed {event : Node → Node} (keeps : ∀ child, (event child).rect = child.rect) :
    ∀ {position : Int} {cs : List Node}, fills o r position (cs.map (·.rect)) = true →
      (placeLoop o r event cs (cs.map (·.rect.dimension o)) position 0).map (·.rect) = cs.map (·.rect)
  | _, [], _ => rfl
  | position, c :: cs, laid => by
    obtain ⟨placed, -, rest⟩ := fills_map_cons.mp laid
    simp only [List.map_cons, placeLoop, growLoop_zero, bne_self_eq_false, Bool.false_and, Bool.false_eq_true,
      if_false, keeps, Node.rect_setRect]
    rw [← placed, placeLoop_fixed keeps rest]

theorem fills_extent {children : List Node} (tiled : fills o r (r.position o) (children.map (·.rect)) = true) :
    (children.map (·.rect.dimension o)).sum = available o r children.length := by
  have := fills_sum tiled
  simp only [List.map_map, Function.comp_def, List.length_map] at this
  cases o <;> simp only [available, gap, Rect.dimension, Rect.position] at this ⊢ <;> omega

theorem fills_bounded {children : List Node} (tiled : fills o r (r.position o) (children.map (·.rect)) = true) :
    ∀ c ∈ children, 0 ≤ c.rect.dimension o ∧ c.rect.dimension o ≤ available o r children.length := fun c mem => by
  have nonneg : ∀ c ∈ children, 0 ≤ c.rect.dimension o := fun c mem =>
    fills_nonneg tiled _ (List.mem_map_of_mem _ mem)
  exact ⟨nonneg c mem,
    fills_extent tiled ▸ List.single_le_sum (List.forall_mem_map.mpr nonneg) _ (List.mem_map_of_mem _ mem)⟩

/-- A splitter that `wm_splitter_layout` with the source's `float`s leaves where
it is: its children tile it exactly, each at least its minimum along the split
and none `1 x 1`; the extent is positive, so that the proportions divide by a
nonzero sum, and below 4096, so that a size times the extent is an exact
`float`; and every child's size comes back from `(int)(size / extent * extent)`.
A pane asks nothing. -/
def Node.settled : Node → Bool
  | .leaf .. => true
  | .splitter _ r o children _ =>
    fills o r (r.position o) (children.map (·.rect)) && decide (0 < available o r children.length) &&
      decide (available o r children.length < 4096) &&
      children.all fun c => decide (minDimension o c ≤ c.rect.dimension o) &&
        !(c.rect.height == 1 && c.rect.width == 1) &&
        floatProportions.share (c.rect.dimension o) (available o r children.length)
          (available o r children.length) == c.rect.dimension o

theorem settled_splitter {sid : Nat} {children : List Node} {cap : Nat} :
    (Node.splitter sid r o children cap).settled = true ↔
      fills o r (r.position o) (children.map (·.rect)) = true ∧ 0 < available o r children.length ∧
        available o r children.length < 4096 ∧ ∀ c ∈ children, minDimension o c ≤ c.rect.dimension o ∧
          ¬(c.rect.height = 1 ∧ c.rect.width = 1) ∧
          floatProportions.share (c.rect.dimension o) (available o r children.length)
            (available o r children.length) = c.rect.dimension o := by
  simp only [Node.settled, Bool.and_eq_true, decide_eq_true_eq, List.all_eq_true, Bool.not_eq_true',
    Bool.and_eq_false_iff, beq_eq_false_iff_ne, beq_iff_eq, and_assoc, not_and_or]

theorem newSizes_settled {sid : Nat} {children : List Node} {cap : Nat}
    (settled : (Node.splitter sid r o children cap).settled = true) :
    redistributes floatProportions o (available o r children.length) children = false ∧
      newSizes floatProportions o (available o r children.length) children = children.map (·.rect.dimension o) := by
  obtain ⟨tiled, -, small, each⟩ := settled_splitter.mp settled
  have keep : redistributes floatProportions o (available o r children.length) children = false := by
    refine List.any_eq_false.mpr fun c mem => ?_
    obtain ⟨low, high⟩ := fills_bounded tiled c mem
    obtain ⟨above, placed, -⟩ := each c mem
    simp only [floatProportions_below low high small above, Bool.false_or, Bool.and_eq_true, beq_iff_eq]
    exact placed
  refine ⟨keep, ?_⟩
  rw [newSizes, if_neg (by simp [keep]), fills_extent tiled]
  exact List.map_congr_left fun c mem => (each c mem).2.2

theorem layout_keeps_sizes (p : Proportions) (sid : Nat) {children : List Node} (cap fuel : Nat)
    (tiled : fills o r (r.position o) (children.map (·.rect)) = true)
    (keep : redistributes p o (available o r children.length) children = false)
    (sizes : newSizes p o (available o r children.length) children = children.map (·.rect.dimension o)) :
    (layout p (fuel + 1) (.splitter sid r o children cap)).children.map (·.rect) = children.map (·.rect) := by
  rw [layout_children, sizes, sizesSum, if_neg (by simp [keep]), sizes, fills_extent tiled, sub_self]
  exact placeLoop_fixed (fun child => by simp) tiled

/-- A settled splitter is laid out where it is. -/
theorem layout_keeps_tiling (sid : Nat) {children : List Node} (cap fuel : Nat)
    (settled : (Node.splitter sid r o children cap).settled = true) :
    (layout floatProportions (fuel + 1) (.splitter sid r o children cap)).children.map (·.rect) =
      children.map (·.rect) :=
  layout_keeps_sizes _ sid cap fuel (settled_splitter.mp settled).1 (newSizes_settled settled).1
    (newSizes_settled settled).2

theorem layout_keeps_tiling_stacked :
    (Node.splitter 0 ⟨0, 0, 10, 80⟩ .horizontal [.leaf 1 ⟨0, 0, 4, 80⟩ 1 1, .leaf 2 ⟨4, 0, 6, 80⟩ 1 1] 4).settled ∧
      (layout floatProportions 1 (.splitter 0 ⟨0, 0, 10, 80⟩ .horizontal
        [.leaf 1 ⟨0, 0, 4, 80⟩ 1 1, .leaf 2 ⟨4, 0, 6, 80⟩ 1 1] 4)).children.map (·.rect) =
        [⟨0, 0, 4, 80⟩, ⟨4, 0, 6, 80⟩] :=
  ⟨by decide, layout_keeps_tiling 0 4 0 (by decide)⟩

/-- Panes of 7 and 16 rows tiling 23 rows, each above its minimum, are not
settled: `7 / 23 * 23` truncates to 6, and the remainder goes to the last
pane. -/
example : (layout floatProportions 1 (.splitter 0 ⟨0, 0, 23, 80⟩ .horizontal
    [.leaf 1 ⟨0, 0, 7, 80⟩ 1 1, .leaf 2 ⟨7, 0, 16, 80⟩ 1 1] 4)).children.map (·.rect) =
    [⟨0, 0, 6, 80⟩, ⟨6, 0, 17, 80⟩] := by
  decide

theorem settled_of_two_pow {sid : Nat} {children : List Node} {cap k : Nat}
    (tiled : fills o r (r.position o) (children.map (·.rect)) = true)
    (extent : available o r children.length = 2 ^ k) (small : k ≤ 11)
    (aboveMin : ∀ c ∈ children, minDimension o c ≤ c.rect.dimension o)
    (placed : ∀ c ∈ children, ¬(c.rect.height = 1 ∧ c.rect.width = 1)) :
    (Node.splitter sid r o children cap).settled = true := by
  have bound : (2 : Int) ^ k ≤ 2 ^ 11 := pow_le_pow_right₀ (by norm_num) small
  refine settled_splitter.mpr ⟨tiled, by rw [extent]; positivity, by rw [extent]; omega, fun c mem => ?_⟩
  obtain ⟨low, high⟩ := fills_bounded tiled c mem
  rw [extent] at high ⊢
  exact ⟨aboveMin c mem, placed c mem, floatProportions_share_two_pow low high (by omega)⟩

/-- With the source's `float`s, a splitter whose children tile an extent that is
a power of two up to 2048, each at least its minimum and none `1 x 1`, is laid
out where it is: every size survives `size / extent * extent`. -/
theorem layout_keeps_two_pow_tiling (sid : Nat) {children : List Node} (cap fuel k : Nat)
    (tiled : fills o r (r.position o) (children.map (·.rect)) = true)
    (extent : available o r children.length = 2 ^ k) (small : k ≤ 11)
    (aboveMin : ∀ c ∈ children, minDimension o c ≤ c.rect.dimension o)
    (placed : ∀ c ∈ children, ¬(c.rect.height = 1 ∧ c.rect.width = 1)) :
    (layout floatProportions (fuel + 1) (.splitter sid r o children cap)).children.map (·.rect) =
      children.map (·.rect) := by
  have settled : (Node.splitter sid r o children cap).settled = true :=
    settled_of_two_pow tiled extent small aboveMin placed
  exact layout_keeps_sizes _ sid cap fuel tiled (newSizes_settled settled).1 (newSizes_settled settled).2

theorem layout_keeps_two_pow_tiling_eight :
    (layout floatProportions 1 (.splitter 0 ⟨0, 0, 8, 80⟩ .horizontal
      [.leaf 1 ⟨0, 0, 3, 80⟩ 1 1, .leaf 2 ⟨3, 0, 5, 80⟩ 1 1] 4)).children.map (·.rect) =
      [⟨0, 0, 3, 80⟩, ⟨3, 0, 5, 80⟩] :=
  layout_keeps_two_pow_tiling 0 4 0 3 (by decide) (by decide) (by decide) (by decide) (by decide)

theorem placeLoop_settled {event : Node → Node} :
    ∀ {position : Int} {cs : List Node}, fills o r position (cs.map (·.rect)) = true → (∀ c ∈ cs, event c = c) →
      placeLoop o r event cs (cs.map (·.rect.dimension o)) position 0 = cs
  | _, [], _, _ => rfl
  | position, c :: cs, laid, fixed => by
    obtain ⟨placed, -, rest⟩ := fills_map_cons.mp laid
    simp only [List.map_cons, placeLoop, growLoop_zero, bne_self_eq_false, Bool.false_and, Bool.false_eq_true,
      if_false]
    rw [← placed, Node.setRect_rect, fixed c (List.mem_cons_self _ _),
      placeLoop_settled rest fun c' mem => fixed c' (List.mem_cons_of_mem _ mem)]

/-- A tree every splitter of which is settled is a fixed point of the layout
event with the source's `float`s: laying it out again, both layout events every
child receives included, changes no window of it. -/
theorem layout_fixes_settled_tree (fuel : Nat) :
    ∀ {n : Node}, n.every Node.settled = true → layout floatProportions fuel n = n := by
  induction fuel with
  | zero => intro n _; rfl
  | succ fuel ih =>
    intro n settled
    cases n with
    | leaf => rfl
    | splitter sid r o children cap =>
      obtain ⟨here, below⟩ := every_splitter.mp settled
      have tiled := (settled_splitter.mp here).1
      obtain ⟨keep, sizes⟩ := newSizes_settled here
      show Node.splitter sid r o (placeLoop o r _ children _ _ _) cap = _
      rw [sizes, sizesSum, if_neg (by simp [keep]), sizes, fills_extent tiled, sub_self,
        placeLoop_settled tiled fun c mem => by rw [ih (below c mem), ih (below c mem)]]

theorem layout_fixes_nested_panes :
    nestedPanes.every Node.settled = true ∧ layoutEvent floatProportions nestedPanes = nestedPanes :=
  ⟨by decide, layout_fixes_settled_tree _ (by decide)⟩

end Fixed

end Cgdb
