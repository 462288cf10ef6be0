import Cgdb.Wm.Splitter

/-! `wm_splitter_get_neighbor` and `wm_splitter_find_window_at`. The walk goes
up the `parent` pointers to the first splitter aligned with the direction,
takes the child before or after the window it came from, and descends into
that child by the cursor position.

On laid-out trees the descent finds, at any cell of a pane, that pane, and a
window the lookup returns is a pane right beyond the starting window's edge,
spanning the cursor across (`getNeighbor_adjacent`).
The lookup returns `NULL` in two cases where a pane lies beyond: the descent
finds nothing when the cursor stands on the separator column between two
panes, and the walk stops at the first aligned splitter even when the window
is at that splitter's edge. -/

namespace Cgdb

/-- Modelled from the spec: `wm_position`, a cell of the screen. -/
structure Position where
  top : Int
  left : Int
  deriving DecidableEq, Repr

/-- Modelled from the spec: the directions of `wm_splitter_get_neighbor`. -/
inductive Direction
  | up
  | down
  | left
  | right
  deriving DecidableEq, Repr

/-- The cursor's coordinate along `o`: the `value` of `wm_splitter_find_window_at`. -/
def Position.coord (o : Orientation) (p : Position) : Int :=
  match o with
  | .horizontal => p.top
  | .vertical => p.left

def Orientation.cross : Orientation → Orientation
  | .horizontal => .vertical
  | .vertical => .horizontal

/-- The orientation of the splitters `dir` moves within: a horizontal splitter
stacks its children from top to bottom. -/
def Direction.axis : Direction → Orientation
  | .up | .down => .horizontal
  | .left | .right => .vertical

/-- `dir` moves to the next child rather than to the previous one. -/
def Direction.forward : Direction → Bool
  | .up | .left => false
  | .down | .right => true

mutual
/-- `wm_splitter_find_window_at(splitter, cursor_pos)`, with the caller's
`result->is_splitter` test: a pane is found as itself. -/
def Node.findWindowAt (cursor : Position) : Node → Option Node
  | pane@(.leaf ..) => some pane
  | .splitter _ _ o children _ => findChildAt cursor o children.length 0 children

/-- The loop of `wm_splitter_find_window_at` from child `i` of `n`. -/
def findChildAt (cursor : Position) (o : Orientation) (n : Nat) : Nat → List Node → Option Node
  | _, [] => none
  | i, child :: rest =>
    let value := cursor.coord o
    let lower := child.rect.position o
    let upper := lower + child.rect.dimension o
    if lower ≤ value ∧ value < upper ∨ i = 0 ∧ value < lower ∨ i = n - 1 ∧ upper ≤ value then
      child.findWindowAt cursor
    else findChildAt cursor o n (i + 1) rest
end

/-- The `WM_UP`/`WM_LEFT` loop: the child before the first child, from slot 1
on, that is `window`. -/
def childBefore (window : Nat) : List Node → Option Node
  | prev :: child :: rest => if child.id = window then some prev else childBefore window (child :: rest)
  | _ => none

/-- The `WM_DOWN`/`WM_RIGHT` loop: the child after the first child, up to slot
`num_children - 2`, that is `window`. -/
def childAfter (window : Nat) : List Node → Option Node
  | child :: next :: rest => if child.id = window then some next else childAfter window (next :: rest)
  | _ => none

/-- The `switch (dir)` of `wm_splitter_get_neighbor`. -/
def sibling (dir : Direction) (window : Nat) (children : List Node) : Option Node :=
  match dir with
  | .up | .left => childBefore window children
  | .down | .right => childAfter window children

/-- `wm_splitter_get_neighbor(splitter, window, dir, cursor_pos)`; `parents`
are the splitters the `parent` pointers reach from `splitter`, innermost first. -/
def getNeighbor (dir : Direction) (cursor : Position) : Node → List Node → Nat → Option Node
  | .splitter sid _ o children _, parents, window =>
    if o = .horizontal ∧ (dir = .left ∨ dir = .right) ∨ o = .vertical ∧ (dir = .up ∨ dir = .down) then
      match parents with
      | [] => none
      | parent :: rest => getNeighbor dir cursor parent rest sid
    else (sibling dir window children).bind (·.findWindowAt cursor)
  | .leaf .., _, _ => none

/-- `parents` are the splitters the `parent` pointers reach from `window`,
innermost first. -/
def Ancestry : Node → List Node → Prop
  | _, [] => True
  | window, parent :: parents => window ∈ parent.children ∧ Ancestry parent parents

/-- Rectangles placed one after another along `o` from `position`, none of
negative size, each spanning `r` across, with a separator column between the
children of a vertical splitter, the last ending where `r` ends. -/
def fills (o : Orientation) (r : Rect) : Int → List Rect → Bool
  | position, [] => position == r.position o + r.dimension o + gap o
  | position, c :: cs => c == childRect o r position (c.dimension o) && decide (0 ≤ c.dimension o) &&
      fills o r (position + c.dimension o + gap o) cs

mutual
/-- Every splitter below holds its children as `wm_splitter_layout` places
them, each window once: a window is its address, and two slots holding one
window would hold one rectangle. -/
def Node.laidOut : Node → Bool
  | .leaf .. => true
  | .splitter _ r o children _ =>
    fills o r (r.position o) (children.map (·.rect)) && decide (children.map (·.id)).Nodup &&
      laidOutAll children

def laidOutAll : List Node → Bool
  | [] => true
  | child :: rest => child.laidOut && laidOutAll rest
end

/-- The cell `p` lies in `r`. -/
def Rect.contains (r : Rect) (p : Position) : Prop :=
  r.top ≤ p.top ∧ p.top < r.top + r.height ∧ r.left ≤ p.left ∧ p.left < r.left + r.width

instance (r : Rect) (p : Position) : Decidable (r.contains p) := by
  unfold Rect.contains; infer_instance

/-- `r` spans the cell `p` along `o`. -/
def Rect.spans (o : Orientation) (r : Rect) (p : Position) : Prop :=
  r.position o ≤ p.coord o ∧ p.coord o < r.position o + r.dimension o

/-- `b` lies right beyond `a`'s edge in direction `dir`: past the separator
column going left or right. -/
def Direction.adjacent (dir : Direction) (a b : Rect) : Prop :=
  match dir with
  | .up => b.top + b.height = a.top
  | .down => b.top = a.top + a.height
  | .left => b.left + b.width + 1 = a.left
  | .right => b.left = a.left + a.width + 1

instance (dir : Direction) (a b : Rect) : Decidable (dir.adjacent a b) := by
  cases dir <;> unfold Direction.adjacent <;> infer_instance

/-- Where a window right beyond `r` in direction `dir` starts going forward, or
ends going back. -/
def Direction.edge (dir : Direction) (r : Rect) : Int :=
  if dir.forward then r.position dir.axis + r.dimension dir.axis + gap dir.axis
  else r.position dir.axis - gap dir.axis

/-- The side of `r` that faces a window `dir` comes from. -/
def Direction.near (dir : Direction) (r : Rect) : Int :=
  if dir.forward then r.position dir.axis else r.position dir.axis + r.dimension dir.axis

/-- The cursor is on the side of `e` that `dir` moves away from. -/
def Direction.behind (dir : Direction) (cursor : Position) (e : Int) : Prop :=
  if dir.forward then cursor.coord dir.axis < e else e ≤ cursor.coord dir.axis

/-- A window found beyond `e`: a pane, facing `e`, spanning the cursor across. -/
structure Lands (dir : Direction) (cursor : Position) (e : Int) (n : Node) : Prop where
  pane : n.isSplitter = false
  near : dir.near n.rect = e
  spans : n.rect.spans dir.axis.cross cursor

theorem Direction.adjacent_iff {dir : Direction} {a b : Rect} : dir.adjacent a b ↔ dir.near b = dir.edge a := by
  cases dir <;> simp only [Direction.adjacent, Direction.near, Direction.edge, Direction.forward,
    Direction.axis, Rect.position, Rect.dimension, gap, Bool.false_eq_true, ↓reduceIte] <;> omega

theorem Direction.behind_edge {dir : Direction} {r : Rect} {cursor : Position} (inside : r.contains cursor) :
    dir.behind cursor (dir.edge r) := by
  cases dir <;> simp only [Rect.contains, Direction.behind, Direction.edge, Direction.forward,
    Direction.axis, Rect.position, Rect.dimension, Position.coord, gap, Bool.false_eq_true,
    ↓reduceIte] at inside ⊢ <;> omega

theorem Rect.spans_of_contains {r : Rect} {cursor : Position} (o : Orientation) (inside : r.contains cursor) :
    r.spans o cursor := by
  cases o <;> simp only [Rect.contains, Rect.spans, Rect.position, Rect.dimension, Position.coord] at * <;>
    omega

@[simp] theorem Orientation.cross_cross (o : Orientation) : o.cross.cross = o := by
  cases o <;> rfl

theorem Orientation.eq_cross_of_ne {o o' : Orientation} (ne : o ≠ o') : o = o'.cross := by
  cases o <;> cases o' <;> simp_all [Orientation.cross]

@[simp] theorem position_childRect (o : Orientation) (r : Rect) (position d : Int) :
    (childRect o r position d).position o = position := by
  cases o <;> rfl

@[simp] theorem position_childRect_cross (o : Orientation) (r : Rect) (position d : Int) :
    (childRect o r position d).position o.cross = r.position o.cross := by
  cases o <;> rfl

@[simp] theorem dimension_childRect_cross (o : Orientation) (r : Rect) (position d : Int) :
    (childRect o r position d).dimension o.cross = r.dimension o.cross := by
  cases o <;> rfl

theorem passes_iff (o : Orientation) (dir : Direction) :
    (o = .horizontal ∧ (dir = .left ∨ dir = .right) ∨ o = .vertical ∧ (dir = .up ∨ dir = .down)) ↔
      o ≠ dir.axis := by
  cases o <;> cases dir <;> simp [Direction.axis]

theorem sibling_eq (dir : Direction) (window : Nat) (children : List Node) :
    sibling dir window children = if dir.forward then childAfter window children else childBefore window children := by
  cases dir <;> rfl

section Fills

variable {o : Orientation} {r : Rect}

theorem fills_cons {position : Int} {c : Rect} {cs : List Rect} :
    fills o r position (c :: cs) = true ↔ c = childRect o r position (c.dimension o) ∧ 0 ≤ c.dimension o ∧
      fills o r (position + c.dimension o + gap o) cs = true := by
  simp [fills, and_assoc]

theorem fills_map_cons {position : Int} {c : Node} {cs : List Node} :
    fills o r position ((c :: cs).map (·.rect)) = true ↔
      c.rect = childRect o r position (c.rect.dimension o) ∧ 0 ≤ c.rect.dimension o ∧
        fills o r (position + c.rect.dimension o + gap o) (cs.map (·.rect)) = true :=
  fills_cons

theorem gap_nonneg (o : Orientation) : 0 ≤ gap o := by
  cases o <;> decide

theorem fills_le {position : Int} {cs : List Rect} (laid : fills o r position cs = true) :
    position ≤ r.position o + r.dimension o + gap o := by
  induction cs generalizing position with
  | nil => simp only [fills, beq_iff_eq] at laid; omega
  | cons c cs ih =>
    obtain ⟨-, size, rest⟩ := fills_cons.mp laid
    have := ih rest
    have := gap_nonneg o
    omega

theorem fills_mem {position : Int} {cs : List Rect} {a : Rect} (laid : fills o r position cs = true)
    (mem : a ∈ cs) :
    a.position o.cross = r.position o.cross ∧ a.dimension o.cross = r.dimension o.cross ∧
      position ≤ a.position o ∧ a.position o + a.dimension o ≤ r.position o + r.dimension o := by
  induction cs generalizing position with
  | nil => simp at mem
  | cons c cs ih =>
    obtain ⟨placed, size, rest⟩ := fills_cons.mp laid
    rcases List.mem_cons.mp mem with rfl | mem
    · have := fills_le rest
      rw [placed]
      simp only [position_childRect, position_childRect_cross, dimension_childRect_cross,
        dimension_childRect, le_refl, true_and]
      omega
    · have := ih rest mem
      have := gap_nonneg o
      omega

end Fills

@[simp] theorem laidOutAll_eq (children : List Node) : laidOutAll children = children.all Node.laidOut := by
  induction children with
  | nil => rfl
  | cons child rest ih => simp [laidOutAll, ih]

theorem laidOut_splitter {sid : Nat} {r : Rect} {o : Orientation} {children : List Node} {cap : Nat} :
    (Node.splitter sid r o children cap).laidOut = true ↔
      fills o r (r.position o) (children.map (·.rect)) = true ∧ (children.map (·.id)).Nodup ∧
        ∀ c ∈ children, c.laidOut = true := by
  simp [Node.laidOut, and_assoc]

section Descent

variable {cursor : Position} {o : Orientation} {r : Rect} {m : Node}

theorem findChildAt_last {n i : Nat} {position : Int} (cs : List Node)
    (laid : fills o r position (cs.map (·.rect)) = true)
    (past : r.position o + r.dimension o ≤ cursor.coord o) (count : i + cs.length = n)
    (found : findChildAt cursor o n i cs = some m) :
    ∃ c ∈ cs, c.rect.position o + c.rect.dimension o = r.position o + r.dimension o ∧
      c.findWindowAt cursor = some m := by
  induction cs generalizing i position with
  | nil => simp [findChildAt] at found
  | cons c cs ih =>
    obtain ⟨placed, _, rest⟩ := fills_map_cons.mp laid
    have lower : c.rect.position o = position := by rw [placed, position_childRect]
    have := fills_le rest
    simp only [findChildAt] at found
    split_ifs at found with picked
    · obtain rfl : cs = [] := List.eq_nil_of_length_eq_zero (by
        simp only [List.length_cons] at count; omega)
      simp only [List.map_nil, fills, beq_iff_eq] at rest
      exact ⟨c, List.mem_cons_self _ _, by omega, found⟩
    · obtain ⟨c', mem, ends, found'⟩ := ih rest (by simp only [List.length_cons] at count; omega) found
      exact ⟨c', List.mem_cons_of_mem _ mem, ends, found'⟩

theorem findChildAt_spans {n i : Nat} {position : Int} (cs : List Node)
    (laid : fills o r position (cs.map (·.rect)) = true)
    (within : cursor.coord o < r.position o + r.dimension o) (start : i = 0 → position ≤ cursor.coord o)
    (count : i + cs.length = n) (found : findChildAt cursor o n i cs = some m) :
    ∃ c ∈ cs, c.rect.spans o cursor ∧ c.findWindowAt cursor = some m := by
  induction cs generalizing i position with
  | nil => simp [findChildAt] at found
  | cons c cs ih =>
    obtain ⟨placed, _, rest⟩ := fills_map_cons.mp laid
    have lower : c.rect.position o = position := by rw [placed, position_childRect]
    simp only [findChildAt] at found
    split_ifs at found with picked
    · refine ⟨c, List.mem_cons_self _ _, ?_, found⟩
      rcases picked with spans | ⟨first, before⟩ | ⟨last, after⟩
      · exact spans
      · exact absurd (start first) (by omega)
      · obtain rfl : cs = [] := List.eq_nil_of_length_eq_zero (by
          simp only [List.length_cons] at count; omega)
        simp only [List.map_nil, fills, beq_iff_eq] at rest
        omega
    · obtain ⟨c', mem, spans, found'⟩ :=
        ih rest (by omega) (by simp only [List.length_cons] at count; omega) found
      exact ⟨c', List.mem_cons_of_mem _ mem, spans, found'⟩

theorem findChildAt_spanning {n i : Nat} {position : Int} {c : Node} (cs : List Node)
    (laid : fills o r position (cs.map (·.rect)) = true) (count : i + cs.length = n) (mem : c ∈ cs)
    (spans : c.rect.spans o cursor) :
    findChildAt cursor o n i cs = c.findWindowAt cursor := by
  induction cs generalizing i position with
  | nil => simp at mem
  | cons d ds ih =>
    obtain ⟨placed, _, rest⟩ := fills_map_cons.mp laid
    have lower : d.rect.position o = position := by rw [placed, position_childRect]
    simp only [findChildAt]
    rcases List.mem_cons.mp mem with rfl | later
    · rw [if_pos (.inl spans)]
    · have after := (fills_mem rest (List.mem_map_of_mem (·.rect) later)).2.2.1
      have notLast : i < n - 1 := by
        have := List.length_pos_of_mem later
        simp only [List.length_cons] at count
        omega
      have := gap_nonneg o
      unfold Rect.spans at spans
      rw [if_neg (by omega)]
      exact ih rest (by simp only [List.length_cons] at count; omega) later

/-- On a laid-out splitter, when the cursor's coordinate along the splitter's
axis lies in a child's extent, `wm_splitter_find_window_at` descends into that
child. -/
theorem findWindowAt_spanning_child {sid : Nat} {so : Orientation} {children : List Node} {cap : Nat}
    {c : Node} (laid : (Node.splitter sid r so children cap).laidOut = true) (mem : c ∈ children)
    (spans : c.rect.spans so cursor) :
    (Node.splitter sid r so children cap).findWindowAt cursor = c.findWindowAt cursor :=
  findChildAt_spanning children (laidOut_splitter.mp laid).1 (Nat.zero_add _) mem spans

/-- Panes 1 and 2 stacked in a 10 by 21 splitter. -/
def stackedPanes : Node :=
  .splitter 0 ⟨0, 0, 10, 21⟩ .horizontal [.leaf 1 ⟨0, 0, 5, 21⟩ 1 1, .leaf 2 ⟨5, 0, 5, 21⟩ 1 1] 4

theorem findWindowAt_spanning_child_below :
    stackedPanes.findWindowAt ⟨7, 3⟩ = (Node.leaf 2 ⟨5, 0, 5, 21⟩ 1 1).findWindowAt ⟨7, 3⟩ :=
  findWindowAt_spanning_child (by decide) (List.mem_cons_of_mem _ (List.mem_singleton_self _)) ⟨by decide, by decide⟩

/-- Panes 3 and 4 side by side, the separator at column 10. -/
def sidePanes : Node :=
  .splitter 2 ⟨5, 0, 5, 21⟩ .vertical [.leaf 3 ⟨5, 0, 5, 10⟩ 1 1, .leaf 4 ⟨5, 11, 5, 10⟩ 1 1] 4

/-- On the separator column 10 of `sidePanes`, a laid-out splitter of two
panes, the cursor lies in neither pane's columns, before the first or past the
last: `wm_splitter_find_window_at` returns `NULL`. -/
theorem findWindowAt_separator :
    sidePanes.laidOut = true ∧ sidePanes.children.length = 2 ∧ sidePanes.findWindowAt ⟨7, 10⟩ = none :=
  ⟨by decide, rfl, rfl⟩

variable {dir : Direction} {e : Int}

theorem findChildAt_lands {sid : Nat} {so : Orientation} {children : List Node} {cap : Nat}
    (laid : (Node.splitter sid r so children cap).laidOut = true) (near : dir.near r = e)
    (spans : r.spans dir.axis.cross cursor) (behind : dir.behind cursor e)
    (found : findChildAt cursor so children.length 0 children = some m) :
    ∃ c ∈ children, dir.near c.rect = e ∧ c.rect.spans dir.axis.cross cursor ∧
      c.findWindowAt cursor = some m := by
  obtain ⟨fill, -, -⟩ := laidOut_splitter.mp laid
  by_cases aligned : so = dir.axis
  · subst aligned
    have across : ∀ c ∈ children, c.rect.spans dir.axis.cross cursor := fun c mem => by
      obtain ⟨top, size, -⟩ := fills_mem fill (List.mem_map_of_mem (·.rect) mem)
      simp only [Rect.spans, top, size] at spans ⊢
      exact spans
    cases forward : dir.forward
    · simp only [Direction.near, Direction.behind, forward, Bool.false_eq_true, ↓reduceIte] at near behind
      obtain ⟨c, mem, ends, found⟩ := findChildAt_last children fill (by omega) (Nat.zero_add _) found
      exact ⟨c, mem, by simp only [Direction.near, forward, Bool.false_eq_true, ↓reduceIte]; omega,
        across c mem, found⟩
    · simp only [Direction.near, Direction.behind, forward, ↓reduceIte] at near behind
      obtain _ | ⟨c, cs⟩ := children
      · simp [findChildAt] at found
      obtain ⟨placed, -, -⟩ := fills_map_cons.mp fill
      have lower : c.rect.position dir.axis = r.position dir.axis := by rw [placed, position_childRect]
      simp only [findChildAt, lower, true_and] at found
      rw [if_pos (by omega)] at found
      exact ⟨c, List.mem_cons_self _ _, by simp only [Direction.near, forward, ↓reduceIte]; omega,
        across c (List.mem_cons_self _ _), found⟩
  · have cross := Orientation.eq_cross_of_ne aligned
    have crossAxis : dir.axis = so.cross := by rw [cross, Orientation.cross_cross]
    obtain ⟨c, mem, spansC, found⟩ := findChildAt_spans children fill
      (by rw [cross]; exact spans.2) (fun _ => by rw [cross]; exact spans.1) (Nat.zero_add _) found
    obtain ⟨top, size, -⟩ := fills_mem fill (List.mem_map_of_mem (·.rect) mem)
    refine ⟨c, mem, ?_, by rw [← cross]; exact spansC, found⟩
    simp only [Direction.near, crossAxis, top, size] at near ⊢
    exact near

theorem Node.findWindowAt_lands (behind : dir.behind cursor e) (window : Node)
    (laid : window.laidOut = true) (near : dir.near window.rect = e)
    (spans : window.rect.spans dir.axis.cross cursor) (found : window.findWindowAt cursor = some m) :
    Lands dir cursor e m :=
  match window with
  | .leaf .. => by
    simp only [Node.findWindowAt, Option.some.injEq] at found
    subst found
    exact ⟨rfl, near, spans⟩
  | .splitter sid r so children cap => by
    obtain ⟨c, mem, nearC, spansC, foundC⟩ := findChildAt_lands laid near spans behind found
    exact Node.findWindowAt_lands behind c ((laidOut_splitter.mp laid).2.2 c mem) nearC spansC foundC
termination_by sizeOf window
decreasing_by
  simp_wf
  have := List.sizeOf_lt_of_mem mem
  omega

theorem contains_of_child {sid : Nat} {so : Orientation} {children : List Node} {cap : Nat} {c : Node}
    (laid : (Node.splitter sid r so children cap).laidOut = true) (mem : c ∈ children)
    (inside : c.rect.contains cursor) : r.contains cursor := by
  have := fills_mem (laidOut_splitter.mp laid).1 (List.mem_map_of_mem (·.rect) mem)
  cases so <;> simp only [Rect.contains, Rect.position, Rect.dimension, Orientation.cross] at * <;> omega

theorem Node.contains_of_get? : ∀ {n : Node} {path : List Nat}, n.laidOut = true → n.get? path = some m →
    m.rect.contains cursor → n.rect.contains cursor
  | n, [], _, found, inside => by
    obtain rfl : n = m := by simpa [Node.get?] using found
    exact inside
  | .leaf .., _ :: _, _, found, _ => by simp [Node.get?] at found
  | .splitter sid r so children cap, i :: path, laid, found, inside => by
    simp only [Node.get?] at found
    cases child : children[i]? with
    | none => simp [child] at found
    | some c =>
      rw [child] at found
      have mem := List.getElem?_mem child
      exact contains_of_child laid mem
        (Node.contains_of_get? ((laidOut_splitter.mp laid).2.2 c mem) found inside)

/-- In a laid-out tree, `wm_splitter_find_window_at` at any cell of any pane
finds that pane. -/
theorem findWindowAt_pane : ∀ {n : Node} {path : List Nat}, n.laidOut = true → n.get? path = some m →
    m.isSplitter = false → m.rect.contains cursor → n.findWindowAt cursor = some m
  | n, [], _, found, pane, _ => by
    obtain rfl : n = m := by simpa [Node.get?] using found
    cases n with
    | leaf => rfl
    | splitter => simp [Node.isSplitter] at pane
  | .leaf .., _ :: _, _, found, _, _ => by simp [Node.get?] at found
  | .splitter sid r so children cap, i :: path, laid, found, pane, inside => by
    simp only [Node.get?] at found
    cases child : children[i]? with
    | none => simp [child] at found
    | some c =>
      rw [child] at found
      have mem := List.getElem?_mem child
      have below := (laidOut_splitter.mp laid).2.2 c mem
      rw [Node.findWindowAt, findChildAt_spanning children (laidOut_splitter.mp laid).1 (Nat.zero_add _) mem
        (Rect.spans_of_contains so (Node.contains_of_get? below found inside))]
      exact findWindowAt_pane below found pane inside

/-- Panes 7 and 8 stacked. -/
def leftPanes : Node :=
  .splitter 3 ⟨0, 0, 6, 10⟩ .horizontal [.leaf 7 ⟨0, 0, 3, 10⟩ 1 1, .leaf 8 ⟨3, 0, 3, 10⟩ 1 1] 4

/-- `leftPanes` left of pane 6. -/
def upperPanes : Node :=
  .splitter 2 ⟨0, 0, 6, 21⟩ .vertical [leftPanes, .leaf 6 ⟨0, 11, 6, 10⟩ 1 1] 4

/-- `upperPanes` above pane 5. -/
def nestedPanes : Node :=
  .splitter 0 ⟨0, 0, 10, 21⟩ .horizontal [upperPanes, .leaf 5 ⟨6, 0, 4, 21⟩ 1 1] 4

theorem findWindowAt_pane_nested :
    nestedPanes.laidOut = true ∧ nestedPanes.get? [0, 0, 1] = some (.leaf 8 ⟨3, 0, 3, 10⟩ 1 1) ∧
      Rect.contains ⟨3, 0, 3, 10⟩ ⟨4, 2⟩ ∧ nestedPanes.findWindowAt ⟨4, 2⟩ = some (.leaf 8 ⟨3, 0, 3, 10⟩ 1 1) :=
  ⟨by decide, rfl, by decide,
    findWindowAt_pane (by decide) (show nestedPanes.get? [0, 0, 1] = some _ from rfl) rfl (by decide)⟩

end Descent

section Walk

variable {dir : Direction} {cursor : Position} {e : Int} {n : Node}

theorem childAfter_next {o : Orientation} {r : Rect} {position : Int} {window next : Node} (cs : List Node)
    (laid : fills o r position (cs.map (·.rect)) = true) (distinct : (cs.map (·.id)).Nodup)
    (mem : window ∈ cs) (found : childAfter window.id cs = some next) :
    next ∈ cs ∧ next.rect.position o = window.rect.position o + window.rect.dimension o + gap o := by
  induction cs generalizing position with
  | nil => simp at mem
  | cons c rest ih =>
    obtain ⟨placed, -, fillRest⟩ := fills_map_cons.mp laid
    obtain _ | ⟨d, rest'⟩ := rest
    · simp [childAfter] at found
    simp only [childAfter] at found
    split_ifs at found with same
    · cases found
      obtain rfl : window = c := List.inj_on_of_nodup_map distinct mem (List.mem_cons_self _ _) same.symm
      obtain ⟨placedNext, -, -⟩ := fills_map_cons.mp fillRest
      refine ⟨List.mem_cons_of_mem _ (List.mem_cons_self _ _), ?_⟩
      rw [placedNext, position_childRect, placed, position_childRect, dimension_childRect]
    · have mem' : window ∈ d :: rest' :=
        (List.mem_cons.mp mem).resolve_left (by rintro rfl; exact same rfl)
      obtain ⟨memNext, after⟩ := ih fillRest (List.nodup_cons.mp distinct).2 mem' found
      exact ⟨List.mem_cons_of_mem _ memNext, after⟩

theorem childBefore_id {window : Nat} {prev : Node} :
    (cs : List Node) → childBefore window cs = some prev → window ∈ cs.map (·.id)
  | [] => by simp [childBefore]
  | [_] => by simp [childBefore]
  | c :: d :: rest => by
    simp only [childBefore]
    split_ifs with same
    · intro; simp [same]
    · intro found
      exact List.mem_cons_of_mem _ (childBefore_id (d :: rest) found)

theorem childBefore_prev {o : Orientation} {r : Rect} {position : Int} {window prev : Node} (cs : List Node)
    (laid : fills o r position (cs.map (·.rect)) = true) (distinct : (cs.map (·.id)).Nodup)
    (mem : window ∈ cs) (found : childBefore window.id cs = some prev) :
    prev ∈ cs ∧ prev.rect.position o + prev.rect.dimension o + gap o = window.rect.position o := by
  induction cs generalizing position with
  | nil => simp at mem
  | cons c rest ih =>
    obtain ⟨placed, -, fillRest⟩ := fills_map_cons.mp laid
    obtain _ | ⟨d, rest'⟩ := rest
    · simp [childBefore] at found
    simp only [childBefore] at found
    split_ifs at found with same
    · cases found
      obtain rfl : window = d :=
        List.inj_on_of_nodup_map distinct mem (List.mem_cons_of_mem _ (List.mem_cons_self _ _)) same.symm
      obtain ⟨placedNext, -, -⟩ := fills_map_cons.mp fillRest
      refine ⟨List.mem_cons_self _ _, ?_⟩
      rw [placedNext, position_childRect, placed, position_childRect, dimension_childRect]
    · have mem' : window ∈ d :: rest' := by
        refine (List.mem_cons.mp mem).resolve_left ?_
        rintro rfl
        exact (List.nodup_cons.mp distinct).1 (childBefore_id _ found)
      obtain ⟨memPrev, before⟩ := ih fillRest (List.nodup_cons.mp distinct).2 mem' found
      exact ⟨List.mem_cons_of_mem _ memPrev, before⟩

theorem sibling_lands {sid : Nat} {r : Rect} {children : List Node} {cap : Nat} {window : Node}
    (laid : (Node.splitter sid r dir.axis children cap).laidOut = true) (mem : window ∈ children)
    (edge : dir.edge window.rect = e) (spans : window.rect.spans dir.axis.cross cursor)
    (behind : dir.behind cursor e)
    (found : (sibling dir window.id children).bind (·.findWindowAt cursor) = some n) :
    Lands dir cursor e n := by
  obtain ⟨fill, distinct, all⟩ := laidOut_splitter.mp laid
  obtain ⟨next, picked, foundNext⟩ := Option.bind_eq_some.mp found
  have across : ∀ c ∈ children, c.rect.position dir.axis.cross = r.position dir.axis.cross ∧
      c.rect.dimension dir.axis.cross = r.dimension dir.axis.cross := fun c mem => by
    obtain ⟨top, size, -⟩ := fills_mem fill (List.mem_map_of_mem (·.rect) mem)
    exact ⟨top, size⟩
  rw [sibling_eq] at picked
  have nearNext : next ∈ children ∧ dir.near next.rect = e := by
    cases forward : dir.forward <;>
      simp only [forward, Bool.false_eq_true, ↓reduceIte, Direction.edge, Direction.near] at picked edge ⊢
    · obtain ⟨mem', prev⟩ := childBefore_prev children fill distinct mem picked
      exact ⟨mem', by omega⟩
    · obtain ⟨mem', after⟩ := childAfter_next children fill distinct mem picked
      exact ⟨mem', by omega⟩
  have spansNext : next.rect.spans dir.axis.cross cursor := by
    simp only [Rect.spans, (across next nearNext.1).1, (across next nearNext.1).2] at spans ⊢
    simp only [(across window mem).1, (across window mem).2] at spans
    exact spans
  exact Node.findWindowAt_lands behind next (all next nearNext.1) nearNext.2 spansNext foundNext

/-- The walk of `wm_splitter_get_neighbor` up the ancestors: a splitter across
`dir` shares the edge and the cursor span of the child it came from. -/
theorem getNeighbor_lands (behind : dir.behind cursor e) :
    ∀ (parents : List Node) {splitter window : Node}, window ∈ splitter.children →
      Ancestry splitter parents → (∀ s ∈ splitter :: parents, s.laidOut = true) →
      dir.edge window.rect = e → window.rect.spans dir.axis.cross cursor →
      getNeighbor dir cursor splitter parents window.id = some n → Lands dir cursor e n
  | _, .leaf .., _, mem, _, _, _, _, _ => by simp [Node.children] at mem
  | parents, .splitter sid r so children cap, window, mem, ancestry, laid, edge, spans, found => by
    rw [getNeighbor.eq_def] at found
    simp only [passes_iff] at found
    split_ifs at found with passes
    · obtain _ | ⟨parent, rest⟩ := parents
      · simp at found
      obtain ⟨top, size, low, high⟩ := fills_mem
        (laidOut_splitter.mp (laid _ (List.mem_cons_self _ _))).1 (List.mem_map_of_mem (·.rect) mem)
      have cross := Orientation.eq_cross_of_ne passes
      have axis : dir.axis = so.cross := by rw [cross, Orientation.cross_cross]
      refine getNeighbor_lands behind rest ancestry.1 ancestry.2
        (fun s mem' => laid s (List.mem_cons_of_mem _ mem')) ?_ ?_ found
      · show dir.edge r = e
        simp only [Direction.edge, axis, top, size] at edge ⊢
        exact edge
      · show r.spans dir.axis.cross cursor
        simp only [Rect.spans, ← cross] at spans ⊢
        omega
    · obtain rfl : so = dir.axis := not_not.mp passes
      exact sibling_lands (laid _ (List.mem_cons_self _ _)) mem edge spans behind found

end Walk

/-- On a laid-out tree, a window `wm_splitter_get_neighbor` returns is a pane
right beyond `window`'s edge in direction `dir`, spanning the cursor across. -/
theorem getNeighbor_adjacent {dir : Direction} {cursor : Position} {window parent n : Node}
    {parents : List Node} (ancestry : Ancestry window (parent :: parents))
    (laid : ∀ s ∈ parent :: parents, s.laidOut = true) (inside : window.rect.contains cursor)
    (found : getNeighbor dir cursor parent parents window.id = some n) :
    n.isSplitter = false ∧ dir.adjacent window.rect n.rect ∧ n.rect.spans dir.axis.cross cursor := by
  have lands := getNeighbor_lands (Direction.behind_edge inside) parents ancestry.1 ancestry.2 laid rfl
    (Rect.spans_of_contains _ inside) found
  exact ⟨lands.pane, Direction.adjacent_iff.mpr lands.near, lands.spans⟩

theorem getNeighbor_below :
    getNeighbor .down ⟨2, 3⟩ stackedPanes [] 1 = some (.leaf 2 ⟨5, 0, 5, 21⟩ 1 1) ∧
      Direction.down.adjacent ⟨0, 0, 5, 21⟩ ⟨5, 0, 5, 21⟩ :=
  ⟨rfl, (@getNeighbor_adjacent .down ⟨2, 3⟩ (.leaf 1 ⟨0, 0, 5, 21⟩ 1 1) stackedPanes _ []
    ⟨List.mem_cons_self _ _, trivial⟩ (by decide) (by decide) rfl).2.1⟩

/-- Pane 1 above `sidePanes`. -/
def paneOverSplit : Node :=
  .splitter 0 ⟨0, 0, 10, 21⟩ .horizontal [.leaf 1 ⟨0, 0, 5, 21⟩ 1 1, sidePanes] 4

/-- Going down from pane 1 with the cursor on column 10, the walk takes
`sidePanes`, the child after pane 1, and descends into it on its separator
column, where it matches no child: `wm_splitter_get_neighbor` returns `NULL`
although pane 3 lies right below. -/
theorem getNeighbor_misses_separator :
    paneOverSplit.laidOut = true ∧ Ancestry (.leaf 1 ⟨0, 0, 5, 21⟩ 1 1) [paneOverSplit] ∧
      Ancestry (.leaf 3 ⟨5, 0, 5, 10⟩ 1 1) [sidePanes, paneOverSplit] ∧
      Rect.contains ⟨0, 0, 5, 21⟩ ⟨2, 10⟩ ∧ getNeighbor .down ⟨2, 10⟩ paneOverSplit [] 1 = none ∧
      Direction.down.adjacent ⟨0, 0, 5, 21⟩ ⟨5, 0, 5, 10⟩ := by
  refine ⟨by decide, ?_, ?_, by decide, rfl, by decide⟩ <;> simp [Ancestry, paneOverSplit, sidePanes, Node.children]

/-- The walk stops at the first splitter aligned with the move: going down from
pane 8 it takes no sibling in `leftPanes`, where pane 8 is last, and never
reaches pane 5 right below. -/
example : getNeighbor .down ⟨4, 2⟩ leftPanes [upperPanes, nestedPanes] 8 = none ∧
    Direction.down.adjacent ⟨3, 0, 3, 10⟩ ⟨6, 0, 4, 21⟩ :=
  ⟨rfl, by decide⟩

end Cgdb
