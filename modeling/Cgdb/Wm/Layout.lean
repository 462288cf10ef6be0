import Cgdb.Wm.Tree
import Cgdb.Wm.Float

/-! `wm_splitter_layout`. The proportions are `float`s. The layout is stated for
any arithmetic of proportions (`Proportions`) and run with the source's
(`floatProportions`).

Whatever the sizes come to, the placing loop gives the last child whatever
remainder is left, so in the proportional branch the children tile the
splitter exactly. The equal-redistribution branch sets `sum` to the whole
extent, so the remainder is zero and `extent % n` rows or columns are dropped
(`layout_sum`). -/

namespace Cgdb

/-- How `wm_splitter_layout` scales sizes: `below extent cur min` is the test
`extent * proportions[i] < min` made while `proportions[i]` still holds the
size `cur`, and `share cur prev extent` is `new_sizes[i]`, the size `cur`
divided by `prev_dimension` and scaled by the extent. -/
structure Proportions where
  below : Int → Int → Int → Bool
  share : Int → Int → Int → Int

/-- The source's arithmetic, in `float`. -/
def floatProportions : Proportions where
  below extent cur min := (Single.mul (.ofInt extent) (.ofInt cur)).lt (.ofInt min)
  share cur prev extent := (Single.mul (Single.div (.ofInt cur) (.ofInt prev)) (.ofInt extent)).toInt

/-- The same arithmetic on exact rationals, truncated towards zero as `(int)`
truncates. -/
def exactProportions : Proportions where
  below extent cur min := decide (extent * cur < min)
  share cur prev extent := (cur * extent).tdiv prev

/-- The extent `wm_splitter_layout` shares out along `o`: `real_height`, or
`real_width - (num_children - 1)` leaving the separator columns. -/
def available (o : Orientation) (r : Rect) (n : Nat) : Int :=
  match o with
  | .horizontal => r.height
  | .vertical => r.width - ((n : Int) - 1)

/-- The first loop of `wm_splitter_layout` sets `redistribute` at the first
child that scaled falls below its minimum or is still the `1 x 1` of a window
never laid out. -/
def redistributes (p : Proportions) (o : Orientation) (extent : Int) (children : List Node) : Bool :=
  children.any fun child =>
    p.below extent (child.rect.dimension o) (minDimension o child) ||
      (child.rect.height == 1 && child.rect.width == 1)

/-- `new_sizes`: equal shares, or shares in proportion to the current sizes. -/
def newSizes (p : Proportions) (o : Orientation) (extent : Int) (children : List Node) : List Int :=
  if redistributes p o extent children then children.map fun _ => extent.tdiv children.length
  else children.map fun child =>
    p.share (child.rect.dimension o) (children.map (·.rect.dimension o)).sum extent

/-- `sum`: the whole extent after redistributing, else the sum of the shares. -/
def sizesSum (p : Proportions) (o : Orientation) (extent : Int) (children : List Node) : Int :=
  if redistributes p o extent children then extent else (newSizes p o extent children).sum

/-- `while (my_dimension < min && remainder) { my_dimension++; remainder--; }`.
Each pass brings `my_dimension` one closer to `min`, so `fuel` passes of
`min - my_dimension` bound it. -/
def growLoop (min : Int) : Nat → Int → Int → Int × Int
  | 0, d, remainder => (d, remainder)
  | fuel + 1, d, remainder =>
    if d < min ∧ remainder ≠ 0 then growLoop min fuel (d + 1) (remainder - 1) else (d, remainder)

/-- The separator column after each child of a vertical splitter. -/
def gap (o : Orientation) : Int :=
  match o with
  | .horizontal => 0
  | .vertical => 1

/-- The rectangle `wm_splitter_place_window` gives a child of size `d` at
`position` in a splitter placed at `r`. -/
def childRect (o : Orientation) (r : Rect) (position d : Int) : Rect :=
  match o with
  | .horizontal => ⟨position, r.left, d, r.width⟩
  | .vertical => ⟨r.top, position, r.height, d⟩

/-- The placing loop of `wm_splitter_layout`: a child's size grows towards its
minimum while the remainder lasts, the last child takes what remains, and
`event` stands for the layout events the placed child receives. -/
def placeLoop (o : Orientation) (r : Rect) (event : Node → Node) :
    List Node → List Int → Int → Int → List Node
  | child :: rest, size :: sizes, position, remainder =>
    let grown := growLoop (minDimension o child) (minDimension o child - size).toNat size remainder
    let last := grown.2 != 0 && rest.isEmpty
    let d := if last then grown.1 + grown.2 else grown.1
    event (child.setRect (childRect o r position d)) ::
      placeLoop o r event rest sizes (position + d + gap o) (if last then 0 else grown.2)
  | _, _, _, _ => []

/-- Modelled from the spec: the layout event of a pane, which draws it in its
new place and changes nothing in the tree. -/
def paneLayout (pane : Node) : Node := pane

/-- `wm_window_layout_event`: a splitter runs `wm_splitter_layout`, whose
`wm_splitter_place_window` and `Notify` step give each child two layout events
of its own. `fuel` bounds the depth of nested splitters. -/
def layout (p : Proportions) : Nat → Node → Node
  | 0, node => node
  | _ + 1, pane@(.leaf ..) => paneLayout pane
  | fuel + 1, .splitter id r o children cap =>
    let extent := available o r children.length
    .splitter id r o
      (placeLoop o r (fun child => layout p fuel (layout p fuel child)) children
        (newSizes p o extent children) (r.position o)
        (extent - sizesSum p o extent children)) cap

/-- Rectangles placed one after another along `o` from `position`, each
spanning the splitter's rectangle `r` across, with a separator column after each
child of a vertical splitter. -/
def Tiles (o : Orientation) (r : Rect) : Int → List Rect → Prop
  | _, [] => True
  | position, c :: cs => c = childRect o r position (c.dimension o) ∧
    Tiles o r (position + c.dimension o + gap o) cs

theorem floatProportions_below {extent d min : Int} (low : 0 ≤ d) (high : d ≤ extent) (small : extent < 4096)
    (above : min ≤ d) : floatProportions.below extent d min = false := by
  rcases le_or_lt min 0 with nonpos | pos
  · exact lt_eq_false_of_mant (mul_mant_nonneg (roundRatio_mant_nonneg _ (by omega)) (roundRatio_mant_nonneg _ low))
      (roundRatio_mant_nonpos _ nonpos)
  lift extent to Nat using (by omega)
  lift d to Nat using low
  lift min to Nat using (by omega)
  have product : extent * d < 2 ^ 24 := calc
    extent * d ≤ 4095 * 4095 := Nat.mul_le_mul (by omega) (by omega)
    _ < 2 ^ 24 := by norm_num
  show (Single.mul (.ofInt extent) (.ofInt d)).lt (.ofInt min) = false
  rw [mul_ofInt (by omega) (by omega) product, lt_ofInt (Nat.mul_pos (by omega) (by omega)) (by omega) product
    (by omega), decide_eq_false_iff_not, not_lt]
  calc min ≤ d := by omega
    _ ≤ extent * d := Nat.le_mul_of_pos_left d (by omega)

theorem floatProportions_share_two_pow {d : Int} {k : Nat} (low : 0 ≤ d) (high : d ≤ 2 ^ k) (small : k ≤ 23) :
    floatProportions.share d (2 ^ k) (2 ^ k) = d := by
  lift d to Nat using low
  have cast : ((2 ^ k : Nat) : Int) = 2 ^ k := by push_cast; rfl
  rw [← cast]
  exact share_two_pow (by exact_mod_cast high) small

@[simp] theorem dimension_childRect (o : Orientation) (r : Rect) (position d : Int) :
    (childRect o r position d).dimension o = d := by
  cases o <;> rfl

theorem growLoop_sum (min : Int) (fuel : Nat) (d remainder : Int) :
    (growLoop min fuel d remainder).1 + (growLoop min fuel d remainder).2 = d + remainder := by
  induction fuel generalizing d remainder with
  | zero => rfl
  | succ fuel ih =>
    simp only [growLoop]
    split
    · rw [ih]; omega
    · rfl

theorem growLoop_zero (min : Int) (fuel : Nat) (d : Int) : growLoop min fuel d 0 = (d, 0) := by
  cases fuel <;> simp [growLoop]

@[simp] theorem rect_layout (p : Proportions) (fuel : Nat) (node : Node) :
    (layout p fuel node).rect = node.rect := by
  cases fuel <;> cases node <;> rfl

section Place

variable {o : Orientation} {r : Rect} {event : Node → Node}
  (keeps : ∀ child, (event child).rect = child.rect)
include keeps

theorem placeLoop_tiles (children : List Node) (sizes : List Int) (position remainder : Int) :
    Tiles o r position ((placeLoop o r event children sizes position remainder).map (·.rect)) := by
  induction children generalizing sizes position remainder with
  | nil => trivial
  | cons child rest ih =>
    cases sizes with
    | nil => trivial
    | cons size sizes =>
      simp only [placeLoop, List.map_cons, Tiles, keeps, Node.rect_setRect, dimension_childRect]
      exact ⟨trivial, ih _ _ _⟩

theorem placeLoop_sum {children : List Node} {sizes : List Int} (position remainder : Int)
    (lengths : sizes.length = children.length) (nonempty : children ≠ []) :
    ((placeLoop o r event children sizes position remainder).map (·.rect.dimension o)).sum =
      sizes.sum + remainder := by
  induction children generalizing sizes position remainder with
  | nil => exact absurd rfl nonempty
  | cons child rest ih =>
    obtain _ | ⟨size, sizes⟩ := sizes
    · simp at lengths
    have grown := growLoop_sum (minDimension o child) (minDimension o child - size).toNat size remainder
    simp only [placeLoop, List.map_cons, List.sum_cons, keeps, Node.rect_setRect, dimension_childRect]
    rcases rest with _ | ⟨next, rest⟩
    · obtain rfl : sizes = [] := List.eq_nil_of_length_eq_zero (by simpa using lengths)
      simp only [List.isEmpty_nil, Bool.and_true, List.map_nil, List.sum_nil, List.sum_cons]
      split <;> simp_all [placeLoop]
    · simp only [List.isEmpty_cons, Bool.and_false, Bool.false_eq_true, ↓reduceIte, List.sum_cons]
      rw [ih _ _ (by simpa using lengths) (List.cons_ne_nil _ _)]
      omega

end Place

theorem layout_children (p : Proportions) (fuel : Nat) (id : Nat) (r : Rect) (o : Orientation)
    (children : List Node) (cap : Nat) :
    (layout p (fuel + 1) (.splitter id r o children cap)).children =
      placeLoop o r (fun child => layout p fuel (layout p fuel child)) children
        (newSizes p o (available o r children.length) children) (r.position o)
        (available o r children.length - sizesSum p o (available o r children.length) children) :=
  rfl

theorem sum_map_const {α : Type} (l : List α) (c : Int) : (l.map fun _ => c).sum = l.length * c := by
  induction l with
  | nil => simp
  | cons _ l ih =>
    rw [List.map_cons, List.sum_cons, ih, List.length_cons]
    push_cast
    rw [Int.add_mul, Int.one_mul]
    omega

theorem length_newSizes (p : Proportions) (o : Orientation) (extent : Int) (children : List Node) :
    (newSizes p o extent children).length = children.length := by
  unfold newSizes; split <;> simp

/-- `wm_splitter_layout` places the children one after another from the
splitter's top (left), each spanning it across, and hands out the whole extent
in the proportional branch but only `n * (extent / n)` of it after an equal
redistribution. The splitter is one of C's: each window in one slot, and in the
proportional branch sizes that do not sum to zero, the divisor of the
proportions. -/
theorem layout_sum (p : Proportions) (fuel : Nat) (id : Nat) (r : Rect) (o : Orientation)
    {children : List Node} (cap : Nat) (nonempty : children ≠ [])
    (_distinct : (Node.splitter id r o children cap).ids.Nodup)
    (_divisor : redistributes p o (available o r children.length) children = false →
      (children.map (·.rect.dimension o)).sum ≠ 0) :
    Tiles o r (r.position o) ((layout p (fuel + 1) (.splitter id r o children cap)).children.map (·.rect)) ∧
      ((layout p (fuel + 1) (.splitter id r o children cap)).children.map (·.rect.dimension o)).sum =
        if redistributes p o (available o r children.length) children then
          children.length * (available o r children.length).tdiv children.length
        else available o r children.length := by
  have keeps : ∀ child, (layout p fuel (layout p fuel child)).rect = child.rect := by simp
  rw [layout_children]
  refine ⟨placeLoop_tiles keeps _ _ _ _, ?_⟩
  rw [placeLoop_sum keeps _ _ (length_newSizes ..) nonempty, sizesSum]
  split
  · rw [newSizes, if_pos ‹_›, sum_map_const]
    omega
  · omega

theorem layout_sum_two_panes :
    [Node.leaf 1 ⟨0, 0, 1, 1⟩ 1 1, .leaf 2 ⟨0, 0, 1, 1⟩ 1 1] ≠ [] ∧
      (Tiles .horizontal ⟨0, 0, 21, 80⟩ 0 ((layout floatProportions 1 (.splitter 0 ⟨0, 0, 21, 80⟩ .horizontal
          [.leaf 1 ⟨0, 0, 1, 1⟩ 1 1, .leaf 2 ⟨0, 0, 1, 1⟩ 1 1] 4)).children.map (·.rect)) ∧
        ((layout floatProportions 1 (.splitter 0 ⟨0, 0, 21, 80⟩ .horizontal
          [.leaf 1 ⟨0, 0, 1, 1⟩ 1 1, .leaf 2 ⟨0, 0, 1, 1⟩ 1 1] 4)).children.map (·.rect.dimension .horizontal)).sum =
          if redistributes floatProportions .horizontal (available .horizontal ⟨0, 0, 21, 80⟩ 2)
              [.leaf 1 ⟨0, 0, 1, 1⟩ 1 1, .leaf 2 ⟨0, 0, 1, 1⟩ 1 1] then
            2 * (available .horizontal ⟨0, 0, 21, 80⟩ 2).tdiv 2
          else available .horizontal ⟨0, 0, 21, 80⟩ 2) :=
  ⟨List.cons_ne_nil _ _, layout_sum floatProportions 0 0 ⟨0, 0, 21, 80⟩ .horizontal 4 (List.cons_ne_nil _ _)
    (by decide) (by decide)⟩

theorem placeLoop_erase {o : Orientation} {r : Rect} {event : Node → Node}
    (keeps : ∀ child, (event child).erase = child.erase) {children : List Node} {sizes : List Int}
    (position remainder : Int) (lengths : sizes.length = children.length) :
    (placeLoop o r event children sizes position remainder).map Node.erase = children.map Node.erase := by
  induction children generalizing sizes position remainder with
  | nil => cases sizes <;> rfl
  | cons child rest ih =>
    obtain _ | ⟨size, sizes⟩ := sizes
    · simp at lengths
    simp only [placeLoop, List.map_cons, keeps, Node.erase_setRect]
    rw [ih _ _ (by simpa using lengths)]

@[simp] theorem erase_layout (p : Proportions) (fuel : Nat) (node : Node) :
    (layout p fuel node).erase = node.erase := by
  induction fuel generalizing node with
  | zero => rfl
  | succ fuel ih =>
    cases node with
    | leaf => rfl
    | splitter id r o children cap =>
      simp only [layout, Node.erase, eraseAll_eq]
      rw [placeLoop_erase (by simp [ih]) _ _ (length_newSizes ..)]

/-- A 21-row horizontal splitter with the two `1 x 1` children a split leaves:
the equal redistribution gives each 10 rows and the 21st row to neither. -/
theorem layout_drops_extent_remainder :
    (layout floatProportions 1 (.splitter 0 ⟨0, 0, 21, 80⟩ .horizontal
      [.leaf 1 ⟨0, 0, 1, 1⟩ 0 0, .leaf 2 ⟨0, 0, 1, 1⟩ 0 0] 4)).children.map (·.rect) =
      [⟨0, 0, 10, 80⟩, ⟨10, 0, 10, 80⟩] := by
  decide

/-- Two panes of 10 rows with minimum heights 1 and 8, in a splitter of 10 rows,
more than the 9 its minimum size asks: no product falls below a minimum, so
the proportional branch halves both, and the second pane gets 5 rows. -/
theorem layout_below_minimum :
    (Node.splitter 0 ⟨0, 0, 10, 80⟩ .horizontal
      [.leaf 1 ⟨0, 0, 10, 80⟩ 1 1, .leaf 2 ⟨10, 0, 10, 80⟩ 8 1] 4).minimumSize = (9, 1) ∧
    (layout floatProportions 1 (.splitter 0 ⟨0, 0, 10, 80⟩ .horizontal
      [.leaf 1 ⟨0, 0, 10, 80⟩ 1 1, .leaf 2 ⟨10, 0, 10, 80⟩ 8 1] 4)).children.map (·.rect) =
      [⟨0, 0, 5, 80⟩, ⟨5, 0, 5, 80⟩] := by
  decide

end Cgdb
