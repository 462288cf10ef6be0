import Mathlib

/-! The window tree of `wm_splitter.c`. A window is a leaf or a splitter; a
splitter holds its live `children[0..num_children)` as a list, and a window's
address is its `id`. `wm_splitter_minimum_size` and the two array loops,
`wm_splitter_array_remove` and the insertion loop of `wm_splitter_split`, are
modelled as written. The removal loop deletes exactly the child it finds
(`arrayRemove_eq`); the insertion loop copies upwards, so every slot after the
new one receives the child that stood at its place (`arrayInsert_eq`). -/

namespace Cgdb

/-- `wm_orientation`. -/
inductive Orientation
  | horizontal
  | vertical
  deriving DecidableEq, Repr

/-- A window's `top`, `left`, `real_height` and `real_width`. -/
structure Rect where
  top : Int
  left : Int
  height : Int
  width : Int
  deriving DecidableEq, Repr

/-- `get_position(splitter, window)`. -/
def Rect.position (o : Orientation) (r : Rect) : Int :=
  match o with
  | .horizontal => r.top
  | .vertical => r.left

/-- `get_dimension(splitter, window)`. -/
def Rect.dimension (o : Orientation) (r : Rect) : Int :=
  match o with
  | .horizontal => r.height
  | .vertical => r.width

/-- A window of the tree. The tree holds its windows by value where C holds
pointers to them: it is C's tree of windows as long as no window sits in two
slots, that is, while the addresses below (`Node.ids`) are distinct. Results
about C's tree are stated over such trees; the insertion loop's copies are
where the two part. -/
inductive Node
  /-- Modelled from the spec: a pane, with the `(min_h, min_w)` its
  `minimum_size` policy returns. -/
  | leaf (id : Nat) (rect : Rect) (minHeight minWidth : Int)
  /-- A window with `is_splitter` set, its `children` array holding room for
  `arrayLength` windows. -/
  | splitter (id : Nat) (rect : Rect) (orientation : Orientation) (children : List Node)
      (arrayLength : Nat)
  deriving Repr

instance : Inhabited Node := ⟨.leaf 0 ⟨0, 0, 0, 0⟩ 0 0⟩

def Node.id : Node → Nat
  | .leaf id .. | .splitter id .. => id

def Node.rect : Node → Rect
  | .leaf _ rect .. | .splitter _ rect .. => rect

def Node.isSplitter : Node → Bool
  | .leaf .. => false
  | .splitter .. => true

def Node.children : Node → List Node
  | .leaf .. => []
  | .splitter _ _ _ children _ => children

/-- The window moved to `rect`, as `wm_splitter_place_window` leaves it. -/
def Node.setRect (rect : Rect) : Node → Node
  | .leaf id _ h w => .leaf id rect h w
  | .splitter id _ o children cap => .splitter id rect o children cap

@[simp] theorem Node.id_setRect (rect : Rect) (n : Node) : (n.setRect rect).id = n.id := by
  cases n <;> rfl

@[simp] theorem Node.rect_setRect (rect : Rect) (n : Node) : (n.setRect rect).rect = rect := by
  cases n <;> rfl

@[simp] theorem Node.children_setRect (rect : Rect) (n : Node) :
    (n.setRect rect).children = n.children := by
  cases n <;> rfl

@[simp] theorem Node.isSplitter_setRect (rect : Rect) (n : Node) :
    (n.setRect rect).isSplitter = n.isSplitter := by
  cases n <;> rfl

theorem Node.setRect_rect {n : Node} : n.setRect n.rect = n := by cases n <;> rfl

theorem Node.setRect_setRect {n : Node} {r : Rect} (r' : Rect) : (n.setRect r).setRect r' = n.setRect r' := by
  cases n <;> rfl

mutual
/-- The addresses of the windows of the tree, in preorder. -/
def Node.ids : Node → List Nat
  | .leaf id .. => [id]
  | .splitter id _ _ children _ => id :: idsOf children

def idsOf : List Node → List Nat
  | [] => []
  | child :: rest => child.ids ++ idsOf rest
end

mutual
/-- `window->minimum_size(window, &height, &width)`. -/
def Node.minimumSize : Node → Int × Int
  | .leaf _ _ h w => (h, w)
  | .splitter _ _ o children _ => minimumSizeLoop o children (0, 0)

/-- The loop of `wm_splitter_minimum_size`: sizes add up along the split and
the largest one counts across it. -/
def minimumSizeLoop (o : Orientation) : List Node → Int × Int → Int × Int
  | [], size => size
  | child :: rest, (height, width) =>
    minimumSizeLoop o rest
      (match o with
      | .horizontal =>
        (height + child.minimumSize.1,
          if child.minimumSize.2 > width then child.minimumSize.2 else width)
      | .vertical =>
        (if child.minimumSize.1 > height then child.minimumSize.1 else height,
          width + child.minimumSize.2))
end

/-- `wm_splitter_min_dimension(splitter, window)`. -/
def minDimension (o : Orientation) (window : Node) : Int :=
  match o with
  | .horizontal => window.minimumSize.1
  | .vertical => window.minimumSize.2

/-- `wm_splitter_find_child`: the first slot holding `id`. -/
def findChild (children : List Node) (id : Nat) : Option Nat :=
  children.findIdx? (·.id = id)

/-- `for (j = i; j < num_children; ++j) children[j] = children[j+1];` -/
def shiftDown {α : Type} [Inhabited α] (children : List α) : Nat → Nat → List α
  | _, 0 => children
  | j, k + 1 => shiftDown (children.set j (children.getD (j + 1) default)) (j + 1) k

/-- `wm_splitter_array_remove`: `none` is the `-1` of a window that is not a child. -/
def arrayRemove (children : List Node) (id : Nat) : Option (List Node) :=
  (findChild children id).map fun i =>
    (shiftDown children i (children.length - 1 - i)).take (children.length - 1)

/-- `for (i = pos; i < num_children; ++i) children[i+1] = children[i];` -/
def shiftUp {α : Type} [Inhabited α] (children : List α) : Nat → Nat → List α
  | _, 0 => children
  | i, k + 1 => shiftUp (children.set (i + 1) (children.getD i default)) (i + 1) k

/-- The insertion at the end of `wm_splitter_split`: the shift, then
`children[pos] = obj; num_children++`. The array has room for one more child. -/
def arrayInsert (children : List Node) (pos : Nat) (obj : Node) : List Node :=
  (shiftUp (children ++ [obj]) pos (children.length - pos)).set pos obj

section Shift

variable {α : Type} [Inhabited α]

theorem getElem?_shiftDown (children : List α) {j k : Nat} (hk : j + k < children.length) (m : Nat) :
    (shiftDown children j k)[m]? = if j ≤ m ∧ m < j + k then children[m + 1]? else children[m]? := by
  induction k generalizing children j with
  | zero => rw [if_neg (by omega)]; rfl
  | succ k ih =>
    rw [shiftDown, ih _ (by simp; omega)]
    simp only [List.getElem?_set, List.getD_eq_getElem?_getD,
      List.getElem?_eq_getElem (by omega : j + 1 < children.length), Option.getD_some]
    split_ifs <;> first | rfl | omega | (subst_vars; exact (List.getElem?_eq_getElem _).symm)

theorem length_shiftUp (children : List α) (i k : Nat) :
    (shiftUp children i k).length = children.length := by
  induction k generalizing children i with
  | zero => rfl
  | succ k ih => simp [shiftUp, ih]

theorem getElem?_shiftUp (children : List α) {i k : Nat} (hk : i + k < children.length) (m : Nat) :
    (shiftUp children i k)[m]? = if i < m ∧ m ≤ i + k then children[i]? else children[m]? := by
  induction k generalizing children i with
  | zero => rw [if_neg (by omega)]; rfl
  | succ k ih =>
    rw [shiftUp, ih _ (by simp; omega)]
    simp only [List.getElem?_set, List.getD_eq_getElem?_getD,
      List.getElem?_eq_getElem (by omega : i < children.length), Option.getD_some]
    split_ifs <;> first | rfl | omega

end Shift

/-- `wm_splitter_array_remove` deletes exactly the first slot holding `id`. -/
theorem arrayRemove_eq {children : List Node} {id i : Nat} (found : findChild children id = some i) :
    arrayRemove children id = some (children.eraseIdx i) := by
  have hi := (List.findIdx?_eq_some_iff_findIdx_eq.mp found).1
  rw [arrayRemove, found, Option.map_some']
  congr 1
  apply List.ext_getElem?
  intro m
  rw [List.getElem?_take, getElem?_shiftDown _ (by omega), List.getElem?_eraseIdx]
  split_ifs <;> first | rfl | omega | (rw [List.getElem?_eq_none (by omega)])

/-- The insertion loop of `wm_splitter_split`: the new window lands in slot
`pos`, and every slot after it holds the child that stood at `pos`. -/
theorem arrayInsert_eq (children : List Node) {pos : Nat} (obj : Node) (hpos : pos < children.length) :
    arrayInsert children pos obj =
      children.take pos ++ obj :: List.replicate (children.length - pos) children[pos] := by
  apply List.ext_getElem?
  intro m
  have front : (children.take pos).length = pos := by simp; omega
  rw [arrayInsert, List.getElem?_set, getElem?_shiftUp _ (by simp; omega)]
  simp only [length_shiftUp, List.length_append, List.length_singleton]
  rcases Nat.lt_trichotomy m pos with before | rfl | after
  · rw [if_neg (by omega), if_neg (by omega), List.getElem?_append_left (by omega),
      List.getElem?_append_left (by omega), List.getElem?_take_of_lt before]
  · rw [if_pos rfl, if_pos (by omega), List.getElem?_append_right (by omega), front, Nat.sub_self,
      List.getElem?_cons_zero]
  · rw [if_neg (by omega)]
    by_cases within : m ≤ children.length
    · obtain ⟨k, hk⟩ : ∃ k, m - pos = k + 1 := ⟨m - pos - 1, by omega⟩
      rw [if_pos ⟨after, by omega⟩, List.getElem?_append_left hpos, List.getElem?_append_right (by omega), front,
        hk, List.getElem?_cons_succ, List.getElem?_replicate, if_pos (by omega), List.getElem?_eq_getElem hpos]
    · rw [if_neg (by omega), List.getElem?_eq_none (by simp; omega), List.getElem?_eq_none (by simp; omega)]

theorem arrayInsert_copies :
    1 < [Node.leaf 1 ⟨0, 0, 1, 1⟩ 1 1, .leaf 2 ⟨0, 0, 1, 1⟩ 1 1, .leaf 3 ⟨0, 0, 1, 1⟩ 1 1].length ∧
      arrayInsert [.leaf 1 ⟨0, 0, 1, 1⟩ 1 1, .leaf 2 ⟨0, 0, 1, 1⟩ 1 1, .leaf 3 ⟨0, 0, 1, 1⟩ 1 1] 1
          (.leaf 4 ⟨0, 0, 1, 1⟩ 1 1) =
        [.leaf 1 ⟨0, 0, 1, 1⟩ 1 1, .leaf 4 ⟨0, 0, 1, 1⟩ 1 1, .leaf 2 ⟨0, 0, 1, 1⟩ 1 1,
          .leaf 2 ⟨0, 0, 1, 1⟩ 1 1] :=
  ⟨by decide, (arrayInsert_eq _ _ (by decide)).trans rfl⟩

mutual
/-- The tree with every placement forgotten. -/
def Node.erase : Node → Node
  | .leaf id _ h w => .leaf id ⟨0, 0, 0, 0⟩ h w
  | .splitter id _ o children cap => .splitter id ⟨0, 0, 0, 0⟩ o (eraseAll children) cap

def eraseAll : List Node → List Node
  | [] => []
  | child :: rest => child.erase :: eraseAll rest
end

@[simp] theorem eraseAll_eq (children : List Node) : eraseAll children = children.map Node.erase := by
  induction children with
  | nil => rfl
  | cons child rest ih => simp [eraseAll, ih]

@[simp] theorem Node.id_erase (n : Node) : n.erase.id = n.id := by cases n <;> rfl

@[simp] theorem Node.isSplitter_erase (n : Node) : n.erase.isSplitter = n.isSplitter := by
  cases n <;> rfl

@[simp] theorem Node.erase_setRect (rect : Rect) (n : Node) : (n.setRect rect).erase = n.erase := by
  cases n <;> rfl

@[simp] theorem Node.erase_default : (default : Node).erase = default := rfl

theorem Node.setRect_erase (n : Node) : n.erase.setRect ⟨0, 0, 0, 0⟩ = n.erase := by
  cases n <;> rfl

section Map

variable {α β : Type} [Inhabited α] [Inhabited β] {f : α → β} (hf : f default = default)
include hf

theorem getD_map_default (l : List α) (i : Nat) : (l.map f).getD i default = f (l.getD i default) := by
  rw [List.getD_eq_getElem?_getD, List.getD_eq_getElem?_getD, List.getElem?_map]
  cases l[i]? <;> simp [hf]

theorem shiftDown_map (children : List α) (j k : Nat) :
    (shiftDown children j k).map f = shiftDown (children.map f) j k := by
  induction k generalizing children j with
  | zero => rfl
  | succ k ih => rw [shiftDown, ih, List.map_set, ← getD_map_default hf]; rfl

theorem shiftUp_map (children : List α) (i k : Nat) :
    (shiftUp children i k).map f = shiftUp (children.map f) i k := by
  induction k generalizing children i with
  | zero => rfl
  | succ k ih => rw [shiftUp, ih, List.map_set, ← getD_map_default hf]; rfl

end Map

section Erase

theorem findChild_erase (children : List Node) (id : Nat) :
    findChild (children.map Node.erase) id = findChild children id := by
  simp only [findChild, List.findIdx?_map]
  congr 1
  funext n
  simp

theorem arrayRemove_erase (children : List Node) (id : Nat) :
    (arrayRemove children id).map (·.map Node.erase) = arrayRemove (children.map Node.erase) id := by
  simp only [arrayRemove, findChild_erase, Option.map_map]
  congr 1
  funext i
  simp [List.map_take, shiftDown_map Node.erase_default]

theorem arrayInsert_erase (children : List Node) (pos : Nat) (obj : Node) :
    (arrayInsert children pos obj).map Node.erase =
      arrayInsert (children.map Node.erase) pos obj.erase := by
  simp [arrayInsert, List.map_set, shiftUp_map Node.erase_default]

end Erase

end Cgdb
