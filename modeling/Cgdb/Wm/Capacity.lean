import Cgdb.Wm.Branching

/-! The `children` arrays of `wm_splitter.c`. A splitter's array has
`array_length` slots, of which the first `num_children` hold its children:
`wm_splitter_create` allocates 4, and the capacity check of
`wm_splitter_split` doubles them when they are all taken. Here the loops run on
the array itself, each load and store checked against its end (`none` past it).

On an array with a slot and no more children than slots, every loop stays
inside it, and the loops compute the list operations of `Tree` that the rest of
the model uses (`arrayRemoveSlots_spec`, `insertSlots_spec`). Every split and
removal keeps every splitter's array so, whatever the layout does, so the
loops stay inside the arrays along every run (`run_children_in_bounds`). -/

namespace Cgdb

/-- A splitter's `children` array: `array_length` slots, the first
`num_children` of them live. -/
structure Slots where
  cells : List Node
  num : Nat

/-- The children the array holds. -/
def Slots.live (a : Slots) : List Node := a.cells.take a.num

/-- `children[i] = n`: `none` past the array's end. -/
def storeSlot (cells : List Node) (i : Nat) (n : Node) : Option (List Node) :=
  if i < cells.length then some (cells.set i n) else none

/-- The loop of `wm_splitter_find_child` over slots `i` to `i + k - 1`;
`some none` is the `-1` of a window the array does not hold. -/
def findChildFrom (cells : List Node) (id : Nat) (i : Nat) : Nat → Option (Option Nat)
  | 0 => some none
  | k + 1 => do
    let child ← cells[i]?
    if child.id = id then pure (some i) else findChildFrom cells id (i + 1) k

/-- `for (j = i; j < num_children; ++j) children[j] = children[j+1];` -/
def shiftDownSlots (cells : List Node) (j : Nat) : Nat → Option (List Node)
  | 0 => some cells
  | k + 1 => do
    let next ← cells[j + 1]?
    let cells ← storeSlot cells j next
    shiftDownSlots cells (j + 1) k

/-- `wm_splitter_array_remove`; `some none` is the `-1` of a window the array
does not hold. -/
def arrayRemoveSlots (a : Slots) (id : Nat) : Option (Option Slots) := do
  match ← findChildFrom a.cells id 0 a.num with
  | none => pure none
  | some i =>
    let cells ← shiftDownSlots a.cells i (a.num - 1 - i)
    pure (some ⟨cells, a.num - 1⟩)

/-- `for (i = pos; i < num_children; ++i) children[i+1] = children[i];` -/
def shiftUpSlots (cells : List Node) (i : Nat) : Nat → Option (List Node)
  | 0 => some cells
  | k + 1 => do
    let child ← cells[i]?
    let cells ← storeSlot cells (i + 1) child
    shiftUpSlots cells (i + 1) k

/-- The end of `wm_splitter_split`: the capacity check, which doubles
`array_length` when every slot is taken (the slots `realloc` adds hold no
window yet), the shift, `children[pos] = obj` and `num_children++`. -/
def insertSlots (a : Slots) (pos : Nat) (obj : Node) : Option Slots := do
  let cells := if a.num = a.cells.length then a.cells ++ List.replicate a.cells.length default else a.cells
  let cells ← shiftUpSlots cells pos (a.num - pos)
  let cells ← storeSlot cells pos obj
  pure ⟨cells, a.num + 1⟩

/-- The parent's loop in `wm_splitter_remove`:
`if (parent->children[i] == self) { parent->children[i] = child; break; }`. -/
def replaceSlots (a : Slots) (id : Nat) (new : Node) : Option Slots := do
  match ← findChildFrom a.cells id 0 a.num with
  | none => pure a
  | some i =>
    let cells ← storeSlot a.cells i new
    pure ⟨cells, a.num⟩

theorem storeSlot_eq {cells : List Node} {i : Nat} (n : Node) (inside : i < cells.length) :
    storeSlot cells i n = some (cells.set i n) := if_pos inside

theorem findChildFrom_eq (cells : List Node) (id : Nat) {i k : Nat} (inside : i + k ≤ cells.length) :
    findChildFrom cells id i k = some (((cells.drop i).take k).findIdx? (·.id = id) i) := by
  induction k generalizing i with
  | zero => simp [findChildFrom]
  | succ k ih =>
    rw [findChildFrom, List.getElem?_eq_getElem (by omega), List.drop_eq_getElem_cons (by omega),
      List.take_succ_cons, List.findIdx?_cons, ih (by omega)]
    by_cases same : cells[i].id = id <;> simp [same]

theorem shiftDownSlots_eq (cells : List Node) {j k : Nat} (inside : j + k < cells.length) :
    shiftDownSlots cells j k = some (shiftDown cells j k) := by
  induction k generalizing cells j with
  | zero => rfl
  | succ k ih =>
    rw [shiftDownSlots, List.getElem?_eq_getElem (by omega), Option.bind_eq_bind, Option.some_bind,
      storeSlot_eq _ (by omega), Option.bind_eq_bind, Option.some_bind, ih _ (by simp; omega), shiftDown,
      List.getD_eq_getElem _ _ (by omega)]

theorem shiftUpSlots_eq (cells : List Node) {i k : Nat} (inside : i + k < cells.length) :
    shiftUpSlots cells i k = some (shiftUp cells i k) := by
  induction k generalizing cells i with
  | zero => rfl
  | succ k ih =>
    rw [shiftUpSlots, List.getElem?_eq_getElem (by omega), Option.bind_eq_bind, Option.some_bind,
      storeSlot_eq _ (by omega), Option.bind_eq_bind, Option.some_bind, ih _ (by simp; omega), shiftUp,
      List.getD_eq_getElem _ _ (by omega)]

section Take

variable {α : Type} [Inhabited α]

theorem length_shiftDown (children : List α) (j k : Nat) : (shiftDown children j k).length = children.length := by
  induction k generalizing children j with
  | zero => rfl
  | succ k ih => simp [shiftDown, ih]

theorem take_shiftDown (cells : List α) {j k n : Nat} (inside : j + k < n) (fits : n ≤ cells.length) :
    (shiftDown cells j k).take n = shiftDown (cells.take n) j k := by
  apply List.ext_getElem?
  intro m
  rw [List.getElem?_take, getElem?_shiftDown _ (by omega), getElem?_shiftDown _ (by simp; omega)]
  by_cases shifted : j ≤ m ∧ m < j + k
  · rw [if_pos shifted, if_pos shifted, if_pos (by omega), List.getElem?_take, if_pos (by omega)]
  · rw [if_neg shifted, if_neg shifted, List.getElem?_take]

theorem take_shiftUp (cells : List α) {i k n : Nat} (inside : i + k < n) (fits : n ≤ cells.length) :
    (shiftUp cells i k).take n = shiftUp (cells.take n) i k := by
  apply List.ext_getElem?
  intro m
  rw [List.getElem?_take, getElem?_shiftUp _ (by omega), getElem?_shiftUp _ (by simp; omega)]
  by_cases shifted : i < m ∧ m ≤ i + k
  · rw [if_pos shifted, if_pos shifted, if_pos (by omega), List.getElem?_take, if_pos (by omega)]
  · rw [if_neg shifted, if_neg shifted, List.getElem?_take]

theorem shiftUp_set_append (l : List α) {pos : Nat} (hpos : pos ≤ l.length) (x y obj : α) :
    (shiftUp (l ++ [x]) pos (l.length - pos)).set pos obj =
      (shiftUp (l ++ [y]) pos (l.length - pos)).set pos obj := by
  apply List.ext_getElem?
  intro m
  rw [List.getElem?_set, List.getElem?_set, getElem?_shiftUp _ (by simp; omega),
    getElem?_shiftUp _ (by simp; omega)]
  simp only [length_shiftUp, List.length_append, List.length_singleton]
  by_cases here : pos = m
  · rw [if_pos here, if_pos here]
  rw [if_neg here, if_neg here]
  by_cases shifted : pos < m ∧ m ≤ pos + (l.length - pos)
  · rw [if_pos shifted, if_pos shifted, List.getElem?_append_left (by omega), List.getElem?_append_left (by omega)]
  rw [if_neg shifted, if_neg shifted]
  rcases Nat.lt_or_ge m l.length with inL | outL
  · rw [List.getElem?_append_left inL, List.getElem?_append_left inL]
  · rw [List.getElem?_eq_none (by simp; omega), List.getElem?_eq_none (by simp; omega)]

end Take

theorem arrayRemoveSlots_spec {a : Slots} (fits : a.num ≤ a.cells.length) (id : Nat) :
    ∃ r, arrayRemoveSlots a id = some r ∧ r.map Slots.live = arrayRemove a.live id ∧
      ∀ t ∈ r, t.cells.length = a.cells.length ∧ t.num + 1 = a.num := by
  have live : a.live.length = a.num := by simp [Slots.live]; omega
  have find : findChildFrom a.cells id 0 a.num = some (findChild a.live id) := by
    rw [findChildFrom_eq a.cells id (i := 0) (k := a.num) (by omega), List.drop_zero]; rfl
  cases found : findChild a.live id with
  | none => exact ⟨none, by simp [arrayRemoveSlots, find, found], by simp [arrayRemove, found], by simp⟩
  | some i =>
    have inside := (List.findIdx?_eq_some_iff_findIdx_eq.mp found).1
    rw [live] at inside
    have shift := shiftDownSlots_eq a.cells (j := i) (k := a.num - 1 - i) (by omega)
    refine ⟨some ⟨shiftDown a.cells i (a.num - 1 - i), a.num - 1⟩,
      by simp [arrayRemoveSlots, find, found, shift], ?_, by simp [length_shiftDown]; omega⟩
    rw [Option.map_some', arrayRemove, found, Option.map_some', live]
    show _ = some ((shiftDown (a.cells.take a.num) i (a.num - 1 - i)).take (a.num - 1))
    rw [← take_shiftDown a.cells (by omega : i + (a.num - 1 - i) < a.num) fits, List.take_take,
      Nat.min_eq_left (by omega)]
    rfl

theorem insertSlots_spec {a : Slots} (fits : a.num ≤ a.cells.length) (room : 0 < a.cells.length)
    {pos : Nat} (hpos : pos ≤ a.num) (obj : Node) :
    ∃ t, insertSlots a pos obj = some t ∧ t.live = arrayInsert a.live pos obj ∧ t.num = a.num + 1 ∧
      t.cells.length = if a.num = a.cells.length then 2 * a.cells.length else a.cells.length := by
  set grown := if a.num = a.cells.length then a.cells ++ List.replicate a.cells.length default else a.cells
    with grown_def
  have size : grown.length = if a.num = a.cells.length then 2 * a.cells.length else a.cells.length := by
    rw [grown_def]; split <;> simp; omega
  have larger : a.num < grown.length := by rw [size]; split <;> omega
  have front : grown.take a.num = a.live := by
    rw [grown_def, Slots.live]; split
    · exact List.take_append_of_le_length (by omega)
    · rfl
  have live : a.live.length = a.num := by simp [Slots.live]; omega
  have shift := shiftUpSlots_eq grown (i := pos) (k := a.num - pos) (by omega)
  have store := storeSlot_eq obj (by rw [length_shiftUp]; omega : pos < (shiftUp grown pos (a.num - pos)).length)
  refine ⟨⟨(shiftUp grown pos (a.num - pos)).set pos obj, a.num + 1⟩, ?_, ?_, rfl,
    by rw [List.length_set, length_shiftUp, size]⟩
  · simp only [insertSlots, ← grown_def, shift, store, Option.bind_eq_bind, Option.some_bind]
    rfl
  · have last : grown.take (a.num + 1) = a.live ++ [grown[a.num]] := by
      rw [List.take_succ, front, List.getElem?_eq_getElem larger]; rfl
    have ignored := shiftUp_set_append a.live (show pos ≤ a.live.length by omega) grown[a.num] obj obj
    show ((shiftUp grown pos (a.num - pos)).set pos obj).take (a.num + 1) = arrayInsert a.live pos obj
    rw [List.set_take, take_shiftUp _ (by omega) (by omega), last, arrayInsert, live]
    rwa [live] at ignored

theorem replaceChild_eq (id : Nat) (new : Node) (children : List Node) :
    replaceChild id new children = ((findChild children id).map fun i => children.set i new).getD children := by
  induction children with
  | nil => rfl
  | cons child rest ih =>
    by_cases same : child.id = id
    · simp [replaceChild, findChild, same]
    · have step : findChild (child :: rest) id = (findChild rest id).map (· + 1) := by
        simp [findChild, same, List.findIdx?_succ]
      rw [replaceChild, if_neg same, ih, step]
      cases findChild rest id <;> rfl

theorem replaceSlots_spec {a : Slots} (fits : a.num ≤ a.cells.length) (id : Nat) (new : Node) :
    ∃ t, replaceSlots a id new = some t ∧ t.live = replaceChild id new a.live ∧
      t.cells.length = a.cells.length ∧ t.num = a.num := by
  have live : a.live.length = a.num := by simp [Slots.live]; omega
  have find : findChildFrom a.cells id 0 a.num = some (findChild a.live id) := by
    rw [findChildFrom_eq a.cells id (i := 0) (k := a.num) (by omega), List.drop_zero]; rfl
  cases found : findChild a.live id with
  | none => exact ⟨a, by simp [replaceSlots, find, found], by simp [replaceChild_eq, found], rfl, rfl⟩
  | some i =>
    have inside := (List.findIdx?_eq_some_iff_findIdx_eq.mp found).1
    rw [live] at inside
    refine ⟨⟨a.cells.set i new, a.num⟩, ?_, ?_, by simp, rfl⟩
    · simp [replaceSlots, find, found, storeSlot_eq new (by omega : i < a.cells.length)]
    · rw [replaceChild_eq, found]
      simp [Slots.live, List.set_take]

/-- Every loop `wm_splitter.c` runs on the array stays inside it. -/
structure InBounds (a : Slots) : Prop where
  find : ∀ id, findChildFrom a.cells id 0 a.num ≠ none
  remove : ∀ id, arrayRemoveSlots a id ≠ none
  insert : ∀ pos obj, pos ≤ a.num → insertSlots a pos obj ≠ none
  replace : ∀ id new, replaceSlots a id new ≠ none
  first : 0 < a.num → a.cells[0]? ≠ none

theorem Slots.inBounds {a : Slots} (fits : a.num ≤ a.cells.length) (room : 0 < a.cells.length) : InBounds a where
  find id := by rw [findChildFrom_eq _ _ (by omega)]; simp
  remove id := by obtain ⟨r, h, -⟩ := arrayRemoveSlots_spec fits id; simp [h]
  insert pos obj hpos := by obtain ⟨t, h, -⟩ := insertSlots_spec fits room hpos obj; simp [h]
  replace id new := by obtain ⟨t, h, -⟩ := replaceSlots_spec fits id new; simp [h]
  first nonempty := by rw [List.getElem?_eq_getElem (by omega)]; simp

/-- The array a splitter stands for: its children, then the free slots up to
`array_length`. -/
def Node.slots : Node → Slots
  | .leaf .. => ⟨[], 0⟩
  | .splitter _ _ _ children cap => ⟨children ++ List.replicate (cap - children.length) default, children.length⟩

/-- The splitter's array has a slot and holds all of its children. -/
def Node.fitsArray : Node → Bool
  | .leaf .. => true
  | .splitter _ _ _ children cap => decide (children.length ≤ cap) && decide (0 < cap)

mutual
/-- `p` holds of every window of the tree. -/
def Node.every (p : Node → Bool) : Node → Bool
  | n@(.leaf ..) => p n
  | n@(.splitter _ _ _ children _) => p n && everyAll p children

def everyAll (p : Node → Bool) : List Node → Bool
  | [] => true
  | child :: rest => child.every p && everyAll p rest
end

/-- Every splitter of the tree fits its array. -/
def Node.fits (n : Node) : Bool := n.every Node.fitsArray

theorem Node.slots_inBounds {s : Node} (splitter : s.isSplitter = true) (fits : s.fitsArray = true) :
    s.slots.num ≤ s.slots.cells.length ∧ InBounds s.slots := by
  obtain _ | ⟨sid, r, o, children, cap⟩ := s
  · simp [Node.isSplitter] at splitter
  simp only [Node.fitsArray, Bool.and_eq_true, decide_eq_true_eq] at fits
  have size : (children ++ List.replicate (cap - children.length) default).length = cap := by simp; omega
  exact ⟨by simp [Node.slots, size, fits.1], Slots.inBounds (by simp [Node.slots, size, fits.1]) (by simp [Node.slots, size, fits.2])⟩

section Every

variable {p : Node → Bool}

@[simp] theorem everyAll_eq (children : List Node) : everyAll p children = children.all (·.every p) := by
  induction children with
  | nil => rfl
  | cons child rest ih => simp [everyAll, ih]

theorem every_splitter {sid : Nat} {r : Rect} {o : Orientation} {children : List Node} {cap : Nat} :
    (Node.splitter sid r o children cap).every p = true ↔
      p (.splitter sid r o children cap) = true ∧ ∀ c ∈ children, c.every p = true := by
  simp [Node.every]

theorem Node.every_self {n : Node} (shape : n.every p = true) : p n = true := by
  cases n
  · exact shape
  · exact (every_splitter.mp shape).1

theorem Node.every_get? {n s : Node} {path : List Nat} (shape : n.every p = true)
    (found : n.get? path = some s) : s.every p = true := by
  induction path generalizing n with
  | nil => cases n <;> (simp only [Node.get?, Option.some.injEq] at found; exact found ▸ shape)
  | cons i path ih =>
    obtain _ | ⟨sid, r, o, children, cap⟩ := n
    · simp [Node.get?] at found
    simp only [Node.get?] at found
    cases child : children[i]? with
    | none => simp [child] at found
    | some c =>
      rw [child] at found
      exact ih ((every_splitter.mp shape).2 c (List.getElem?_mem child)) found

theorem Node.every_set (slotBlind : ∀ sid r o children cap i c, p (.splitter sid r o children cap) = true →
      p (.splitter sid r o (children.set i c) cap) = true)
    {n new : Node} {path : List Nat} (shape : n.every p = true) (newShape : new.every p = true) :
    (n.set path new).every p = true := by
  induction path generalizing n with
  | nil => cases n <;> exact newShape
  | cons i path ih =>
    obtain _ | ⟨sid, r, o, children, cap⟩ := n
    · exact shape
    obtain ⟨self, each⟩ := every_splitter.mp shape
    simp only [Node.set]
    cases child : children[i]? with
    | none => exact shape
    | some c =>
      refine every_splitter.mpr ⟨slotBlind _ _ _ _ _ _ _ self, fun c' mem => ?_⟩
      rcases List.mem_or_eq_of_mem_set mem with mem | rfl
      · exact each c' mem
      · exact ih (each c (List.getElem?_mem child))

theorem Node.every_setRect (moves : ∀ n rect, p (n.setRect rect) = p n) (rect : Rect) (n : Node) :
    (n.setRect rect).every p = n.every p := by
  cases n with
  | leaf id r h w => exact moves (.leaf id r h w) rect
  | splitter id r o children cap =>
    show (p ((Node.splitter id r o children cap).setRect rect) && everyAll p children) =
      (p (.splitter id r o children cap) && everyAll p children)
    rw [moves]

mutual
theorem Node.every_erase (erases : ∀ n, p n.erase = p n) : (n : Node) → n.erase.every p = n.every p
  | .leaf id r h w => erases (.leaf id r h w)
  | .splitter id r o children cap => by
    show (p (Node.splitter id r o children cap).erase && everyAll p (eraseAll children)) =
      (p (.splitter id r o children cap) && everyAll p children)
    rw [erases, eraseAll_eq, everyAll_erase erases children]

theorem everyAll_erase (erases : ∀ n, p n.erase = p n) :
    (children : List Node) → everyAll p (children.map Node.erase) = everyAll p children
  | [] => rfl
  | child :: rest => by
    simp only [List.map_cons, everyAll, Node.every_erase erases child, everyAll_erase erases rest]
end

end Every

/-- The window a split adds fits its arrays: a pane, or a splitter as
`wm_splitter_create` and splits make them. -/
def Wm.Op.addsFitting : Wm.Op → Bool
  | .split _ _ newWindow _ _ => newWindow.fits
  | .remove .. => true

theorem fitsArray_slotBlind (sid : Nat) (r : Rect) (o : Orientation) (children : List Node) (cap i : Nat) (c : Node)
    (fits : (Node.splitter sid r o children cap).fitsArray = true) :
    (Node.splitter sid r o (children.set i c) cap).fitsArray = true := by
  simpa [Node.fitsArray] using fits

theorem fits_splitter {sid : Nat} {r : Rect} {o : Orientation} {children : List Node} {cap : Nat} :
    (Node.splitter sid r o children cap).fits = true ↔
      children.length ≤ cap ∧ 0 < cap ∧ ∀ c ∈ children, c.fits = true := by
  simp [Node.fits, every_splitter, Node.fitsArray, and_assoc]

@[simp] theorem Node.fits_setRect (rect : Rect) (n : Node) : (n.setRect rect).fits = n.fits :=
  Node.every_setRect (fun n _ => by cases n <;> rfl) rect n

theorem Node.fits_erase (n : Node) : n.erase.fits = n.fits :=
  Node.every_erase (fun n => by cases n <;> simp [Node.erase, Node.fitsArray]) n

theorem Node.fits_get? {n s : Node} {path : List Nat} (shape : n.fits = true) (found : n.get? path = some s) :
    s.fits = true :=
  Node.every_get? shape found

theorem Node.fits_set {n new : Node} {path : List Nat} (shape : n.fits = true) (newShape : new.fits = true) :
    (n.set path new).fits = true :=
  Node.every_set fitsArray_slotBlind shape newShape

theorem fits_insertChild {sid : Nat} {r : Rect} {o : Orientation} {children : List Node} {cap pos : Nat}
    {obj : Node} (shape : (Node.splitter sid r o children cap).fits = true) (objShape : obj.fits = true) :
    (insertChild id (.splitter sid r o children cap) pos obj).fits = true := by
  obtain ⟨len, room, each⟩ := fits_splitter.mp shape
  refine fits_splitter.mpr ⟨?_, by split <;> omega, fun c mem => ?_⟩
  · rw [length_arrayInsert]; split <;> omega
  · rcases mem_arrayInsert mem with mem | rfl
    · exact each c mem
    · exact objShape

theorem splitAt_fits {s s' newWindow : Node} {window : Option Nat} {o : Orientation} {newId : Nat}
    (shape : s.fits = true) (newShape : newWindow.fits = true)
    (split : splitAt id s window newWindow o newId = some s') : s'.fits = true := by
  obtain ⟨sid, r, so, children, cap, rfl, inserted⟩ := splitAt_cases split
  obtain ⟨len, room, each⟩ := fits_splitter.mp shape
  have placed : ∀ rect, (newContext rect newWindow).fits = true := fun _ => by simpa [newContext] using newShape
  rcases inserted with ⟨pos, rfl⟩ | ⟨i, inside, rfl⟩
  · exact fits_insertChild shape (placed r)
  · have target : children.getD i default ∈ children := by
      rw [List.getD_eq_getElem _ _ inside]; exact List.getElem_mem _
    have fresh : (Node.splitter newId (children.getD i default).rect o [] 4).fits = true :=
      fits_splitter.mpr ⟨by simp, by decide, by simp⟩
    have targetShape : (newContext (children.getD i default).rect (children.getD i default)).fits = true := by
      simpa [newContext] using each _ target
    exact fits_insertChild (fits_splitter.mpr ⟨by rw [List.length_eraseIdx_of_lt inside]; omega, room,
      fun c mem => each c (List.mem_of_mem_eraseIdx mem)⟩) (fits_insertChild (fits_insertChild fresh targetShape) (placed _))

theorem collapse_fits {wm wm' : Wm} {path : List Nat} {sid : Nat} {r : Rect} {child : Node} {needFocus : Bool}
    (shape : wm.root.fits = true) (childShape : child.fits = true)
    (collapsed : collapse id wm path sid r child needFocus = some wm') : wm'.root.fits = true := by
  rcases collapse_cases collapsed with root | ⟨gid, gr, go, siblings, gcap, parent, root⟩ <;> rw [root]
  · simpa [newMain] using childShape
  · obtain ⟨len, room, each⟩ := fits_splitter.mp (Node.fits_get? shape parent)
    refine Node.fits_set shape (fits_splitter.mpr ⟨by rwa [length_replaceChild], room, fun c mem => ?_⟩)
    rcases mem_replaceChild mem with mem | rfl
    · exact each c mem
    · simpa using childShape

theorem removeAt_fits {wm wm' : Wm} {path : List Nat} {window : Nat} (shape : wm.root.fits = true)
    (removed : removeAt id wm path window = some wm') : wm'.root.fits = true := by
  obtain ⟨sid, r, o, children, cap, atPath, removal⟩ := removeAt_cases removed
  obtain ⟨len, room, each⟩ := fits_splitter.mp (Node.fits_get? shape atPath)
  rcases removal with ⟨child, mem, collapsed⟩ | ⟨rest, -, shorter, kept, root⟩
  · exact collapse_fits shape (each child mem) collapsed
  · rw [root]
    exact Node.fits_set shape (fits_splitter.mpr ⟨by omega, room, fun c mem => each c (kept c mem)⟩)

theorem apply_fits {wm wm' : Wm} {op : Wm.Op} (adds : op.addsFitting = true) (shape : wm.root.fits = true)
    (applied : wm.apply id op = some wm') : wm'.root.fits = true := by
  rcases apply_cases applied with ⟨_, _, _, _, _, path, s, s', rfl, atPath, split, rfl⟩ | ⟨_, _, _, rfl, removed⟩
  · exact Node.fits_set shape (splitAt_fits (Node.fits_get? shape atPath) adds split)
  · exact removeAt_fits shape removed

theorem run_id_fits (ops : List Wm.Op) (adds : ∀ op ∈ ops, op.addsFitting = true) {wm wm' : Wm}
    (shape : wm.root.fits = true) (run : wm.run id ops = some wm') : wm'.root.fits = true :=
  run_invariant (fun wm => wm.root.fits = true) (·.addsFitting = true) apply_fits ops adds shape run

/-- Along every run of `wm_splitter_split` and `wm_splitter_remove` adding
windows `wm_splitter_create` could have made, from a tree whose splitters fit
their arrays, every splitter keeps `num_children ≤ array_length` (and a slot),
and every loop of `wm_splitter_split`, `wm_splitter_array_remove` and
`wm_splitter_remove` on any splitter of the tree reads and writes inside its
array, the shift's write to `children[num_children]` after the capacity check
included. -/
theorem run_children_in_bounds (p : Proportions) (ops : List Wm.Op) (adds : ∀ op ∈ ops, op.addsFitting = true)
    {wm wm' : Wm} (shape : wm.root.fits = true) (run : wm.run (layoutEvent p) ops = some wm') :
    wm'.root.fits = true ∧ ∀ path s, wm'.root.get? path = some s → s.isSplitter = true →
      s.slots.num ≤ s.slots.cells.length ∧ InBounds s.slots := by
  have same := run_map_erase (fun wm => wm.root.fits) (fun wm => Node.fits_erase wm.root) p wm ops
  rw [run] at same
  have fits : wm'.root.fits = true := by
    cases erased : wm.erase.run id ops with
    | none => simp [erased] at same
    | some w =>
      simp only [erased, Option.map_some', Option.some_inj] at same
      rw [same]
      exact run_id_fits ops adds ((Node.fits_erase wm.root).trans shape) erased
  exact ⟨fits, fun path s found splitter =>
    Node.slots_inBounds splitter (Node.every_self (Node.fits_get? fits found))⟩

theorem run_children_in_bounds_append :
    ∃ wm', (twoPanes 1).run (layoutEvent exactProportions)
        [.split 0 none (pane 3) .horizontal 10, .split 0 none (pane 4) .horizontal 11,
          .split 0 none (pane 5) .horizontal 12] = some wm' ∧
      (wm'.root.fits = true ∧ ∀ path s, wm'.root.get? path = some s → s.isSplitter = true →
        s.slots.num ≤ s.slots.cells.length ∧ InBounds s.slots) :=
  ⟨_, rfl, @run_children_in_bounds exactProportions
    [.split 0 none (pane 3) .horizontal 10, .split 0 none (pane 4) .horizontal 11,
      .split 0 none (pane 5) .horizontal 12] (by decide) (twoPanes 1) _ (by decide) rfl⟩

end Cgdb
