import Cgdb.Wm.Panes

/-! The shape the `assert` of `wm_splitter_remove` relies on: every splitter
holds at least two children. A split adds a child, or trades a child for a
new splitter of two; a removal takes one child away and collapses a splitter
it leaves with one. Layout only moves windows, so that proof runs with no
layout at all. The tree is C's while no window sits in two slots: a split keeps
that when the addresses it takes are fresh and at most one child follows the
window it splits, and a removal always keeps it. So every run of such splits
adding panes and of removals keeps both the addresses distinct and the shape
(`run_keeps_branching`), and the `assert` never fails along it. -/

namespace Cgdb

mutual
/-- Every splitter below holds at least two children. -/
def Node.branching : Node → Bool
  | .leaf .. => true
  | .splitter _ _ _ children _ => decide (2 ≤ children.length) && branchingAll children

def branchingAll : List Node → Bool
  | [] => true
  | child :: rest => child.branching && branchingAll rest
end

/-- The window a split adds is a pane. -/
def Wm.Op.addsPane : Wm.Op → Bool
  | .split _ _ newWindow _ _ => !newWindow.isSplitter
  | .remove .. => true

@[simp] theorem branchingAll_eq (children : List Node) : branchingAll children = children.all Node.branching := by
  induction children with
  | nil => rfl
  | cons child rest ih => simp [branchingAll, ih]

theorem branching_splitter {sid : Nat} {r : Rect} {o : Orientation} {children : List Node} {cap : Nat} :
    (Node.splitter sid r o children cap).branching = true ↔
      2 ≤ children.length ∧ ∀ c ∈ children, c.branching = true := by
  simp [Node.branching]

@[simp] theorem Node.branching_setRect (rect : Rect) (n : Node) : (n.setRect rect).branching = n.branching := by
  cases n <;> rfl

theorem Node.branching_of_pane {n : Node} (pane : n.isSplitter = false) : n.branching = true := by
  cases n <;> simp_all [Node.isSplitter, Node.branching]

mutual
theorem Node.branching_erase : (n : Node) → n.erase.branching = n.branching
  | .leaf .. => rfl
  | .splitter _ _ _ children _ => by
    simp only [Node.erase, eraseAll_eq, Node.branching, List.length_map, branchingAll_erase children]

theorem branchingAll_erase : (children : List Node) → branchingAll (children.map Node.erase) = branchingAll children
  | [] => rfl
  | child :: rest => by
    simp only [List.map_cons, branchingAll, Node.branching_erase child, branchingAll_erase rest]
end

theorem Node.branching_get? {n s : Node} {path : List Nat} (shape : n.branching = true)
    (found : n.get? path = some s) : s.branching = true := by
  induction path generalizing n with
  | nil => cases n <;> (simp only [Node.get?, Option.some.injEq] at found; exact found ▸ shape)
  | cons i path ih =>
    obtain _ | ⟨sid, r, o, children, cap⟩ := n
    · simp [Node.get?] at found
    simp only [Node.get?] at found
    cases child : children[i]? with
    | none => simp [child] at found
    | some c =>
      rw [child] at found
      exact ih ((branching_splitter.mp shape).2 c (List.getElem?_mem child)) found

theorem Node.branching_set {n new : Node} {path : List Nat} (shape : n.branching = true)
    (newShape : new.branching = true) : (n.set path new).branching = true := by
  induction path generalizing n with
  | nil => cases n <;> exact newShape
  | cons i path ih =>
    obtain _ | ⟨sid, r, o, children, cap⟩ := n
    · exact shape
    obtain ⟨enough, each⟩ := branching_splitter.mp shape
    simp only [Node.set]
    cases child : children[i]? with
    | none => exact shape
    | some c =>
      refine branching_splitter.mpr ⟨by rwa [List.length_set], fun c' mem => ?_⟩
      rcases List.mem_or_eq_of_mem_set mem with mem | rfl
      · exact each c' mem
      · exact ih (each c (List.getElem?_mem child))

theorem mem_shiftUp {α : Type} [Inhabited α] {x : α} :
    (children : List α) → (i k : Nat) → x ∈ shiftUp children i k → x ∈ children
  | _, _, 0, mem => mem
  | children, i, k + 1, mem => by
    have mem' := mem_shiftUp (children.set (i + 1) (children.getD i default)) (i + 1) k mem
    by_cases inside : i + 1 < children.length
    · rcases List.mem_or_eq_of_mem_set mem' with mem' | rfl
      · exact mem'
      · rw [List.getD_eq_getElem _ _ (by omega)]
        exact List.getElem_mem _
    · rwa [List.set_eq_of_length_le (by omega)] at mem'

theorem length_arrayInsert (children : List Node) (pos : Nat) (obj : Node) :
    (arrayInsert children pos obj).length = children.length + 1 := by
  simp [arrayInsert, length_shiftUp]

theorem mem_arrayInsert {children : List Node} {pos : Nat} {obj x : Node}
    (mem : x ∈ arrayInsert children pos obj) : x ∈ children ∨ x = obj := by
  rcases List.mem_or_eq_of_mem_set mem with mem | rfl
  · simpa using mem_shiftUp _ _ _ mem
  · exact Or.inr rfl

theorem length_replaceChild (id : Nat) (new : Node) (children : List Node) :
    (replaceChild id new children).length = children.length := by
  induction children with
  | nil => rfl
  | cons child rest ih => simp only [replaceChild]; split <;> simp [ih]

theorem mem_replaceChild {id : Nat} {new x : Node} {children : List Node}
    (mem : x ∈ replaceChild id new children) : x ∈ children ∨ x = new := by
  induction children with
  | nil => simp [replaceChild] at mem
  | cons child rest ih =>
    simp only [replaceChild] at mem
    split at mem <;> simp only [List.mem_cons] at mem
    · rcases mem with rfl | mem
      · exact Or.inr rfl
      · exact Or.inl (List.mem_cons_of_mem _ mem)
    · rcases mem with rfl | mem
      · exact Or.inl (List.mem_cons_self _ _)
      · exact (ih mem).imp (List.mem_cons_of_mem _) fun same => same

theorem branching_insertChild {sid : Nat} {r : Rect} {o : Orientation} {children : List Node}
    {cap pos : Nat} {obj : Node} (each : ∀ c ∈ children, c.branching = true)
    (objShape : obj.branching = true) (enough : 1 ≤ children.length) :
    (insertChild id (.splitter sid r o children cap) pos obj).branching = true := by
  refine branching_splitter.mpr ⟨by rw [length_arrayInsert]; omega, fun c mem => ?_⟩
  rcases mem_arrayInsert mem with mem | rfl
  · exact each c mem
  · exact objShape

theorem splitAt_branching {s s' newWindow : Node} {window : Option Nat} {o : Orientation} {newId : Nat}
    (shape : s.branching = true) (pane : newWindow.branching = true)
    (split : splitAt id s window newWindow o newId = some s') : s'.branching = true := by
  obtain ⟨sid, r, so, children, cap, rfl, inserted⟩ := splitAt_cases split
  obtain ⟨enough, each⟩ := branching_splitter.mp shape
  have placed : ∀ rect, (newContext rect newWindow).branching = true := fun _ => by
    simpa [newContext] using pane
  rcases inserted with ⟨pos, rfl⟩ | ⟨i, inside, rfl⟩
  · exact branching_insertChild each (placed r) (by omega)
  · have target : children.getD i default ∈ children := by
      rw [List.getD_eq_getElem _ _ inside]; exact List.getElem_mem _
    have fresh : insertChild id (.splitter newId (children.getD i default).rect o [] 4) 0
        (newContext (children.getD i default).rect (children.getD i default)) =
        .splitter newId (children.getD i default).rect o
          [newContext (children.getD i default).rect (children.getD i default)] 4 := by
      simp [insertChild, arrayInsert, shiftUp]
    refine branching_insertChild (fun c mem => each c (List.mem_of_mem_eraseIdx mem)) ?_
      (by rw [List.length_eraseIdx_of_lt inside]; omega)
    rw [fresh]
    refine branching_insertChild (fun c mem => ?_) (placed _) (by simp)
    rw [List.mem_singleton.mp mem]
    simpa [newContext] using each _ target

theorem collapse_branching {wm wm' : Wm} {path : List Nat} {sid : Nat} {r : Rect} {child : Node}
    {needFocus : Bool} (shape : wm.root.branching = true) (childShape : child.branching = true)
    (collapsed : collapse id wm path sid r child needFocus = some wm') : wm'.root.branching = true := by
  rcases collapse_cases collapsed with root | ⟨gid, gr, go, siblings, gcap, parent, root⟩ <;> rw [root]
  · simpa [newMain] using childShape
  · obtain ⟨enough, each⟩ := branching_splitter.mp (Node.branching_get? shape parent)
    refine Node.branching_set shape (branching_splitter.mpr ⟨by rwa [length_replaceChild], fun c mem => ?_⟩)
    rcases mem_replaceChild mem with mem | rfl
    · exact each c mem
    · simpa using childShape

theorem removeAt_branching {wm wm' : Wm} {path : List Nat} {window : Nat} (shape : wm.root.branching = true)
    (removed : removeAt id wm path window = some wm') : wm'.root.branching = true := by
  obtain ⟨sid, r, o, children, cap, atPath, removal⟩ := removeAt_cases removed
  obtain ⟨enough, each⟩ := branching_splitter.mp (Node.branching_get? shape atPath)
  rcases removal with ⟨child, mem, collapsed⟩ | ⟨rest, two, -, kept, root⟩
  · exact collapse_branching shape (each child mem) collapsed
  · rw [root]
    exact Node.branching_set shape (branching_splitter.mpr ⟨two, fun c mem => each c (kept c mem)⟩)

theorem apply_branching {wm wm' : Wm} {op : Wm.Op} (pane : op.addsPane = true)
    (shape : wm.root.branching = true) (applied : wm.apply id op = some wm') : wm'.root.branching = true := by
  rcases apply_cases applied with ⟨_, _, newWindow, _, _, path, s, s', rfl, atPath, split, rfl⟩ | ⟨_, _, _, rfl, removed⟩
  · have newPane := Node.branching_of_pane (by simpa [Wm.Op.addsPane] using pane)
    exact Node.branching_set shape (splitAt_branching (Node.branching_get? shape atPath) newPane split)
  · exact removeAt_branching shape removed

theorem run_id_branching (ops : List Wm.Op) (panes : ∀ op ∈ ops, op.addsPane = true) {wm wm' : Wm}
    (shape : wm.root.branching = true) (run : wm.run id ops = some wm') : wm'.root.branching = true :=
  run_invariant (fun wm => wm.root.branching = true) (·.addsPane = true) apply_branching ops panes shape run

/-- A split that keeps the tree C's: the new window and the splitter it may
need take addresses no window of the tree has, and at most one child follows
the window split, so that the insertion loop copies no child over another. -/
def Wm.Op.safe : Wm.Op → Wm → Bool
  | .split splitter window newWindow _ newId, wm =>
    decide (wm.root.ids ++ newId :: newWindow.ids).Nodup &&
      match (wm.root.pathTo splitter).bind wm.root.get?, window with
      | some s, some w => (findChild s.children w).all fun i => decide (s.children.length ≤ i + 2)
      | _, _ => true
  | .remove .., _ => true

/-- Every operation of the run is safe on the tree it is applied to. -/
def Wm.safeRun (event : Node → Node) : Wm → List Wm.Op → Bool
  | _, [] => true
  | wm, op :: ops => op.safe wm && match wm.apply event op with
    | some next => next.safeRun event ops
    | none => true

theorem run_safe_invariant {event : Node → Node} (P : Wm → Prop)
    (keeps : ∀ {wm wm' : Wm} {op : Wm.Op}, op.safe wm = true → P wm → wm.apply event op = some wm' → P wm') :
    ∀ (ops : List Wm.Op) {wm wm' : Wm}, wm.safeRun event ops = true → P wm → wm.run event ops = some wm' → P wm'
  | [], _, _, _, start, run => by
    cases run
    exact start
  | op :: ops, wm, _, safe, start, run => by
    simp only [Wm.run, List.foldlM_cons] at run
    simp only [Wm.safeRun, Bool.and_eq_true] at safe
    cases step : wm.apply event op with
    | none => simp [step] at run
    | some next =>
      rw [step] at run safe
      exact run_safe_invariant P keeps ops safe.2 (keeps safe.1 start step) run

theorem set_keeps_distinct {n s s' : Node} {q : List Nat} {extra more : List Nat} (found : n.get? q = some s)
    (grown : s'.ids.Perm (s.ids ++ extra)) (within : extra.Sublist more) (fresh : (n.ids ++ more).Nodup) :
    (n.set q s').ids.Nodup := by
  obtain ⟨pre, post, whole, set⟩ := Node.ids_get? found
  have moved : (n.set q s').ids.Perm (n.ids ++ extra) := by
    rw [set, whole]
    refine ((grown.append_left pre).append_right post).trans (List.perm_iff_count.mpr fun x => ?_)
    simp only [List.count_append]
    omega
  exact moved.nodup_iff.mpr (fresh.sublist (within.append_left _))

theorem apply_keeps_distinct {event : Node → Node} (keeps : ∀ n, (event n).erase = n.erase) {wm wm' : Wm}
    {op : Wm.Op} (safe : op.safe wm = true) (distinct : wm.root.ids.Nodup)
    (applied : wm.apply event op = some wm') : wm'.root.ids.Nodup := by
  cases op with
  | remove splitter window =>
    simp only [Wm.apply] at applied
    cases path : wm.root.pathTo splitter with
    | none => simp [path] at applied
    | some q =>
      rw [path] at applied
      exact distinct.sublist (removeAt_ids keeps distinct applied)
  | split splitter window newWindow o newId =>
    simp only [Wm.apply] at applied
    cases path : wm.root.pathTo splitter with
    | none => simp [path] at applied
    | some q =>
      cases found : wm.root.get? q with
      | none => simp [path, found] at applied
      | some s =>
        simp only [path, found, Option.map_eq_some'] at applied
        obtain ⟨s', split, rfl⟩ := applied
        simp only [Wm.Op.safe, path, found, Option.some_bind, Bool.and_eq_true, decide_eq_true_eq] at safe
        obtain ⟨extra, within, grown⟩ := splitAt_ids keeps (fun w i same index => by
          subst same
          simpa [index] using safe.2) split
        exact set_keeps_distinct found grown within safe.1

/-- Along every run of splits adding panes and of removals, from a tree whose
addresses are distinct and whose splitters hold two children each, where every
split takes fresh addresses and splits a window with at most one child after
it, the addresses stay distinct, so that the tree stays C's, and every splitter
keeps at least two children, whatever the proportions: the `assert` of
`wm_splitter_remove` holds on every tree such a run reaches. -/
theorem run_keeps_branching (p : Proportions) (ops : List Wm.Op) (panes : ∀ op ∈ ops, op.addsPane = true)
    {wm wm' : Wm} (distinct : wm.root.ids.Nodup) (shape : wm.root.branching = true)
    (safe : wm.safeRun (layoutEvent p) ops = true) (run : wm.run (layoutEvent p) ops = some wm') :
    wm'.root.ids.Nodup ∧ wm'.root.branching = true := by
  refine ⟨run_safe_invariant (fun w => w.root.ids.Nodup) (apply_keeps_distinct (erase_layoutEvent p)) ops safe
    distinct run, ?_⟩
  have same := run_map_erase (fun wm => wm.root.branching) (fun wm => Node.branching_erase wm.root) p wm ops
  rw [run] at same
  cases erased : wm.erase.run id ops with
  | none => simp [erased] at same
  | some w =>
    simp only [erased, Option.map_some', Option.some_inj] at same
    rw [same]
    exact run_id_branching ops panes ((Node.branching_erase wm.root).trans shape) erased

theorem run_keeps_branching_two_splits :
    ∃ wm', (twoPanes 1).run (layoutEvent floatProportions)
        [.split 0 (some 2) (pane 3) .horizontal 10, .split 0 (some 3) (pane 4) .horizontal 11, .remove 0 2] =
          some wm' ∧ wm'.root.ids.Nodup ∧ wm'.root.branching = true :=
  ⟨_, rfl, @run_keeps_branching floatProportions
    [.split 0 (some 2) (pane 3) .horizontal 10, .split 0 (some 3) (pane 4) .horizontal 11, .remove 0 2] (by decide)
    (twoPanes 1) _ (by decide) (by decide) (by decide) rfl⟩

end Cgdb
