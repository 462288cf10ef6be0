import Cgdb.Wm.Layout

/-! `wm_splitter_split` and `wm_splitter_remove` on the window tree, with the
focus the window manager keeps. A splitter is found by its address along a
path of child indices from the root; its parent is the node one step up that
path.

A run starts from a splitter with two panes. Three properties the tree is meant
to keep fail on short runs: the insertion loop of `wm_splitter_split` loses a
child and duplicates another once two children follow the insertion point; a
collapse in `wm_splitter_remove` hoists a splitter into a parent of its own
orientation; and removing the focused pane moves the focus to `children[0]`,
which can be a splitter. -/

namespace Cgdb

mutual
/-- The height of the tree below a window, the fuel its layout needs. -/
def Node.depth : Node → Nat
  | .leaf .. => 0
  | .splitter _ _ _ children _ => depthOf children + 1

def depthOf : List Node → Nat
  | [] => 0
  | child :: rest => max child.depth (depthOf rest)
end

/-- `wm_window_layout_event(window)`, laying out every splitter below. -/
def layoutEvent (p : Proportions) (window : Node) : Node := layout p window.depth window

/-- The window at the end of `path`, by child indices from `node`. -/
def Node.get? : Node → List Nat → Option Node
  | node, [] => some node
  | .leaf .., _ :: _ => none
  | .splitter _ _ _ children _, i :: path => match children[i]? with
    | some child => child.get? path
    | none => none

/-- `node` with the window at the end of `path` replaced by `new`. -/
def Node.set : Node → List Nat → Node → Node
  | _, [], new => new
  | .splitter id r o children cap, i :: path, new => match children[i]? with
    | some child => .splitter id r o (children.set i (child.set path new)) cap
    | none => .splitter id r o children cap
  | node, _ :: _, _ => node

mutual
/-- The path to the first window, in preorder, whose address is `id`. -/
def Node.pathTo (id : Nat) : Node → Option (List Nat)
  | .leaf i .. => if i = id then some [] else none
  | .splitter i _ _ children _ => if i = id then some [] else pathIn id 0 children

def pathIn (id : Nat) : Nat → List Node → Option (List Nat)
  | _, [] => none
  | k, child :: rest => match child.pathTo id with
    | some path => some (k :: path)
    | none => pathIn id (k + 1) rest
end

mutual
/-- The panes of the tree, left to right. -/
def Node.leafIds : Node → List Nat
  | .leaf id .. => [id]
  | .splitter _ _ _ children _ => leafIdsOf children

def leafIdsOf : List Node → List Nat
  | [] => []
  | child :: rest => child.leafIds ++ leafIdsOf rest
end

/-- `child` is no splitter of orientation `o`. -/
def Node.crosses (o : Orientation) : Node → Bool
  | .splitter _ _ o' _ _ => o' != o
  | .leaf .. => true

mutual
/-- No splitter holds a splitter of its own orientation. -/
def Node.alternates : Node → Bool
  | .leaf .. => true
  | .splitter _ _ o children _ => alternatesIn o children

def alternatesIn (o : Orientation) : List Node → Bool
  | [] => true
  | child :: rest => child.crosses o && child.alternates && alternatesIn o rest
end

/-- The window manager: its tree and the focused window. -/
structure Wm where
  root : Node
  focus : Nat
  deriving Repr

/-- Modelled from the spec: `wm_window_set_context(window, wm, parent, cwindow)`
with `cwindow = derwin(parent->cwindow, 1, 1, 0, 0)`: the window becomes the
`1 x 1` at its parent's origin that `wm_splitter_layout` recognises. -/
def newContext (parent : Rect) (window : Node) : Node :=
  window.setRect ⟨parent.top, parent.left, 1, 1⟩

/-- The end of `wm_splitter_split`: the capacity check, the insertion loop and
the layout event of the splitter. -/
def insertChild (event : Node → Node) (s : Node) (pos : Nat) (obj : Node) : Node :=
  match s with
  | .splitter id r o children cap =>
    event (.splitter id r o (arrayInsert children pos obj)
      (if children.length = cap then 2 * cap else cap))
  | pane => pane

/-- `wm_splitter_split(splitter, window, new_window, orientation)` on the
splitter `s`, `newId` being the address `wm_splitter_create` returns when the
orientations differ and `event` the layout event. `none` is the `-1` returned
when `window` is not a child or when a window is appended with the wrong
orientation. -/
def splitAt (event : Node → Node) (s : Node) (window : Option Nat) (newWindow : Node)
    (orientation : Orientation) (newId : Nat) : Option Node :=
  match s with
  | .leaf .. => none
  | .splitter id r o children cap =>
    match window with
    | none =>
      if orientation = o then some (insertChild event s children.length (newContext r newWindow))
      else none
    | some w =>
      match findChild children w with
      | none => none
      | some i =>
        if orientation = o then some (insertChild event s (i + 1) (newContext r newWindow))
        else
          let target := children.getD i default
          let fresh : Node := .splitter newId target.rect orientation [] 4
          let withTarget := insertChild event fresh 0 (newContext target.rect target)
          let obj := insertChild event withTarget 1 (newContext target.rect newWindow)
          let rest := (arrayRemove children w).getD children
          some (insertChild event (.splitter id r o rest cap) i obj)

/-- `for (i = 0; ...) if (parent->children[i] == self) { parent->children[i] = child; break; }` -/
def replaceChild (id : Nat) (new : Node) : List Node → List Node
  | [] => []
  | child :: rest => if child.id = id then new :: rest else child :: replaceChild id new rest

/-- Modelled from the spec: `wm_new_main(wm, child)`: the child becomes the
root, in the place the old root held. -/
def newMain (event : Node → Node) (root child : Node) : Node :=
  event (child.setRect root.rect)

/-- The `num_children == 1` branch of `wm_splitter_remove`: the splitter `id`
at `path`, placed at `r`, gives its slot in its parent and its window to
`child`; without a parent, `child` becomes the root and the focus stays. -/
def collapse (event : Node → Node) (wm : Wm) (path : List Nat) (id : Nat) (r : Rect)
    (child : Node) (needFocus : Bool) : Option Wm :=
  if path = [] then some { wm with root := newMain event wm.root child }
  else match wm.root.get? path.dropLast with
    | some (.splitter gid gr go siblings gcap) =>
      some { root := wm.root.set path.dropLast
               (event (.splitter gid gr go (replaceChild id (child.setRect r) siblings) gcap)),
             focus := if needFocus then child.id else wm.focus }
    | _ => none

/-- `wm_splitter_remove(splitter, window)` on the splitter at `path`. `none` is
the failed `assert` on a splitter with fewer than two children, or the `-1` of
a window that is not a child. The `wm_window_destroy` calls leave no trace in
the tree: what they free has left it, and with distinct addresses no slot still
holds it (`removeAt_frees`). -/
def removeAt (event : Node → Node) (wm : Wm) (path : List Nat) (window : Nat) : Option Wm :=
  match wm.root.get? path with
  | some (.splitter id r o children cap) =>
    if children.length < 2 then none
    else match arrayRemove children window with
      | none => none
      | some [child] => collapse event wm path id r child (wm.focus == window)
      | some rest =>
        some { root := wm.root.set path (event (.splitter id r o rest cap)),
               focus := if wm.focus == window then (rest.headD default).id else wm.focus }
  | _ => none

/-- The operations a run applies: `wm_splitter_split(splitter, window,
new_window, orientation)` and `wm_splitter_remove(splitter, window)`. -/
inductive Wm.Op
  | split (splitter : Nat) (window : Option Nat) (newWindow : Node) (orientation : Orientation)
      (newId : Nat)
  | remove (splitter window : Nat)

def Wm.apply (event : Node → Node) (wm : Wm) : Wm.Op → Option Wm
  | .split splitter window newWindow orientation newId =>
    match wm.root.pathTo splitter with
    | some path => match wm.root.get? path with
      | some s => (splitAt event s window newWindow orientation newId).map fun s' =>
        { wm with root := wm.root.set path s' }
      | none => none
    | none => none
  | .remove splitter window =>
    match wm.root.pathTo splitter with
    | some path => removeAt event wm path window
    | none => none

/-- The operations applied in turn; `none` once one fails. -/
def Wm.run (event : Node → Node) (wm : Wm) (ops : List Wm.Op) : Option Wm :=
  ops.foldlM (Wm.apply event) wm

mutual
theorem Node.erase_erase : (n : Node) → n.erase.erase = n.erase
  | .leaf .. => rfl
  | .splitter _ _ _ children _ => by
    simp only [Node.erase, eraseAll_erase children]

theorem eraseAll_erase : (children : List Node) → eraseAll (eraseAll children) = eraseAll children
  | [] => rfl
  | child :: rest => by simp only [eraseAll, Node.erase_erase child, eraseAll_erase rest]
end

mutual
theorem Node.pathTo_erase (id : Nat) : (n : Node) → n.erase.pathTo id = n.pathTo id
  | .leaf .. => rfl
  | .splitter _ _ _ children _ => by simp only [Node.erase, Node.pathTo, pathIn_erase id 0 children]

theorem pathIn_erase (id : Nat) : (k : Nat) → (children : List Node) →
    pathIn id k (eraseAll children) = pathIn id k children
  | _, [] => rfl
  | k, child :: rest => by simp only [eraseAll, pathIn, Node.pathTo_erase id child, pathIn_erase id (k + 1) rest]
end

mutual
theorem Node.leafIds_erase : (n : Node) → n.erase.leafIds = n.leafIds
  | .leaf .. => rfl
  | .splitter _ _ _ children _ => by simp only [Node.erase, Node.leafIds, leafIdsOf_erase children]

theorem leafIdsOf_erase : (children : List Node) → leafIdsOf (eraseAll children) = leafIdsOf children
  | [] => rfl
  | child :: rest => by simp only [eraseAll, leafIdsOf, Node.leafIds_erase child, leafIdsOf_erase rest]
end

@[simp] theorem Node.crosses_erase (o : Orientation) (n : Node) : n.erase.crosses o = n.crosses o := by
  cases n <;> rfl

mutual
theorem Node.alternates_erase : (n : Node) → n.erase.alternates = n.alternates
  | .leaf .. => rfl
  | .splitter _ _ o children _ => by simp only [Node.erase, Node.alternates, alternatesIn_erase o children]

theorem alternatesIn_erase (o : Orientation) : (children : List Node) →
    alternatesIn o (eraseAll children) = alternatesIn o children
  | [] => rfl
  | child :: rest => by
    simp only [eraseAll, alternatesIn, Node.crosses_erase, Node.alternates_erase child,
      alternatesIn_erase o rest]
end

theorem Node.get?_erase (n : Node) (path : List Nat) :
    n.erase.get? path = (n.get? path).map Node.erase := by
  induction path generalizing n with
  | nil => cases n <;> rfl
  | cons i path ih =>
    cases n with
    | leaf => rfl
    | splitter id r o children cap =>
      simp only [Node.erase, eraseAll_eq, Node.get?, List.getElem?_map]
      cases children[i]? <;> simp [ih]

theorem Node.set_erase (n : Node) (path : List Nat) (new : Node) :
    (n.set path new).erase = n.erase.set path new.erase := by
  induction path generalizing n with
  | nil => cases n <;> rfl
  | cons i path ih =>
    cases n with
    | leaf => rfl
    | splitter id r o children cap =>
      simp only [Node.erase, eraseAll_eq, Node.set, List.getElem?_map]
      cases children[i]? <;> simp [ih, List.map_set, Node.erase]

/-- The window manager with every placement forgotten. -/
def Wm.erase (wm : Wm) : Wm := ⟨wm.root.erase, wm.focus⟩

theorem replaceChild_erase (id : Nat) (new : Node) (children : List Node) :
    (replaceChild id new children).map Node.erase = replaceChild id new.erase (children.map Node.erase) := by
  induction children with
  | nil => rfl
  | cons child rest ih =>
    simp only [replaceChild, Node.id_erase, List.map_cons]
    split <;> simp [ih]

theorem getD_map_erase (children : List Node) (i : Nat) :
    (children.map Node.erase).getD i default = (children.getD i default).erase :=
  getD_map_default Node.erase_default children i

theorem erase_splitter (sid : Nat) (r : Rect) (o : Orientation) (children : List Node) (cap : Nat) :
    (Node.splitter sid r o children cap).erase =
      .splitter sid ⟨0, 0, 0, 0⟩ o (children.map Node.erase) cap := by
  simp [Node.erase]

theorem splitAt_cases {event : Node → Node} {s s' newWindow : Node} {window : Option Nat} {o : Orientation}
    {newId : Nat} (split : splitAt event s window newWindow o newId = some s') :
    ∃ sid r so children cap, s = .splitter sid r so children cap ∧
      ((∃ pos, s' = insertChild event s pos (newContext r newWindow)) ∨
        ∃ i < children.length,
          s' = insertChild event (.splitter sid r so (children.eraseIdx i) cap) i
            (insertChild event (insertChild event (.splitter newId (children.getD i default).rect o [] 4) 0
              (newContext (children.getD i default).rect (children.getD i default))) 1
              (newContext (children.getD i default).rect newWindow))) := by
  obtain _ | ⟨sid, r, so, children, cap⟩ := s
  · simp [splitAt] at split
  refine ⟨sid, r, so, children, cap, rfl, ?_⟩
  cases window with
  | none =>
    simp only [splitAt] at split
    split_ifs at split
    exact .inl ⟨_, (Option.some.inj split).symm⟩
  | some w =>
    simp only [splitAt] at split
    cases found : findChild children w with
    | none => simp [found] at split
    | some i =>
      simp only [found] at split
      split_ifs at split
      · exact .inl ⟨_, (Option.some.inj split).symm⟩
      · refine .inr ⟨i, (List.findIdx?_eq_some_iff_findIdx_eq.mp found).1, ?_⟩
        rw [← Option.some.inj split, arrayRemove_eq found, Option.getD_some]

theorem arrayRemove_shape {children rest : List Node} {window : Nat}
    (removed : arrayRemove children window = some rest) :
    rest.length + 1 = children.length ∧ ∀ x ∈ rest, x ∈ children := by
  cases found : findChild children window with
  | none => simp [arrayRemove, found] at removed
  | some i =>
    rw [arrayRemove_eq found, Option.some_inj] at removed
    subst removed
    have inside := (List.findIdx?_eq_some_iff_findIdx_eq.mp found).1
    exact ⟨by rw [List.length_eraseIdx, if_pos inside]; omega, fun _ => List.mem_of_mem_eraseIdx⟩

theorem collapse_cases {event : Node → Node} {wm wm' : Wm} {path : List Nat} {sid : Nat} {r : Rect}
    {child : Node} {needFocus : Bool} (collapsed : collapse event wm path sid r child needFocus = some wm') :
    wm'.root = newMain event wm.root child ∨
      ∃ gid gr go siblings gcap, wm.root.get? path.dropLast = some (.splitter gid gr go siblings gcap) ∧
        wm'.root = wm.root.set path.dropLast
          (event (.splitter gid gr go (replaceChild sid (child.setRect r) siblings) gcap)) := by
  unfold collapse at collapsed
  by_cases top : path = []
  · rw [if_pos top] at collapsed
    cases collapsed
    exact .inl rfl
  · rw [if_neg top] at collapsed
    cases parent : wm.root.get? path.dropLast with
    | none => simp [parent] at collapsed
    | some g =>
      rw [parent] at collapsed
      obtain _ | ⟨gid, gr, go, siblings, gcap⟩ := g
      · simp at collapsed
      cases collapsed
      exact .inr ⟨gid, gr, go, siblings, gcap, rfl, rfl⟩

theorem removeAt_cases {event : Node → Node} {wm wm' : Wm} {path : List Nat} {window : Nat}
    (removed : removeAt event wm path window = some wm') :
    ∃ sid r o children cap, wm.root.get? path = some (.splitter sid r o children cap) ∧
      ((∃ child ∈ children, collapse event wm path sid r child (wm.focus == window) = some wm') ∨
        ∃ rest : List Node, 2 ≤ rest.length ∧ rest.length + 1 = children.length ∧ (∀ x ∈ rest, x ∈ children) ∧
          wm'.root = wm.root.set path (event (.splitter sid r o rest cap))) := by
  unfold removeAt at removed
  cases atPath : wm.root.get? path with
  | none => simp [atPath] at removed
  | some s =>
    rw [atPath] at removed
    obtain _ | ⟨sid, r, o, children, cap⟩ := s
    · simp at removed
    refine ⟨sid, r, o, children, cap, rfl, ?_⟩
    simp only at removed
    by_cases few : children.length < 2
    · simp [few] at removed
    rw [if_neg few] at removed
    cases taken : arrayRemove children window with
    | none => simp [taken] at removed
    | some rest =>
      obtain ⟨shorter, kept⟩ := arrayRemove_shape taken
      rw [taken] at removed
      rcases rest with _ | ⟨child, _ | ⟨next, rest⟩⟩
      · simp at shorter; omega
      · exact .inl ⟨child, kept child (List.mem_singleton_self _), removed⟩
      · cases removed
        exact .inr ⟨_, by simp, shorter, kept, rfl⟩

theorem apply_cases {event : Node → Node} {wm wm' : Wm} {op : Wm.Op} (applied : wm.apply event op = some wm') :
    (∃ splitter window newWindow o newId path s s', op = .split splitter window newWindow o newId ∧
      wm.root.get? path = some s ∧ splitAt event s window newWindow o newId = some s' ∧
      wm' = { wm with root := wm.root.set path s' }) ∨
    ∃ splitter window path, op = .remove splitter window ∧ removeAt event wm path window = some wm' := by
  cases op with
  | split splitter window newWindow o newId =>
    simp only [Wm.apply] at applied
    cases path : wm.root.pathTo splitter with
    | none => simp [path] at applied
    | some p =>
      cases atPath : wm.root.get? p with
      | none => simp [path, atPath] at applied
      | some s =>
        simp only [path, atPath, Option.map_eq_some'] at applied
        obtain ⟨s', split, rfl⟩ := applied
        exact .inl ⟨_, _, _, _, _, p, s, s', rfl, atPath, split, rfl⟩
  | remove splitter window =>
    simp only [Wm.apply] at applied
    cases path : wm.root.pathTo splitter with
    | none => simp [path] at applied
    | some p =>
      rw [path] at applied
      exact .inr ⟨_, _, p, rfl, applied⟩

/-- What every operation of a kind keeps holds along every run of such
operations. -/
theorem run_invariant {event : Node → Node} (P : Wm → Prop) (kind : Wm.Op → Prop)
    (keeps : ∀ {wm wm' : Wm} {op : Wm.Op}, kind op → P wm → wm.apply event op = some wm' → P wm') :
    ∀ (ops : List Wm.Op), (∀ op ∈ ops, kind op) → ∀ {wm wm' : Wm}, P wm → wm.run event ops = some wm' → P wm'
  | [], _, _, _, start, run => by
    cases run
    exact start
  | op :: ops, all, wm, _, start, run => by
    simp only [Wm.run, List.foldlM_cons] at run
    cases step : wm.apply event op with
    | none => simp [step] at run
    | some next =>
      rw [step] at run
      exact run_invariant P kind keeps ops (fun o mem => all o (List.mem_cons_of_mem _ mem))
        (keeps (all op (List.mem_cons_self _ _)) start step) run

section Erase

variable {event : Node → Node} (keeps : ∀ n, (event n).erase = n.erase)
include keeps

theorem insertChild_erase (s : Node) (pos : Nat) (obj : Node) :
    (insertChild event s pos obj).erase = (insertChild id s.erase pos obj.erase).erase := by
  cases s with
  | leaf => rfl
  | splitter sid r o children cap =>
    simp only [insertChild, keeps, Node.erase, eraseAll_eq, id_eq, List.length_map, arrayInsert_erase,
      List.map_map, Function.comp_def, Node.erase_erase]

theorem splitAt_erase (s : Node) (window : Option Nat) (newWindow : Node) (o : Orientation)
    (newId : Nat) :
    (splitAt event s window newWindow o newId).map Node.erase =
      (splitAt id s.erase window newWindow o newId).map Node.erase := by
  have keepsId : ∀ n : Node, (id n).erase = n.erase := fun _ => rfl
  cases s with
  | leaf => rfl
  | splitter sid r so children cap =>
    rw [erase_splitter]
    cases window with
    | none =>
      simp only [splitAt, List.length_map]
      split <;> simp [insertChild_erase keeps, insertChild_erase keepsId, newContext, erase_splitter,
        Node.erase_erase, Function.comp_def]
    | some w =>
      simp only [splitAt, findChild_erase]
      cases findChild children w with
      | none => rfl
      | some i =>
        simp only
        split <;> simp [insertChild_erase keeps, insertChild_erase keepsId, newContext, erase_splitter,
          Node.erase_erase, Function.comp_def, getD_map_erase, ← arrayRemove_erase]
        cases children[i]? <;> simp [Node.erase_erase]

theorem collapse_erase (wm : Wm) (path : List Nat) (sid : Nat) (r r' : Rect) (child : Node)
    (needFocus : Bool) :
    (collapse event wm path sid r child needFocus).map Wm.erase =
      (collapse id wm.erase path sid r' child.erase needFocus).map Wm.erase := by
  unfold collapse
  split
  · simp [Wm.erase, newMain, keeps, Node.erase_erase]
  · simp only [Wm.erase, Node.get?_erase]
    cases wm.root.get? path.dropLast with
    | none => rfl
    | some g =>
      cases g with
      | leaf => rfl
      | splitter gid gr go siblings gcap =>
        simp [Wm.erase, Node.set_erase, keeps, erase_splitter, replaceChild_erase, Node.erase_erase,
          Function.comp_def, Node.setRect_erase]

theorem removeAt_erase (wm : Wm) (path : List Nat) (window : Nat) :
    (removeAt event wm path window).map Wm.erase =
      (removeAt id wm.erase path window).map Wm.erase := by
  unfold removeAt
  simp only [Wm.erase, Node.get?_erase]
  cases wm.root.get? path with
  | none => rfl
  | some s =>
    cases s with
    | leaf => rfl
    | splitter sid r o children cap =>
      simp only [Option.map_some', erase_splitter, List.length_map]
      split
      · rfl
      · rw [← arrayRemove_erase]
        cases arrayRemove children window with
        | none => rfl
        | some rest =>
          rcases rest with _ | ⟨child, _ | ⟨next, rest⟩⟩
          · simp [Wm.erase, Node.set_erase, keeps, erase_splitter, Node.erase_erase]
          · exact collapse_erase keeps _ _ _ _ _ _ _
          · simp [Wm.erase, Node.set_erase, keeps, erase_splitter, Node.erase_erase, Function.comp_def]

theorem apply_erase (wm : Wm) (op : Wm.Op) :
    (wm.apply event op).map Wm.erase = (wm.erase.apply id op).map Wm.erase := by
  cases op with
  | split splitter window newWindow o newId =>
    simp only [Wm.apply, Wm.erase, Node.pathTo_erase]
    cases wm.root.pathTo splitter with
    | none => rfl
    | some path =>
      simp only [Node.get?_erase]
      cases wm.root.get? path with
      | none => rfl
      | some s =>
        have split := congrArg (Option.map fun s' => (⟨wm.root.erase.set path s', wm.focus⟩ : Wm))
          (splitAt_erase keeps s window newWindow o newId)
        simpa [Option.map_map, Function.comp_def, Wm.erase, Node.set_erase, Node.erase_erase] using split
  | remove splitter window =>
    simp only [Wm.apply, Wm.erase, Node.pathTo_erase]
    cases wm.root.pathTo splitter with
    | none => rfl
    | some path => exact removeAt_erase keeps wm path window

end Erase

theorem apply_congr {e e' : Node → Node} (keeps : ∀ n, (e n).erase = n.erase)
    (keeps' : ∀ n, (e' n).erase = n.erase) {wm wm' : Wm} (same : wm.erase = wm'.erase) (op : Wm.Op) :
    (wm.apply e op).map Wm.erase = (wm'.apply e' op).map Wm.erase := by
  rw [apply_erase keeps, apply_erase keeps', same]

theorem run_congr {e e' : Node → Node} (keeps : ∀ n, (e n).erase = n.erase)
    (keeps' : ∀ n, (e' n).erase = n.erase) (ops : List Wm.Op) {wm wm' : Wm} (same : wm.erase = wm'.erase) :
    (wm.run e ops).map Wm.erase = (wm'.run e' ops).map Wm.erase := by
  induction ops generalizing wm wm' with
  | nil => simp [Wm.run, same]
  | cons op ops ih =>
    have step := apply_congr keeps keeps' same op
    simp only [Wm.run, List.foldlM_cons] at ih ⊢
    cases h : wm.apply e op <;> cases h' : wm'.apply e' op <;> simp [h, h'] at step ⊢
    exact ih step

@[simp] theorem erase_layoutEvent (p : Proportions) (window : Node) :
    (layoutEvent p window).erase = window.erase :=
  erase_layout p _ window

theorem Wm.erase_erase (wm : Wm) : wm.erase.erase = wm.erase := by
  simp [Wm.erase, Node.erase_erase]

/-- A run under the source's layout, placements forgotten, is the same run with
no layout at all. -/
theorem run_erase (p : Proportions) (wm : Wm) (ops : List Wm.Op) :
    (wm.run (layoutEvent p) ops).map Wm.erase = (wm.erase.run id ops).map Wm.erase :=
  run_congr (erase_layoutEvent p) (fun _ => rfl) ops wm.erase_erase.symm

/-- A horizontal splitter filling a 24 by 80 screen, with panes 1 and 2. -/
def twoPanes (focus : Nat) : Wm :=
  ⟨.splitter 0 ⟨0, 0, 24, 80⟩ .horizontal
    [.leaf 1 ⟨0, 0, 12, 80⟩ 1 1, .leaf 2 ⟨12, 0, 12, 80⟩ 1 1] 4, focus⟩

/-- A pane not yet in the tree. -/
def pane (id : Nat) : Node := .leaf id ⟨0, 0, 1, 1⟩ 1 1

theorem run_map_erase {α : Type} (g : Wm → α) (hg : ∀ wm, g wm.erase = g wm) (p : Proportions)
    (wm : Wm) (ops : List Wm.Op) : (wm.run (layoutEvent p) ops).map g = (wm.erase.run id ops).map g := by
  have h := congrArg (Option.map g) (run_erase p wm ops)
  simpa only [Option.map_map, Function.comp_def, hg] using h

/-- Which runs succeed, the trees they leave and their focus are the same for
every choice of proportions. -/
theorem run_tree_independent_of_layout (p p' : Proportions) (wm : Wm) (ops : List Wm.Op) :
    (wm.run (layoutEvent p) ops).map Wm.erase = (wm.run (layoutEvent p') ops).map Wm.erase :=
  run_congr (erase_layoutEvent p) (erase_layoutEvent p') ops rfl

/-- Two same-orientation splits after pane 1: the second shifts two children
upwards, and the loop copies pane 3 into both slots, losing pane 2. -/
theorem split_loses_child :
    ((twoPanes 1).run (layoutEvent floatProportions)
      [.split 0 (some 1) (pane 3) .horizontal 10, .split 0 (some 1) (pane 4) .horizontal 11]).map
        (·.root.leafIds) = some [1, 4, 3, 3] := by
  rw [run_map_erase _ fun wm => Node.leafIds_erase wm.root]
  decide

/-- Pane 2 split across into the vertical splitter 10 of panes 2 and 3, pane 3
split across into the horizontal splitter 11 of panes 3 and 4; removing pane 2
collapses splitter 10 and hoists splitter 11 into the horizontal root. -/
theorem remove_breaks_alternation :
    ((twoPanes 1).run (layoutEvent floatProportions)
      [.split 0 (some 2) (pane 3) .vertical 10, .split 10 (some 3) (pane 4) .horizontal 11,
        .remove 10 2]).map (fun wm => (wm.root.alternates, wm.root.leafIds)) =
      some (false, [1, 3, 4]) := by
  rw [run_map_erase _ fun wm => by simp only [Wm.erase, Node.alternates_erase, Node.leafIds_erase]]
  decide

/-- With pane 2 focused, pane 1 split across into splitter 10 of panes 1 and 3
and pane 4 added after pane 2, removing pane 2 from the root moves the focus
to `children[0]`: splitter 10. -/
theorem remove_focuses_splitter :
    ((twoPanes 2).run (layoutEvent floatProportions)
      [.split 0 (some 1) (pane 3) .vertical 10, .split 0 (some 2) (pane 4) .horizontal 11,
        .remove 0 2]).map
        (fun wm => (wm.focus, wm.root.leafIds,
          ((wm.root.pathTo wm.focus).bind wm.root.get?).map Node.isSplitter)) =
      some (10, [1, 3, 4], some true) := by
  rw [run_map_erase _ fun wm => by
    simp only [Wm.erase, Node.leafIds_erase, Node.pathTo_erase]
    cases wm.root.pathTo wm.focus <;> simp [Node.get?_erase, Function.comp_def]]
  decide

end Cgdb
