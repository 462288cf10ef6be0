import Cgdb.Wm.Splitter

/-! The panes `wm_splitter_remove` and `wm_splitter_split` keep, read off the
tree's pane list. A window is known by its address, and no two windows in
memory share one. Over trees whose addresses are distinct, a removal takes the
removed child's panes out of the list and leaves every other pane where it was,
in its order; runs of removals keep the addresses distinct. The collapse of a
splitter left with one child is the case that needs the addresses: its parent
finds the splitter's slot by comparing them. A split adds the new window's
panes right after those of the window it splits, as long as at most one child
follows that window; past that, the insertion loop copies one child over the
next. -/

namespace Cgdb

theorem leafIdsOf_eq_flatMap : (children : List Node) → leafIdsOf children = children.flatMap Node.leafIds
  | [] => rfl
  | child :: rest => by rw [leafIdsOf, leafIdsOf_eq_flatMap rest, List.flatMap_cons]

theorem idsOf_eq_flatMap : (children : List Node) → idsOf children = children.flatMap Node.ids
  | [] => rfl
  | child :: rest => by rw [idsOf, idsOf_eq_flatMap rest, List.flatMap_cons]

mutual
theorem Node.ids_erase : (n : Node) → n.erase.ids = n.ids
  | .leaf .. => rfl
  | .splitter _ _ _ children _ => by simp only [Node.erase, Node.ids, idsOf_erase children]

theorem idsOf_erase : (children : List Node) → idsOf (eraseAll children) = idsOf children
  | [] => rfl
  | child :: rest => by simp only [eraseAll, idsOf, Node.ids_erase child, idsOf_erase rest]
end

@[simp] theorem Node.leafIds_setRect (r : Rect) (n : Node) : (n.setRect r).leafIds = n.leafIds := by
  cases n <;> rfl

@[simp] theorem Node.ids_setRect (r : Rect) (n : Node) : (n.setRect r).ids = n.ids := by
  cases n <;> rfl

theorem Node.id_sublist_ids (n : Node) : [n.id].Sublist n.ids := by
  cases n <;> simp [Node.ids, Node.id]

theorem map_id_sublist_idsOf : (children : List Node) → (children.map Node.id).Sublist (idsOf children)
  | [] => .slnil
  | child :: rest => by
    rw [List.map_cons, idsOf, ← List.singleton_append]
    exact child.id_sublist_ids.append (map_id_sublist_idsOf rest)

theorem Node.get?_append_singleton : (n : Node) → (path : List Nat) → (k : Nat) →
    n.get? (path ++ [k]) = (n.get? path).bind fun m => m.children[k]?
  | .leaf .., [], _ => rfl
  | .splitter _ _ _ children _, [], k => by
    simp only [List.nil_append, Node.get?, Option.some_bind, Node.children]
    cases children[k]? <;> rfl
  | .leaf .., _ :: _, _ => rfl
  | .splitter _ _ _ children _, i :: path, k => by
    simp only [List.cons_append, Node.get?]
    cases children[i]? with
    | none => rfl
    | some c => exact c.get?_append_singleton path k

theorem flatMap_around (g : Node → List Nat) {children : List Node} {i : Nat} (inside : i < children.length) :
    children.flatMap g = (children.take i).flatMap g ++ (g children[i] ++ (children.drop (i + 1)).flatMap g) := by
  conv_lhs => rw [← List.take_append_drop i children, List.drop_eq_getElem_cons inside]
  rw [List.flatMap_append, List.flatMap_cons]

theorem flatMap_set (g : Node → List Nat) {children : List Node} {i : Nat} (inside : i < children.length)
    (x : Node) :
    (children.set i x).flatMap g = (children.take i).flatMap g ++ (g x ++ (children.drop (i + 1)).flatMap g) := by
  rw [List.set_eq_take_append_cons_drop, if_pos inside, List.flatMap_append, List.flatMap_cons]

section Frame

variable (f : Node → List Nat) (own : Nat → List Nat)
  (unfolds : ∀ id r o children cap, f (.splitter id r o children cap) = own id ++ children.flatMap f)
include unfolds

/-- A list read off the tree by flattening over the children, as the panes and
the addresses are, changes under `Node.set` only where the replaced window
stood. -/
theorem frame_get? : ∀ (n : Node) (path : List Nat) {s : Node}, n.get? path = some s →
    ∃ pre post, f n = pre ++ f s ++ post ∧ ∀ new, f (n.set path new) = pre ++ f new ++ post
  | n, [], s, found => by
    obtain rfl : n = s := by simpa [Node.get?] using found
    exact ⟨[], [], by simp, fun new => by simp [Node.set]⟩
  | .leaf .., _ :: _, _, found => by simp [Node.get?] at found
  | .splitter id r o children cap, i :: path, s, found => by
    simp only [Node.get?] at found
    cases child : children[i]? with
    | none => simp [child] at found
    | some c =>
      rw [child] at found
      obtain ⟨pre, post, old, new⟩ := frame_get? c path found
      obtain ⟨inside, rfl⟩ := List.getElem?_eq_some_iff.mp child
      refine ⟨own id ++ (children.take i).flatMap f ++ pre, post ++ (children.drop (i + 1)).flatMap f,
        ?_, fun x => ?_⟩
      · rw [unfolds, flatMap_around f inside, old]
        simp only [List.append_assoc]
      · rw [Node.set, child, unfolds, flatMap_set f inside, new]
        simp only [List.append_assoc]

end Frame

theorem Node.leafIds_get? {n : Node} {path : List Nat} {s : Node} (found : n.get? path = some s) :
    ∃ pre post, n.leafIds = pre ++ s.leafIds ++ post ∧
      ∀ new, (n.set path new).leafIds = pre ++ new.leafIds ++ post :=
  frame_get? Node.leafIds (fun _ => []) (fun _ _ _ children _ => leafIdsOf_eq_flatMap children) n path found

theorem Node.ids_get? {n : Node} {path : List Nat} {s : Node} (found : n.get? path = some s) :
    ∃ pre post, n.ids = pre ++ s.ids ++ post ∧ ∀ new, (n.set path new).ids = pre ++ new.ids ++ post :=
  frame_get? Node.ids (fun id => [id]) (fun _ _ _ children _ => by
    rw [Node.ids, idsOf_eq_flatMap, List.singleton_append]) n path found

theorem replaceChild_eq_set {id : Nat} {new c : Node} : ∀ {children : List Node} {k : Nat},
    (children.map Node.id).Nodup → children[k]? = some c → c.id = id →
      replaceChild id new children = children.set k new
  | [], _, _, found, _ => by simp at found
  | x :: rest, 0, _, found, named => by
    obtain rfl : x = c := by simpa using found
    simp [replaceChild, named]
  | x :: rest, k + 1, distinct, found, named => by
    rw [List.getElem?_cons_succ] at found
    rw [List.map_cons, List.nodup_cons] at distinct
    have other : x.id ≠ id := fun same =>
      distinct.1 (same ▸ named ▸ List.mem_map_of_mem _ (List.getElem?_mem found))
    rw [replaceChild, if_neg other, replaceChild_eq_set distinct.2 found named]
    rfl

theorem leafIdsOf_eraseIdx {children : List Node} {i : Nat} (inside : i < children.length) :
    leafIdsOf children =
        leafIdsOf (children.take i) ++ children[i].leafIds ++ leafIdsOf (children.drop (i + 1)) ∧
      leafIdsOf (children.eraseIdx i) = leafIdsOf (children.take i) ++ leafIdsOf (children.drop (i + 1)) := by
  simp only [leafIdsOf_eq_flatMap, List.eraseIdx_eq_take_drop_succ, List.flatMap_append,
    flatMap_around _ inside, List.append_assoc, and_self]

theorem idsOf_eraseIdx {children : List Node} {i : Nat} (inside : i < children.length) :
    idsOf children = idsOf (children.take i) ++ children[i].ids ++ idsOf (children.drop (i + 1)) ∧
      idsOf (children.eraseIdx i) = idsOf (children.take i) ++ idsOf (children.drop (i + 1)) := by
  simp only [idsOf_eq_flatMap, List.eraseIdx_eq_take_drop_succ, List.flatMap_append,
    flatMap_around _ inside, List.append_assoc, and_self]

theorem leafIds_set_of_drop {n s new : Node} {q : List Nat} {A X B : List Nat} (found : n.get? q = some s)
    (old : s.leafIds = A ++ X ++ B) (shrunk : new.leafIds = A ++ B) :
    ∃ pre post, n.leafIds = pre ++ X ++ post ∧ (n.set q new).leafIds = pre ++ post := by
  obtain ⟨pre, post, whole, set⟩ := Node.leafIds_get? found
  exact ⟨pre ++ A, B ++ post, by rw [whole, old]; simp only [List.append_assoc],
    by rw [set, shrunk]; simp only [List.append_assoc]⟩

theorem nodup_children_of_get? {n : Node} {path : List Nat} {id : Nat} {r : Rect} {o : Orientation}
    {children : List Node} {cap : Nat} (distinct : n.ids.Nodup)
    (found : n.get? path = some (.splitter id r o children cap)) : (children.map Node.id).Nodup := by
  obtain ⟨pre, post, whole, -⟩ := Node.ids_get? found
  rw [whole, List.append_assoc] at distinct
  have below : (idsOf children).Sublist (pre ++ ((id :: idsOf children) ++ post)) :=
    ((List.sublist_cons_self id _).trans (List.sublist_append_left _ post)).trans (List.sublist_append_right pre _)
  exact distinct.sublist ((map_id_sublist_idsOf children).trans below)

theorem ids_set_sublist {n s new : Node} {q : List Nat} (found : n.get? q = some s)
    (sub : new.ids.Sublist s.ids) : (n.set q new).ids.Sublist n.ids := by
  obtain ⟨pre, post, whole, set⟩ := Node.ids_get? found
  rw [set, whole]
  exact (sub.append_left pre).append_right post

/-- What `wm_splitter_remove` on the splitter at `path` does, when addresses are
distinct: child `i`, whose address is `window`, is taken out, and the splitter
stays with the other children, or collapses into the one child left, in the
root's place or in its own slot `k` of its parent. -/
theorem removeAt_shape {event : Node → Node} {wm wm' : Wm} {path : List Nat} {window : Nat}
    (distinct : wm.root.ids.Nodup) (removed : removeAt event wm path window = some wm') :
    ∃ sid r o children cap i, ∃ inside : i < children.length,
      wm.root.get? path = some (.splitter sid r o children cap) ∧ children[i].id = window ∧
      (wm'.root = wm.root.set path (event (.splitter sid r o (children.eraseIdx i) cap)) ∧ 3 ≤ children.length ∨
        ∃ child, children.eraseIdx i = [child] ∧
          ((path = [] ∧ wm'.root = wm.root.set path (event (child.setRect r))) ∨
            ∃ gid gr go siblings gcap k, wm.root.get? path.dropLast = some (.splitter gid gr go siblings gcap) ∧
              siblings[k]? = some (.splitter sid r o children cap) ∧
              wm'.root = wm.root.set path.dropLast
                (event (.splitter gid gr go (siblings.set k (child.setRect r)) gcap)))) := by
  unfold removeAt at removed
  cases atPath : wm.root.get? path with
  | none => simp [atPath] at removed
  | some s =>
    rw [atPath] at removed
    obtain _ | ⟨sid, r, o, children, cap⟩ := s
    · simp at removed
    simp only at removed
    by_cases few : children.length < 2
    · simp [few] at removed
    rw [if_neg few] at removed
    cases found : findChild children window with
    | none => simp [arrayRemove, found] at removed
    | some i =>
      obtain ⟨inside, named, -⟩ := List.findIdx?_eq_some_iff_getElem.mp found
      refine ⟨sid, r, o, children, cap, i, inside, rfl, by simpa using named, ?_⟩
      rw [arrayRemove_eq found] at removed
      have shorter : (children.eraseIdx i).length + 1 = children.length := by
        rw [List.length_eraseIdx, if_pos inside]
        omega
      generalize children.eraseIdx i = rest at removed shorter
      rcases rest with _ | ⟨child, _ | ⟨next, more⟩⟩
      · simp only [List.length_nil] at shorter
        omega
      swap
      · cases removed
        exact .inl ⟨rfl, by simp only [List.length_cons] at shorter; omega⟩
      refine .inr ⟨child, rfl, ?_⟩
      dsimp only at removed
      unfold collapse at removed
      by_cases top : path = []
      · subst top
        rw [if_pos rfl] at removed
        cases removed
        have root : wm.root = .splitter sid r o children cap := by simpa [Node.get?] using atPath
        exact .inl ⟨rfl, by rw [root]; rfl⟩
      rw [if_neg top] at removed
      cases parent : wm.root.get? path.dropLast with
      | none => simp [parent] at removed
      | some g =>
        rw [parent] at removed
        obtain _ | ⟨gid, gr, go, siblings, gcap⟩ := g
        · simp at removed
        cases removed
        have slot : siblings[path.getLast top]? = some (.splitter sid r o children cap) := by
          have step := wm.root.get?_append_singleton path.dropLast (path.getLast top)
          rwa [List.dropLast_append_getLast top, atPath, parent, Option.some_bind, Node.children, eq_comm] at step
        rw [replaceChild_eq_set (nodup_children_of_get? distinct parent) slot
          (show (Node.splitter sid r o children cap).id = sid from rfl)]
        exact .inr ⟨gid, gr, go, siblings, gcap, _, rfl, slot, rfl⟩

section Remove

variable {event : Node → Node} (keeps : ∀ n, (event n).erase = n.erase)
include keeps

theorem leafIds_event (n : Node) : (event n).leafIds = n.leafIds := by
  rw [← Node.leafIds_erase, keeps, Node.leafIds_erase]

theorem ids_event (n : Node) : (event n).ids = n.ids := by
  rw [← Node.ids_erase, keeps, Node.ids_erase]

theorem removeAt_leafIds {wm wm' : Wm} {path : List Nat} {window : Nat} (distinct : wm.root.ids.Nodup)
    (removed : removeAt event wm path window = some wm') :
    ∃ sid r o children cap, wm.root.get? path = some (.splitter sid r o children cap) ∧
      ∃ c ∈ children, c.id = window ∧
        ∃ pre post, wm.root.leafIds = pre ++ c.leafIds ++ post ∧ wm'.root.leafIds = pre ++ post := by
  obtain ⟨sid, r, o, children, cap, i, inside, atPath, named, shape⟩ := removeAt_shape distinct removed
  refine ⟨sid, r, o, children, cap, atPath, children[i], List.getElem_mem inside, named, ?_⟩
  obtain ⟨whole, shrunk⟩ := leafIdsOf_eraseIdx inside
  rw [← Node.leafIds] at whole
  rcases shape with ⟨kept, -⟩ | ⟨child, one, ⟨-, root⟩ | ⟨gid, gr, go, siblings, gcap, k, parent, slot, root⟩⟩
  · rw [kept]
    exact leafIds_set_of_drop atPath whole (by rw [leafIds_event keeps, Node.leafIds, shrunk])
  all_goals rw [one, leafIdsOf, leafIdsOf, List.append_nil] at shrunk
  · rw [root]
    exact leafIds_set_of_drop atPath whole (by rw [leafIds_event keeps, Node.leafIds_setRect, shrunk])
  · obtain ⟨inside, at_slot⟩ := List.getElem?_eq_some_iff.mp slot
    rw [root]
    refine leafIds_set_of_drop (A := (siblings.take k).flatMap Node.leafIds ++ leafIdsOf (children.take i))
      (B := leafIdsOf (children.drop (i + 1)) ++ (siblings.drop (k + 1)).flatMap Node.leafIds) parent ?_ ?_
    · rw [Node.leafIds, leafIdsOf_eq_flatMap, flatMap_around _ inside, at_slot, whole]
      simp only [List.append_assoc]
    · rw [leafIds_event keeps, Node.leafIds, leafIdsOf_eq_flatMap, flatMap_set _ inside, Node.leafIds_setRect,
        shrunk]
      simp only [List.append_assoc]

theorem removeAt_ids {wm wm' : Wm} {path : List Nat} {window : Nat} (distinct : wm.root.ids.Nodup)
    (removed : removeAt event wm path window = some wm') : wm'.root.ids.Sublist wm.root.ids := by
  obtain ⟨sid, r, o, children, cap, i, inside, atPath, -, shape⟩ := removeAt_shape distinct removed
  have fewer : (idsOf (children.eraseIdx i)).Sublist (idsOf children) := by
    rw [idsOf_eq_flatMap, idsOf_eq_flatMap, List.eraseIdx_eq_take_drop_succ, List.flatMap_append,
      flatMap_around _ inside]
    exact (List.sublist_append_right _ _).append_left _
  rcases shape with ⟨kept, -⟩ | ⟨child, one, ⟨-, root⟩ | ⟨gid, gr, go, siblings, gcap, k, parent, slot, root⟩⟩
  · rw [kept]
    exact ids_set_sublist atPath (by rw [ids_event keeps, Node.ids, Node.ids]; exact fewer.cons₂ sid)
  all_goals rw [one, idsOf, idsOf, List.append_nil] at fewer
  · rw [root]
    exact ids_set_sublist atPath (by rw [ids_event keeps, Node.ids_setRect, Node.ids]; exact fewer.cons sid)
  · obtain ⟨inside, at_slot⟩ := List.getElem?_eq_some_iff.mp slot
    rw [root]
    refine ids_set_sublist parent ?_
    rw [ids_event keeps, Node.ids, Node.ids, idsOf_eq_flatMap, idsOf_eq_flatMap, flatMap_set _ inside,
      flatMap_around _ inside, at_slot, Node.ids_setRect, Node.ids]
    exact (((fewer.cons sid).append_right _).append_left _).cons₂ gid

theorem removeAt_frees {wm wm' : Wm} {path : List Nat} {window : Nat} (distinct : wm.root.ids.Nodup)
    (removed : removeAt event wm path window = some wm') :
    ∃ sid r o children cap, wm.root.get? path = some (.splitter sid r o children cap) ∧
      ∃ c ∈ children, c.id = window ∧ (∀ a ∈ c.ids, a ∉ wm'.root.ids) ∧
        (children.length = 2 → sid ∉ wm'.root.ids) := by
  obtain ⟨sid, r, o, children, cap, i, inside, atPath, named, shape⟩ := removeAt_shape distinct removed
  refine ⟨sid, r, o, children, cap, atPath, children[i], List.getElem_mem inside, named, ?_⟩
  obtain ⟨whole, shrunk⟩ := idsOf_eraseIdx inside
  obtain ⟨pre, post, before, set⟩ := Node.ids_get? atPath
  obtain ⟨freed, moved, dropped, collapsed⟩ : ∃ freed : List Nat, wm.root.ids.Perm (wm'.root.ids ++ freed) ∧
      children[i].ids.Sublist freed ∧ (children.length = 2 → sid ∈ freed) := by
    rcases shape with ⟨kept, three⟩ | ⟨child, one, ⟨-, root⟩ | ⟨gid, gr, go, siblings, gcap, k, parent, slot, root⟩⟩
    · refine ⟨children[i].ids, ?_, .refl _, fun two => by omega⟩
      rw [kept, set, ids_event keeps, before, Node.ids, Node.ids, whole, shrunk]
      exact List.perm_iff_count.mpr fun a => by simp only [List.count_append, List.count_cons]; omega
    all_goals rw [one, idsOf, idsOf, List.append_nil] at shrunk
    · refine ⟨sid :: children[i].ids, ?_, List.sublist_cons_self _ _, fun _ => List.mem_cons_self _ _⟩
      rw [root, set, ids_event keeps, Node.ids_setRect, before, Node.ids, whole, shrunk]
      exact List.perm_iff_count.mpr fun a => by simp only [List.count_append, List.count_cons]; omega
    · obtain ⟨inside', at_slot⟩ := List.getElem?_eq_some_iff.mp slot
      obtain ⟨pre', post', before', set'⟩ := Node.ids_get? parent
      refine ⟨sid :: children[i].ids, ?_, List.sublist_cons_self _ _, fun _ => List.mem_cons_self _ _⟩
      rw [root, set', ids_event keeps, before', Node.ids, Node.ids, idsOf_eq_flatMap, idsOf_eq_flatMap,
        flatMap_set _ inside', flatMap_around _ inside', at_slot, Node.ids_setRect, Node.ids, whole, shrunk]
      exact List.perm_iff_count.mpr fun a => by simp only [List.count_append, List.count_cons]; omega
  have apart := List.disjoint_of_nodup_append (moved.nodup_iff.mp distinct)
  exact ⟨fun a mem kept => apart kept (dropped.subset mem), fun two kept => apart kept (collapsed two)⟩

end Remove

/-- A removal through the window manager, with the source's layout event, takes
out exactly the panes of the child `window` of the splitter that `splitter`
names, and keeps every other pane of the tree in its order. -/
theorem remove_drops_window_panes (p : Proportions) {wm wm' : Wm} {splitter window : Nat}
    (distinct : wm.root.ids.Nodup) (applied : wm.apply (layoutEvent p) (.remove splitter window) = some wm') :
    ∃ s ∈ (wm.root.pathTo splitter).bind wm.root.get?, ∃ removed ∈ s.children, removed.id = window ∧
      ∃ pre post, wm.root.leafIds = pre ++ removed.leafIds ++ post ∧ wm'.root.leafIds = pre ++ post := by
  simp only [Wm.apply] at applied
  cases path : wm.root.pathTo splitter with
  | none => simp [path] at applied
  | some q =>
    rw [path] at applied
    obtain ⟨sid, r, o, children, cap, atPath, rest⟩ := removeAt_leafIds (erase_layoutEvent p) distinct applied
    exact ⟨_, Option.mem_def.mpr atPath, rest⟩

theorem remove_drops_window_panes_twoPanes :
    (twoPanes 1).root.ids.Nodup ∧
      ∃ s ∈ ((twoPanes 1).root.pathTo 0).bind (twoPanes 1).root.get?, ∃ removed ∈ s.children, removed.id = 2 ∧
        ∃ pre post, (twoPanes 1).root.leafIds = pre ++ removed.leafIds ++ post ∧
          (⟨.leaf 1 ⟨0, 0, 24, 80⟩ 1 1, 1⟩ : Wm).root.leafIds = pre ++ post :=
  ⟨by decide, remove_drops_window_panes floatProportions (by decide) rfl⟩

/-- What a removal through the window manager destroys, the removed child and,
after a collapse, the splitter, no slot of the tree left points to, when the
addresses are distinct. -/
theorem remove_frees_unreachable (p : Proportions) {wm wm' : Wm} {splitter window : Nat}
    (distinct : wm.root.ids.Nodup) (applied : wm.apply (layoutEvent p) (.remove splitter window) = some wm') :
    ∃ s ∈ (wm.root.pathTo splitter).bind wm.root.get?, ∃ c ∈ s.children, c.id = window ∧
      (∀ a ∈ c.ids, a ∉ wm'.root.ids) ∧ (s.children.length = 2 → s.id ∉ wm'.root.ids) := by
  simp only [Wm.apply] at applied
  cases path : wm.root.pathTo splitter with
  | none => simp [path] at applied
  | some q =>
    rw [path] at applied
    obtain ⟨sid, r, o, children, cap, atPath, rest⟩ := removeAt_frees (erase_layoutEvent p) distinct applied
    exact ⟨_, Option.mem_def.mpr atPath, rest⟩

theorem remove_frees_unreachable_twoPanes :
    (twoPanes 1).root.ids.Nodup ∧
      ∃ s ∈ ((twoPanes 1).root.pathTo 0).bind (twoPanes 1).root.get?, ∃ c ∈ s.children, c.id = 2 ∧
        (∀ a ∈ c.ids, a ∉ (⟨.leaf 1 ⟨0, 0, 24, 80⟩ 1 1, 1⟩ : Wm).root.ids) ∧
        (s.children.length = 2 → s.id ∉ (⟨.leaf 1 ⟨0, 0, 24, 80⟩ 1 1, 1⟩ : Wm).root.ids) :=
  ⟨by decide, remove_frees_unreachable floatProportions (by decide) rfl⟩

/-- Along every run of removals from a tree whose addresses are distinct, the
addresses stay distinct, so that each removal takes out exactly its window's
panes, and the panes left are the panes before, in their order, less some. -/
theorem removals_keep_addresses_distinct (p : Proportions) (ops : List Wm.Op)
    (removals : ∀ op ∈ ops, ∃ splitter window, op = .remove splitter window) {wm wm' : Wm}
    (distinct : wm.root.ids.Nodup) (run : wm.run (layoutEvent p) ops = some wm') :
    wm'.root.ids.Nodup ∧ wm'.root.leafIds.Sublist wm.root.leafIds := by
  refine run_invariant (fun w => w.root.ids.Nodup ∧ w.root.leafIds.Sublist wm.root.leafIds) _
    (fun {w w' op} isRemoval kept applied => ?_) ops removals ⟨distinct, .refl _⟩ run
  obtain ⟨splitter, window, rfl⟩ := isRemoval
  rcases apply_cases applied with ⟨_, _, _, _, _, _, _, _, wrong, -⟩ | ⟨_, _, path, -, removed⟩
  · cases wrong
  obtain ⟨-, -, -, -, -, -, c, -, -, pre, post, before, after⟩ :=
    removeAt_leafIds (erase_layoutEvent p) kept.1 removed
  refine ⟨kept.1.sublist (removeAt_ids (erase_layoutEvent p) kept.1 removed), ?_⟩
  rw [after]
  exact ((List.sublist_append_left pre c.leafIds).append_right post).trans (before ▸ kept.2)

/-- Three panes stacked in a 24 by 80 splitter, pane 1 focused. -/
def threePanes : Wm :=
  ⟨.splitter 0 ⟨0, 0, 24, 80⟩ .horizontal
    [.leaf 1 ⟨0, 0, 8, 80⟩ 1 1, .leaf 2 ⟨8, 0, 8, 80⟩ 1 1, .leaf 3 ⟨16, 0, 8, 80⟩ 1 1] 4, 1⟩

theorem removals_keep_addresses_distinct_threePanes :
    threePanes.root.ids.Nodup ∧ (⟨.leaf 1 ⟨0, 0, 24, 80⟩ 1 1, 1⟩ : Wm).root.ids.Nodup ∧
      (⟨.leaf 1 ⟨0, 0, 24, 80⟩ 1 1, 1⟩ : Wm).root.leafIds.Sublist threePanes.root.leafIds :=
  ⟨by decide, removals_keep_addresses_distinct floatProportions [.remove 0 2, .remove 0 3]
    (by simp) (by decide) rfl⟩

theorem arrayInsert_near {children : List Node} {pos : Nat} (obj : Node) (hpos : pos ≤ children.length)
    (near : children.length ≤ pos + 1) :
    arrayInsert children pos obj = children.take pos ++ obj :: children.drop pos := by
  rcases Nat.lt_or_eq_of_le hpos with inside | rfl
  · rw [arrayInsert_eq _ _ inside, List.drop_eq_getElem_cons inside, List.drop_eq_nil_of_le (by omega),
      show children.length - pos = 1 by omega, List.replicate_one]
  · simp [arrayInsert, shiftUp]

/-- What a split after `window` makes of the splitter it is given: the new
window inserted after child `i`, the first of address `window`, or child `i`
traded for a new splitter along `o` holding that child and then the new
window. -/
theorem splitAt_some_shape {event : Node → Node} {s s' newWindow : Node} {w : Nat} {o : Orientation}
    {newId : Nat} (split : splitAt event s (some w) newWindow o newId = some s') :
    ∃ sid r so children cap i, s = .splitter sid r so children cap ∧ findChild children w = some i ∧
      (o = so ∧ s' = insertChild event s (i + 1) (newContext r newWindow) ∨
        o ≠ so ∧ s' = insertChild event (.splitter sid r so (children.eraseIdx i) cap) i
          (insertChild event (insertChild event (.splitter newId (children.getD i default).rect o [] 4) 0
            (newContext (children.getD i default).rect (children.getD i default))) 1
            (newContext (children.getD i default).rect newWindow))) := by
  obtain _ | ⟨sid, r, so, children, cap⟩ := s
  · simp [splitAt] at split
  simp only [splitAt] at split
  cases found : findChild children w with
  | none => simp [found] at split
  | some i =>
    simp only [found] at split
    refine ⟨sid, r, so, children, cap, i, rfl, found, ?_⟩
    split_ifs at split with same
    · exact .inl ⟨same, (Option.some.inj split).symm⟩
    · rw [arrayRemove_eq found, Option.getD_some] at split
      exact .inr ⟨same, (Option.some.inj split).symm⟩

section Split

variable {event : Node → Node} (keeps : ∀ n, (event n).erase = n.erase)
include keeps

theorem ids_insertChild {sid : Nat} {r : Rect} {o : Orientation} {children : List Node} {cap pos : Nat}
    (obj : Node) (hpos : pos ≤ children.length) (near : children.length ≤ pos + 1) :
    (insertChild event (.splitter sid r o children cap) pos obj).ids =
      sid :: (idsOf (children.take pos) ++ obj.ids ++ idsOf (children.drop pos)) := by
  rw [insertChild, ids_event keeps, Node.ids, arrayInsert_near obj hpos near, idsOf_eq_flatMap,
    idsOf_eq_flatMap, idsOf_eq_flatMap, List.flatMap_append, List.flatMap_cons, List.append_assoc]

theorem ids_across (newId : Nat) (r : Rect) (o : Orientation) (target newWindow : Node) :
    (insertChild event (insertChild event (.splitter newId r o [] 4) 0 target) 1 newWindow).ids =
      newId :: (target.ids ++ newWindow.ids) := by
  rw [← Node.ids_erase, insertChild_erase keeps, insertChild_erase keeps]
  simp [insertChild, arrayInsert, shiftUp, Node.erase, Node.ids, idsOf, Node.ids_erase]

theorem splitAt_ids {s s' newWindow : Node} {window : Option Nat} {o : Orientation} {newId : Nat}
    (near : ∀ w i, window = some w → findChild s.children w = some i → s.children.length ≤ i + 2)
    (split : splitAt event s window newWindow o newId = some s') :
    ∃ extra, extra.Sublist (newId :: newWindow.ids) ∧ s'.ids.Perm (s.ids ++ extra) := by
  cases window with
  | none =>
    obtain _ | ⟨sid, r, so, children, cap⟩ := s
    · simp [splitAt] at split
    simp only [splitAt] at split
    split_ifs at split
    cases split
    refine ⟨newWindow.ids, List.sublist_cons_self _ _, ?_⟩
    rw [ids_insertChild keeps _ le_rfl (by omega), List.take_length, List.drop_length, newContext,
      Node.ids_setRect, Node.ids, idsOf, List.append_nil, List.cons_append]
  | some w =>
    obtain ⟨sid, r, so, children, cap, i, rfl, index, shape⟩ := splitAt_some_shape split
    obtain ⟨inside, -, -⟩ := List.findIdx?_eq_some_iff_getElem.mp index
    have close : children.length ≤ i + 2 := near w i rfl index
    have around : idsOf children = idsOf (children.take i) ++ (children[i].ids ++ idsOf (children.drop (i + 1))) := by
      rw [idsOf_eq_flatMap, idsOf_eq_flatMap, idsOf_eq_flatMap, flatMap_around _ inside]
    rcases shape with ⟨-, rfl⟩ | ⟨-, rfl⟩
    · refine ⟨newWindow.ids, List.sublist_cons_self _ _, ?_⟩
      have split : idsOf children = idsOf (children.take (i + 1)) ++ idsOf (children.drop (i + 1)) := by
        rw [idsOf_eq_flatMap, idsOf_eq_flatMap, idsOf_eq_flatMap, ← List.flatMap_append, List.take_append_drop]
      rw [ids_insertChild keeps _ (by omega) (by omega), newContext, Node.ids_setRect, Node.ids, split]
      exact List.perm_iff_count.mpr fun x => by simp only [List.count_cons, List.count_append, List.cons_append]; omega
    · refine ⟨newId :: newWindow.ids, .refl _, ?_⟩
      have front : (children.take i).length = i := by rw [List.length_take]; omega
      have shorter : (children.eraseIdx i).length = children.length - 1 := by
        rw [List.length_eraseIdx, if_pos inside]
      rw [ids_insertChild keeps _ (by omega) (by omega), ids_across keeps, List.getD_eq_getElem _ _ inside,
        newContext, newContext, Node.ids_setRect, Node.ids_setRect, List.eraseIdx_eq_take_drop_succ,
        List.take_left' front, List.drop_left' front, Node.ids, around]
      exact List.perm_iff_count.mpr fun x => by simp only [List.count_cons, List.count_append, List.cons_append]; omega

end Split

end Cgdb
