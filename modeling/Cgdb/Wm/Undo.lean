import Cgdb.Wm.Panes

/-! Removing the new window undoes `wm_splitter_split`. `wm_splitter_remove`
is given the splitter the new window went into: the split one when the
orientations agree, else the splitter made across the split, whose collapse
puts the split window back in its slot. With no layout the tree and the focus
come back exactly; with the source's layout, placements aside. The insertion
loop must not have copied a child (at most one child follows the split
window), the array must not have been reallocated, the new window and the new
splitter must have addresses no child of the splitter has, the new window must
not hold the focus, and the splitter must keep two children once the new
window is gone. -/

namespace Cgdb

theorem Node.get?_set : ∀ (n : Node) (path : List Nat) {s : Node} (new : Node), n.get? path = some s →
    (n.set path new).get? path = some new
  | _, [], _, _, _ => by simp [Node.set, Node.get?]
  | .leaf .., _ :: _, _, _, found => by simp [Node.get?] at found
  | .splitter _ _ _ children _, i :: path, _, new, found => by
    simp only [Node.get?] at found
    cases child : children[i]? with
    | none => simp [child] at found
    | some c =>
      rw [child] at found
      simp only [Node.set, child, Node.get?,
        List.getElem?_set_self (List.getElem?_eq_some_iff.mp child).1]
      exact c.get?_set path new found

theorem Node.set_set : ∀ (n : Node) (path : List Nat) (x y : Node), (n.set path x).set path y = n.set path y
  | _, [], _, _ => by simp only [Node.set]
  | .leaf .., _ :: _, _, _ => rfl
  | .splitter _ _ _ children _, i :: path, x, y => by
    cases child : children[i]? with
    | none => simp only [Node.set, child]
    | some c =>
      simp only [Node.set, child, List.getElem?_set_self (List.getElem?_eq_some_iff.mp child).1,
        List.set_set, c.set_set path x y]

theorem set_eq_self {l : List Node} {i : Nat} {c : Node} (at_i : l[i]? = some c) : l.set i c = l := by
  apply List.ext_getElem?
  intro j
  rw [List.getElem?_set]
  split_ifs with same inside
  · rw [← same, at_i]
  · exact absurd (List.getElem?_eq_some_iff.mp at_i).1 inside
  · rfl

theorem Node.set_get? : ∀ (n : Node) (path : List Nat) {s : Node}, n.get? path = some s → n.set path s = n
  | _, [], _, found => by simpa [Node.get?, Node.set, eq_comm] using found
  | .leaf .., _ :: _, _, _ => rfl
  | .splitter _ _ _ children _, i :: path, s, found => by
    simp only [Node.get?] at found
    cases child : children[i]? with
    | none => simp only [Node.set, child]
    | some c =>
      rw [child] at found
      simp only [Node.set, child, c.set_get? path found, set_eq_self child]

section Fresh

variable {id : Nat} {x : Node} (m : List Node) (named : x.id = id)
include named

theorem findChild_append_cons : ∀ {l : List Node}, id ∉ l.map Node.id → findChild (l ++ x :: m) id = some l.length
  | [], _ => by simp [findChild, List.findIdx?_cons, named]
  | y :: l, absent => by
    rw [List.map_cons, List.mem_cons, not_or] at absent
    have later := findChild_append_cons absent.2
    simp only [findChild, List.cons_append, List.findIdx?_cons, decide_eq_true_eq, if_neg (Ne.symm absent.1),
      List.length_cons] at later ⊢
    rw [List.findIdx?_succ, later, Option.map_some']

theorem arrayRemove_append_cons {l : List Node} (absent : id ∉ l.map Node.id) :
    arrayRemove (l ++ x :: m) id = some (l ++ m) := by
  rw [arrayRemove_eq (findChild_append_cons m named absent), List.eraseIdx_append_of_length_le (le_refl _),
    Nat.sub_self, List.eraseIdx_cons_zero]

theorem replaceChild_append_cons (new : Node) : ∀ {l : List Node}, id ∉ l.map Node.id →
    replaceChild id new (l ++ x :: m) = l ++ new :: m
  | [], _ => by simp [replaceChild, named]
  | y :: l, absent => by
    rw [List.map_cons, List.mem_cons, not_or] at absent
    rw [List.cons_append, replaceChild, if_neg (Ne.symm absent.1), replaceChild_append_cons new absent.2,
      List.cons_append]

end Fresh

theorem insertChild_across (newId : Nat) (r : Rect) (o : Orientation) (target newWindow : Node) :
    insertChild id (insertChild id (.splitter newId r o [] 4) 0 (newContext r target)) 1 (newContext r newWindow) =
      .splitter newId r o [newContext r target, newContext r newWindow] 4 := rfl

theorem not_mem_map_take {n : Nat} {children : List Node} (fresh : n ∉ children.map Node.id) (k : Nat) :
    n ∉ (children.take k).map Node.id :=
  fun mem => fresh (List.map_subset _ (List.take_subset _ _) mem)

theorem removeAt_undoes_splitAt {wm : Wm} {q : List Nat} {sid : Nat} {r : Rect} {so : Orientation}
    {children : List Node} {cap : Nat} (atPath : wm.root.get? q = some (.splitter sid r so children cap))
    {w i : Nat} (index : findChild children w = some i) (near : children.length ≤ i + 2)
    (fits : children.length ≤ cap) (branching : 2 ≤ children.length) {n : Node} {o : Orientation}
    {newId : Nat} (room : o = so → children.length < cap) (fresh : n.id ∉ children.map Node.id)
    (freshSplitter : newId ∉ children.map Node.id) (unfocused : wm.focus ≠ n.id) {s' : Node}
    (split : splitAt id (.splitter sid r so children cap) (some w) n o newId = some s') :
    removeAt id { wm with root := wm.root.set q s' } (if o = so then q else q ++ [i]) n.id = some wm := by
  obtain ⟨_, _, _, _, _, i', same, index', shape⟩ := splitAt_some_shape split
  cases same
  obtain rfl : i = i' := Option.some.inj (index.symm.trans index')
  obtain ⟨inside, -, -⟩ := List.findIdx?_eq_some_iff_getElem.mp index
  have restore : wm.root.set q (.splitter sid r so children cap) = wm.root := Node.set_get? _ _ atPath
  rcases shape with ⟨rfl, rfl⟩ | ⟨different, rfl⟩
  · have room := room rfl
    have grown : insertChild id (.splitter sid r o children cap) (i + 1) (newContext r n) =
        .splitter sid r o (children.take (i + 1) ++ newContext r n :: children.drop (i + 1)) cap := by
      rw [insertChild, if_neg (by omega), arrayInsert_near _ (by omega) (by omega)]
      rfl
    rw [if_pos rfl]
    unfold removeAt
    dsimp only
    rw [Node.get?_set _ _ _ atPath, grown]
    dsimp only
    rw [if_neg (by simp; omega),
      arrayRemove_append_cons _ (show (newContext r n).id = n.id from Node.id_setRect _ _) (not_mem_map_take fresh _),
      List.take_append_drop]
    obtain ⟨a, b, rest, rfl⟩ : ∃ a b rest, children = a :: b :: rest := by
      rcases children with _ | ⟨a, _ | ⟨b, rest⟩⟩
      all_goals first | exact ⟨a, b, rest, rfl⟩ | simp at branching
    simp only [Node.set_set, id_eq, restore, beq_iff_eq, unfocused, if_false]
  · rw [if_neg different]
    have front : (children.take i).length = i := by rw [List.length_take]; omega
    have shorter : (children.eraseIdx i).length = children.length - 1 := by
      rw [List.length_eraseIdx, if_pos inside]
    have grown : insertChild id (.splitter sid r so (children.eraseIdx i) cap) i
        (insertChild id (insertChild id (.splitter newId (children.getD i default).rect o [] 4) 0
          (newContext (children.getD i default).rect (children.getD i default))) 1
          (newContext (children.getD i default).rect n)) =
        .splitter sid r so (children.take i ++ .splitter newId children[i].rect o
          [newContext children[i].rect children[i], newContext children[i].rect n] 4 :: children.drop (i + 1)) cap := by
      rw [List.getD_eq_getElem _ _ inside, insertChild_across, insertChild, if_neg (by omega),
        arrayInsert_near _ (by omega) (by omega), List.eraseIdx_eq_take_drop_succ, List.take_left' front,
        List.drop_left' front]
      rfl
    have other : n.id ∉ [newContext children[i].rect children[i]].map Node.id := by
      rw [List.map_singleton, List.mem_singleton, newContext, Node.id_setRect]
      exact fun same => fresh (same ▸ List.mem_map_of_mem _ (List.getElem_mem inside))
    have taken : arrayRemove [newContext children[i].rect children[i], newContext children[i].rect n] n.id =
        some [newContext children[i].rect children[i]] :=
      arrayRemove_append_cons (l := [_]) [] (Node.id_setRect _ _) other
    unfold removeAt
    dsimp only
    rw [Node.get?_append_singleton, Node.get?_set _ _ _ atPath, grown, Option.some_bind, Node.children,
      List.getElem?_append_right (le_of_eq front), front, Nat.sub_self, List.getElem?_cons_zero]
    dsimp only
    rw [if_neg (by simp), taken]
    dsimp only
    unfold collapse
    rw [if_neg (by simp), List.dropLast_concat, Node.get?_set _ _ _ atPath]
    dsimp only
    rw [replaceChild_append_cons _ (show (Node.splitter newId children[i].rect o
        [newContext children[i].rect children[i], newContext children[i].rect n] 4).id = newId from rfl) _
        (not_mem_map_take freshSplitter _), newContext, Node.setRect_setRect,
      Node.setRect_rect, ← List.drop_eq_getElem_cons inside, List.take_append_drop]
    simp only [Node.set_set, id_eq, restore, beq_iff_eq, unfocused, if_false]

/-- `wm_splitter_remove` of the new window from the splitter it went into
undoes `wm_splitter_split` with the source's layout: the tree and the focus come
back, placements aside. -/
theorem remove_undoes_split (p : Proportions) {wm : Wm} {q : List Nat} {sid : Nat} {r : Rect}
    {so : Orientation} {children : List Node} {cap : Nat}
    (atPath : wm.root.get? q = some (.splitter sid r so children cap)) {w i : Nat}
    (index : findChild children w = some i) (near : children.length ≤ i + 2) (fits : children.length ≤ cap)
    (branching : 2 ≤ children.length) {n : Node} {o : Orientation} {newId : Nat}
    (room : o = so → children.length < cap) (fresh : n.id ∉ children.map Node.id)
    (freshSplitter : newId ∉ children.map Node.id)
    (unfocused : wm.focus ≠ n.id) {s' : Node}
    (split : splitAt (layoutEvent p) (.splitter sid r so children cap) (some w) n o newId = some s') :
    (removeAt (layoutEvent p) { wm with root := wm.root.set q s' } (if o = so then q else q ++ [i]) n.id).map
      Wm.erase = some wm.erase := by
  have keepsId : ∀ m : Node, (id m).erase = m.erase := fun _ => rfl
  have erased := splitAt_erase (erase_layoutEvent p) (.splitter sid r so children cap) (some w) n o newId
  rw [split, erase_splitter] at erased
  obtain ⟨s0, split0, same⟩ : ∃ s0, splitAt id (.splitter sid ⟨0, 0, 0, 0⟩ so (children.map Node.erase) cap)
      (some w) n o newId = some s0 ∧ s0.erase = s'.erase := by
    cases found : splitAt id (.splitter sid ⟨0, 0, 0, 0⟩ so (children.map Node.erase) cap) (some w) n o newId with
    | none => simp [found] at erased
    | some s0 => exact ⟨s0, rfl, (Option.some.inj (by simpa [found] using erased)).symm⟩
  have ids : (children.map Node.erase).map Node.id = children.map Node.id := by
    simp [List.map_map, Function.comp_def]
  have erasedPath : wm.erase.root.get? q = some (.splitter sid ⟨0, 0, 0, 0⟩ so (children.map Node.erase) cap) := by
    rw [Wm.erase, Node.get?_erase, atPath, Option.map_some', erase_splitter]
  have back := removeAt_undoes_splitAt erasedPath (by rwa [findChild_erase]) (by simpa using near)
    (by simpa using fits) (by simpa using branching) (fun same => by simpa using room same) (by rwa [ids])
    (by rwa [ids]) unfocused split0
  have tree : ({ wm with root := wm.root.set q s' } : Wm).erase =
      ({ wm.erase with root := wm.erase.root.set q s0 } : Wm).erase := by
    simp only [Wm.erase, Node.set_erase, same, Node.erase_erase]
  rw [removeAt_erase (erase_layoutEvent p), tree, ← removeAt_erase keepsId, back, Option.map_some',
    Wm.erase_erase]

theorem remove_undoes_split_twoPanes :
    splitAt (layoutEvent floatProportions) (twoPanes 1).root (some 2) (pane 3) .horizontal 10 =
        some threePanes.root ∧
      (removeAt (layoutEvent floatProportions) { twoPanes 1 with root := (twoPanes 1).root.set [] threePanes.root }
        (if Orientation.horizontal = .horizontal then [] else [] ++ [1]) (pane 3).id).map Wm.erase =
        some (twoPanes 1).erase :=
  ⟨rfl, @remove_undoes_split floatProportions (twoPanes 1) [] _ _ _ _ _ rfl 2 1 (by decide) (by decide)
    (by decide) (by decide) (pane 3) .horizontal 10 (by decide) (by decide) (by decide) (by decide)
    threePanes.root rfl⟩

end Cgdb
