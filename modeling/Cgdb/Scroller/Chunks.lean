import Cgdb.Scroller.Refresh

/-! How `scr_add` depends on the chunks its input arrives in. `parse` trims the
blanks after the caret at the end of every call, so a chunk boundary can drop a
blank that one call over the whole text keeps: after a carriage return the caret
sits before the blank. The lines then differ by that one trailing space, and in
nothing else. -/

namespace Cgdb

theorem isspace_of_printable {x : Char} (print : isprint x) (space : isspace x) : x = ' ' := by
  have h1 := print; have h2 := space
  simp only [isprint, isspace, Bool.and_eq_true, Bool.or_eq_true, decide_eq_true_eq,
    beq_iff_eq] at h1 h2
  have h : x.toNat = 32 := by omega
  exact Char.ext (UInt32.eq_of_val_eq (Fin.ext h))

theorem rtrim_append_spaces (l : List Char) (m : Nat) :
    rtrim (l ++ List.replicate m ' ') = rtrim l := by
  induction m with
  | zero => simp
  | succ m ih => rw [List.replicate_succ', ← List.append_assoc, rtrim_append_space (c := ' ') rfl, ih]

theorem trimLine_spaces {l : List Char} {i : Nat} (hi : i ≤ l.length)
    (printable : ∀ x ∈ l, isprint x) :
    (∃ m, l = trimLine l i ++ List.replicate m ' ') ∧ i ≤ (trimLine l i).length := by
  refine ⟨?_, by simp [trimLine]; omega⟩
  set d := l.drop (i + 1)
  have hsplit : d = rtrim d ++ (d.reverse.takeWhile isspace).reverse := by
    rw [rtrim, ← List.reverse_append, List.takeWhile_append_dropWhile, List.reverse_reverse]
  have blanks : ∀ x ∈ (d.reverse.takeWhile isspace).reverse, x = ' ' := by
    intro x hx
    rw [List.mem_reverse] at hx
    exact isspace_of_printable
      (printable x (List.mem_of_mem_drop (List.mem_reverse.mp (List.takeWhile_subset _ hx))))
      (List.mem_takeWhile_imp hx)
  rw [List.eq_replicate_iff.mpr ⟨rfl, blanks⟩] at hsplit
  exact ⟨_, by rw [trimLine, List.append_assoc, ← hsplit, List.take_append_drop]⟩

theorem putAt_spaces {l : List Char} {i : Nat} (c : Char) (m : Nat) (hi : i ≤ l.length) :
    ∃ m', putAt (l ++ List.replicate m ' ') i c = putAt l i c ++ List.replicate m' ' ' := by
  rcases Nat.lt_or_eq_of_le hi with hlt | rfl
  · refine ⟨m, ?_⟩
    rw [putAt, putAt, List.take_append_of_le_length (by omega),
      List.drop_append_of_le_length (by omega)]
    simp
  · refine ⟨m - 1, ?_⟩
    simp only [putAt, List.take_append_of_le_length (le_refl _), List.take_length,
      List.drop_append_eq_append_drop, List.drop_eq_nil_of_le (Nat.le_succ _), List.length_drop,
      List.nil_append, List.drop_replicate, List.drop_length, List.append_nil]
    simp

/-- `u` is `c` followed by spaces. -/
def Padded (u c : List Char) : Prop := ∃ m, u = c ++ List.replicate m ' '

theorem Padded.refl (l : List Char) : Padded l l := ⟨0, by simp⟩

theorem tabFill_caret (u c : List Char) (i fuel : Nat) :
    (tabFill (m := Id) putAt u i fuel).2 = (tabFill (m := Id) putAt c i fuel).2 := by
  induction fuel generalizing u c i with
  | zero => rfl
  | succ fuel ih =>
    simp only [tabFill, Id.bind_eq, Id.pure_eq]
    split
    · rfl
    · exact ih _ _ _

theorem expand_caret (u c : List Char) (i : Nat) (x : Char) :
    (expand (m := Id) putAt (u, i) x).2 = (expand (m := Id) putAt (c, i) x).2 := by
  unfold expand
  split
  · rfl
  · rfl
  · exact tabFill_caret _ _ _ _
  · rfl
  · split <;> rfl

theorem interp_caret (u c : List Char) (i : Nat) (buf : List Char) :
    (interp u i buf).2 = (interp c i buf).2 := by
  induction buf generalizing u c i with
  | nil => rfl
  | cons x buf ih => rw [interp_cons, interp_cons, expand_caret u c]; exact ih _ _ _

theorem tabFill_padded {u c : List Char} {i : Nat} (fuel : Nat) (pad : Padded u c)
    (hi : i ≤ c.length) :
    Padded (tabFill (m := Id) putAt u i fuel).1 (tabFill (m := Id) putAt c i fuel).1 := by
  induction fuel generalizing u c i with
  | zero => exact pad
  | succ fuel ih =>
    obtain ⟨m, rfl⟩ := pad
    obtain ⟨m', hm'⟩ := putAt_spaces ' ' m hi
    have := length_putAt ' ' hi
    simp only [tabFill, Id.bind_eq, Id.pure_eq]
    split
    · exact ⟨m', hm'⟩
    · exact ih ⟨m', hm'⟩ (by omega)

theorem expand_padded {u c : List Char} {i : Nat} (x : Char) (pad : Padded u c)
    (hi : i ≤ c.length) :
    Padded (expand (m := Id) putAt (u, i) x).1 (expand (m := Id) putAt (c, i) x).1 := by
  unfold expand
  split
  · exact pad
  · exact pad
  · exact tabFill_padded _ pad hi
  · exact pad
  · split
    · obtain ⟨m, rfl⟩ := pad
      exact putAt_spaces x m hi
    · exact pad

theorem interp_padded {u c : List Char} {i : Nat} (buf : List Char) (pad : Padded u c)
    (hi : i ≤ c.length) : Padded (interp u i buf).1 (interp c i buf).1 := by
  induction buf generalizing u c i with
  | nil => exact pad
  | cons x buf ih =>
    rw [interp_cons, interp_cons, expand_caret u c]
    exact ih (expand_padded x pad hi) (expand_bounds x hi).1

theorem trimLine_padded {u c : List Char} {j : Nat} (pad : Padded u c) (hj : j ≤ c.length) :
    ∃ k ≤ 1, trimLine u j = trimLine c j ++ List.replicate k ' ' := by
  obtain ⟨m, rfl⟩ := pad
  rcases Nat.lt_or_eq_of_le hj with hlt | rfl
  · refine ⟨0, Nat.zero_le _, ?_⟩
    rw [trimLine, trimLine, List.take_append_of_le_length (by omega),
      List.drop_append_of_le_length (by omega), rtrim_append_spaces]
    simp
  · refine ⟨min 1 m, Nat.min_le_left _ _, ?_⟩
    have blank : rtrim (List.replicate (m - 1) ' ') = [] := rtrim_append_spaces [] (m - 1)
    simp only [trimLine, List.take_append_eq_append_take, List.take_of_length_le (Nat.le_succ _),
      List.drop_append_eq_append_drop, List.drop_eq_nil_of_le (Nat.le_succ _),
      List.length_drop, List.drop_length, List.nil_append, List.take_replicate,
      List.drop_replicate, Nat.add_sub_cancel_left, blank]
    simp [rtrim]

theorem feedLine_padded {u c : List Char} {p : Nat} (seg : List Char) (pad : Padded u c)
    (hp : p ≤ c.length) :
    (feedLine u p seg).2 = (feedLine c p seg).2 ∧
      ∃ k ≤ 1, (feedLine u p seg).1 = (feedLine c p seg).1 ++ List.replicate k ' ' := by
  have caret := interp_caret u c p seg
  refine ⟨caret, ?_⟩
  simp only [feedLine, caret]
  exact trimLine_padded (interp_padded seg pad hp) (interp_bounds seg hp).1

theorem feedLine_append {l : List Char} {p : Nat} (a b : List Char) (hp : p ≤ l.length)
    (printable : ∀ x ∈ l, isprint x) :
    (feedLine l p (a ++ b)).2 = (feedLine (feedLine l p a).1 (feedLine l p a).2 b).2 ∧
      ∃ k ≤ 1, (feedLine l p (a ++ b)).1 =
        (feedLine (feedLine l p a).1 (feedLine l p a).2 b).1 ++ List.replicate k ' ' := by
  have split : interp l p (a ++ b) = interp (interp l p a).1 (interp l p a).2 b :=
    List.foldl_append ..
  obtain ⟨⟨m, hm⟩, hi⟩ := trimLine_spaces (interp_bounds a hp).1 (printable_interp p a printable)
  simp only [feedLine, split]
  exact feedLine_padded b ⟨m, hm⟩ hi

/-- `u` has the lines of `t`, each followed by at most one more blank, and the
same caret. -/
structure Close (t u : Scroller) : Prop where
  length : u.buffer.length = t.buffer.length
  pos : u.current.pos = t.current.pos
  lines : ∀ r, ∃ k ≤ 1, u.line r = t.line r ++ List.replicate k ' '

theorem Close.refl (scr : Scroller) : Close scr scr :=
  ⟨rfl, rfl, fun _ => ⟨0, Nat.zero_le _, by simp⟩⟩

@[simp] theorem Scroller.newline_line (scr : Scroller) (r : Nat) :
    scr.newline.line r = scr.line r := by
  simp only [Scroller.newline, Scroller.line, List.getD_eq_getElem?_getD]
  rcases lt_or_le r scr.buffer.length with h | h
  · rw [List.getElem?_append_left h]
  · rw [List.getElem?_append_right h, List.getElem?_eq_none h]
    cases r - scr.buffer.length <;> simp

theorem Close.newline {t u : Scroller} (close : Close t u) : Close t.newline u.newline :=
  ⟨by simp [Scroller.newline, close.length], rfl, by simpa using close.lines⟩

theorem Close.feed {t u : Scroller} (seg : List Char) (wf : Wf t) (close : Close t u) :
    Close (t.feed seg) (u.feed seg) := by
  have last : ∃ k ≤ 1, u.lastLine = t.lastLine ++ List.replicate k ' ' := by
    simpa only [Scroller.lastLine, close.length] using close.lines (t.buffer.length - 1)
  obtain ⟨k, -, hk⟩ := last
  obtain ⟨pos, k', hk', line⟩ := feedLine_padded seg (p := t.current.pos) ⟨k, hk⟩ wf.caret
  have nonempty : u.buffer ≠ [] := List.ne_nil_of_length_pos (close.length ▸ length_pos_of_wf wf)
  refine ⟨by simp [Scroller.feed, close.length], by simpa [Scroller.feed, close.pos] using pos,
    fun r => ?_⟩
  rw [Scroller.feed_line seg wf.nonempty, Scroller.feed_line seg nonempty, close.length, close.pos]
  split
  · exact ⟨k', hk', line⟩
  · exact close.lines r

theorem Close.lines_foldl {t u : Scroller} (segs : List (List Char)) (wf : Wf t) (close : Close t u) :
    Close (segs.foldl (fun s seg => s.newline.feed seg) t)
      (segs.foldl (fun s seg => s.newline.feed seg) u) := by
  induction segs generalizing t u with
  | nil => exact close
  | cons seg segs ih => exact ih (wf.newline.feed seg) (close.newline.feed seg wf.newline)

theorem feedFirst_feed_append {scr : Scroller} (a b : List Char) (wf : Wf scr) :
    Close ((scr.feed a).feedFirst b) (scr.feed (a ++ b)) := by
  unfold Scroller.feedFirst
  split
  · have nonempty := (wf.feed a).nonempty
    obtain ⟨pos, k, hk, line⟩ := feedLine_append a b wf.caret
      (wf.printable _ (lastLine_mem wf.nonempty))
    refine ⟨by simp, by simpa [Scroller.feed_lastLine _ wf.nonempty] using pos, fun r => ?_⟩
    rw [Scroller.feed_line _ wf.nonempty, Scroller.feed_line _ nonempty,
      Scroller.feed_line _ wf.nonempty, Scroller.feed_length, Scroller.feed_lastLine _ wf.nonempty,
      Scroller.feed_pos]
    split_ifs
    · exact ⟨k, hk, line⟩
    · exact ⟨0, Nat.zero_le _, by simp⟩
  · rw [List.eq_nil_of_length_eq_zero (by omega : b.length = 0), List.append_nil]
    exact Close.refl _

theorem feedFirst_append {scr : Scroller} (a b : List Char) (wf : Wf scr) :
    Close ((scr.feedFirst a).feedFirst b) (scr.feedFirst (a ++ b)) := by
  by_cases ha : 0 < a.length
  · have hab : 0 < (a ++ b).length := by simp; omega
    simp only [Scroller.feedFirst, if_pos ha, if_pos hab]
    exact feedFirst_feed_append a b wf
  · rw [List.eq_nil_of_length_eq_zero (by omega : a.length = 0)]
    simp only [Scroller.feedFirst, List.length_nil, lt_irrefl, if_false, List.nil_append]
    exact Close.refl _

theorem segments_append (a b : List Char) :
    ((segments a).2 = [] ∧ segments (a ++ b) = ((segments a).1 ++ (segments b).1, (segments b).2)) ∨
      ∃ init x, (segments a).2 = init ++ [x] ∧
        segments (a ++ b) = ((segments a).1, init ++ [x ++ (segments b).1] ++ (segments b).2) := by
  induction a with
  | nil => exact .inl ⟨rfl, rfl⟩
  | cons c a ih =>
    by_cases nl : c = '\n'
    · refine .inr ?_
      rcases ih with ⟨hr, hs⟩ | ⟨init, x, hr, hs⟩
      · exact ⟨[], (segments a).1, by simp [segments, nl, hr], by simp [segments, nl, hs]⟩
      · exact ⟨(segments a).1 :: init, x, by simp [segments, nl, hr], by simp [segments, nl, hs]⟩
    · rcases ih with ⟨hr, hs⟩ | ⟨init, x, hr, hs⟩
      · exact .inl ⟨by simp [segments, nl, hr], by simp [segments, nl, hs]⟩
      · exact .inr ⟨init, x, by simp [segments, nl, hr], by simp [segments, nl, hs]⟩

theorem addText_append {scr : Scroller} (wf : Wf scr) (s1 s2 : List Char) :
    Close ((scr.addText s1).addText s2) (scr.addText (s1 ++ s2)) := by
  rcases segments_append s1 s2 with ⟨hr, hs⟩ | ⟨init, x, hr, hs⟩
  · simp only [Scroller.addText, hr, hs, List.foldl_nil]
    exact Close.lines_foldl _ ((wf.feedFirst _).feedFirst _) (feedFirst_append _ _ wf)
  · set Z := init.foldl (fun s seg => s.newline.feed seg) (scr.feedFirst (segments s1).1)
    have wfZ : Wf Z := Wf.lines _ (wf.feedFirst _)
    simp only [Scroller.addText, hr, hs, List.foldl_append, List.foldl_cons, List.foldl_nil]
    exact Close.lines_foldl _ ((wfZ.newline.feed x).feedFirst _) (feedFirst_feed_append x _ wfZ.newline)

theorem feedFirst_view (scr : Scroller) (r c : Nat) (seg : List Char) :
    ({ scr with current := { scr.current with r := r, c := c } }).feedFirst seg =
      { scr.feedFirst seg with current := { (scr.feedFirst seg).current with r := r, c := c } } := by
  unfold Scroller.feedFirst
  split <;> rfl

theorem addText_view (scr : Scroller) (r c : Nat) (buf : List Char) :
    ({ scr with current := { scr.current with r := r, c := c } }).addText buf =
      { scr.addText buf with current := { (scr.addText buf).current with r := r, c := c } } := by
  unfold Scroller.addText
  rw [feedFirst_view]
  generalize scr.feedFirst (segments buf).1 = X
  induction (segments buf).2 generalizing X with
  | nil => rfl
  | cons seg segs ih => exact ih (X.newline.feed seg)

theorem addText_scrEnd (scr : Scroller) (buf : List Char) :
    ((scrEnd scr).addText buf).buffer = (scr.addText buf).buffer ∧
      ((scrEnd scr).addText buf).current.pos = (scr.addText buf).current.pos := by
  have view := addText_view scr (scrEnd scr).current.r (scrEnd scr).current.c buf
  have buffer := congrArg Scroller.buffer view
  have pos := congrArg (·.current.pos) view
  exact ⟨buffer, pos⟩

theorem Close.congr_left {t t' u : Scroller} (close : Close t u) (buffer : t'.buffer = t.buffer)
    (pos : t'.current.pos = t.current.pos) : Close t' u :=
  ⟨by rw [buffer]; exact close.length, by rw [pos]; exact close.pos,
    fun r => by simpa only [Scroller.line, buffer] using close.lines r⟩

/-- Debugger output split into two chunks leaves the lines and the caret a single
call leaves, except that a line the boundary crosses can lose one trailing blank. -/
theorem scrAdd_chunks {scr : Scroller} (reach : Reachable scr) (s1 s2 : List Char) :
    ∃ t u, (scrAdd scr s1).bind (scrAdd · s2) = some t ∧ scrAdd scr (s1 ++ s2) = some u ∧
      u.buffer.length = t.buffer.length ∧ u.current.pos = t.current.pos ∧
      ∀ r, ∃ k ≤ 1, u.line r = t.line r ++ List.replicate k ' ' := by
  have wf := reachable_wf reach
  have close := (addText_append wf s1 s2).congr_left (addText_scrEnd _ s2).1 (addText_scrEnd _ s2).2
  refine ⟨scrEnd ((scrEnd (scr.addText s1)).addText s2), scrEnd (scr.addText (s1 ++ s2)), ?_,
    scrAdd_eq _ wf, close.length, close.pos, close.lines⟩
  rw [scrAdd_eq s1 wf, Option.some_bind, scrAdd_eq s2 (Inv.scrEnd (wf.addText s1)).toWf]

theorem scrAdd_chunks_from_new :
    ∃ t u, (scrAdd (scrNew 1 10) "a \r".toList).bind (scrAdd · "b".toList) = some t ∧
      scrAdd (scrNew 1 10) ("a \r".toList ++ "b".toList) = some u ∧
      u.buffer.length = t.buffer.length ∧ u.current.pos = t.current.pos ∧
      ∀ r, ∃ k ≤ 1, u.line r = t.line r ++ List.replicate k ' ' :=
  scrAdd_chunks (.scrNew 1 10) _ _

/-- The boundary of the spec's example: `"a \r"` then `"b"` leaves `"b"`, one
call over `"a \rb"` leaves `"b "`. -/
theorem scrAdd_chunks_drop_blank :
    ((scrAdd (scrNew 1 10) "a \r".toList).bind (scrAdd · "b".toList)).map (·.buffer) =
        some ["b".toList] ∧
      (scrAdd (scrNew 1 10) "a \rb".toList).map (·.buffer) = some ["b ".toList] := by
  decide

end Cgdb
