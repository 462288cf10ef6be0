import Cgdb.Scroller.Refresh

/-! The buffer as the text it records. Read with its lines joined by newlines
(`joinLines`), the buffer is a transcript of the output the scroller was given:
while the caret stands at the end of the last line, `scr_add` with printable bytes
and newlines appends exactly its input, and every other operation moves only the
viewport. `Transcript` relates a scroller to the text it holds; every operation
keeps it (`Transcript.applyOp`), so every run from `scr_new` on such output
succeeds and holds all of that output in order (`scroller_transcript`). A
carriage return instead rewrites the last line from its start, one byte over
another (`scrAdd_carriage_return`). -/

namespace Cgdb

/-- The buffer read as one text: the first line, then each later line after a `'\n'`. -/
def joinLines : List (List Char) → List Char
  | [] => []
  | l :: ls => l ++ ls.flatMap ('\n' :: ·)

theorem joinLines_eq_intercalate (ls : List (List Char)) : joinLines ls = ['\n'].intercalate ls := by
  induction ls with
  | nil => rfl
  | cons l ls ih =>
    cases ls with
    | nil => simp [joinLines, List.intercalate]
    | cons m ms => simp_all [joinLines, List.intercalate]

theorem joinLines_append_last (ls : List (List Char)) (l seg : List Char) :
    joinLines (ls ++ [l ++ seg]) = joinLines (ls ++ [l]) ++ seg := by
  cases ls <;> simp [joinLines]

theorem joinLines_append_empty {ls : List (List Char)} (nonempty : ls ≠ []) :
    joinLines (ls ++ [[]]) = joinLines ls ++ ['\n'] := by
  cases ls with
  | nil => contradiction
  | cons l ls => simp [joinLines]

theorem joinLines_set_last {ls : List (List Char)} (nonempty : ls ≠ []) (seg : List Char) :
    joinLines (ls.set (ls.length - 1) (ls.getD (ls.length - 1) [] ++ seg)) = joinLines ls ++ seg := by
  obtain ⟨init, last, rfl⟩ := (List.eq_nil_or_concat' ls).resolve_left nonempty
  simp [joinLines_append_last]

theorem joinLines_segments (buf : List Char) :
    joinLines ((segments buf).1 :: (segments buf).2) = buf := by
  induction buf with
  | nil => rfl
  | cons c cs ih =>
    by_cases nl : c = '\n' <;> simp_all [segments, joinLines]

theorem segments_printable {buf : List Char} (plain : ∀ c ∈ buf, isprint c ∨ c = '\n') :
    ∀ seg ∈ (segments buf).1 :: (segments buf).2, ∀ c ∈ seg, isprint c := by
  induction buf with
  | nil => simp [segments]
  | cons c cs ih =>
    have rest := ih fun x hx => plain x (List.mem_cons_of_mem c hx)
    by_cases nl : c = '\n'
    · simp only [segments, nl, if_true, List.mem_cons] at rest ⊢
      rintro seg (rfl | hseg)
      · simp
      · exact rest seg hseg
    · simp only [segments, nl, if_false, List.mem_cons] at rest ⊢
      rintro seg (rfl | hseg) x hx
      · rcases List.mem_cons.mp hx with rfl | hx
        · exact (plain x (List.mem_cons_self _ _)).resolve_right nl
        · exact rest _ (.inl rfl) x hx
      · exact rest seg (.inr hseg) x hx

theorem putAt_length (l : List Char) (c : Char) : putAt l l.length c = l ++ [c] := by
  simp [putAt]

theorem expand_at_end {c : Char} (l : List Char) (hc : isprint c) :
    expand (m := Id) putAt (l, l.length) c = (l ++ [c], (l ++ [c]).length) := by
  unfold expand
  split
  iterate 4 exact absurd hc (by decide)
  simp [hc, putAt_length]

theorem interp_at_end (l : List Char) {seg : List Char} (printable : ∀ c ∈ seg, isprint c) :
    interp l l.length seg = (l ++ seg, (l ++ seg).length) := by
  induction seg generalizing l with
  | nil => simp [interp]
  | cons c seg ih =>
    rw [interp_cons, expand_at_end l (printable c (List.mem_cons_self _ _)),
      ih _ fun x hx => printable x (List.mem_cons_of_mem c hx)]
    simp

theorem trimLine_length (l : List Char) : trimLine l l.length = l := by
  rw [trimLine, List.take_of_length_le (by omega), List.drop_of_length_le (by omega)]
  simp [rtrim]

theorem feedLine_at_end (l : List Char) {seg : List Char} (printable : ∀ c ∈ seg, isprint c) :
    feedLine l l.length seg = (l ++ seg, (l ++ seg).length) := by
  simp only [feedLine, interp_at_end l printable, trimLine_length]

/-- The scroller holds `text` with the caret at its end: it is well formed, its
buffer joined by newlines is `text`, and the caret stands after the last byte of
the last line, where the next output lands. -/
structure Transcript (scr : Scroller) (text : List Char) extends Wf scr : Prop where
  joined : joinLines scr.buffer = text
  atEnd : scr.current.pos = scr.lastLine.length

section Transcript

variable {scr : Scroller} {text : List Char}

theorem Transcript.scrNew (height width : Nat) : Transcript (scrNew height width) [] where
  toWf := Wf.scrNew height width
  joined := rfl
  atEnd := rfl

theorem Transcript.of_view {scr' : Scroller} (t : Transcript scr text) (wf : Wf scr')
    (buffer : scr'.buffer = scr.buffer) (pos : scr'.current.pos = scr.current.pos) :
    Transcript scr' text where
  toWf := wf
  joined := buffer ▸ t.joined
  atEnd := by rw [pos, t.atEnd]; simp only [Scroller.lastLine, Scroller.line, buffer]

theorem Transcript.feed {seg : List Char} (t : Transcript scr text) (printable : ∀ c ∈ seg, isprint c) :
    Transcript (scr.feed seg) (text ++ seg) where
  toWf := t.toWf.feed seg
  joined := by
    rw [← t.joined, ← joinLines_set_last t.nonempty]
    simp only [Scroller.feed, t.atEnd, feedLine_at_end _ printable]
    rfl
  atEnd := by
    rw [Scroller.feed_pos, Scroller.feed_lastLine _ t.nonempty, t.atEnd, feedLine_at_end _ printable]

theorem Transcript.newline (t : Transcript scr text) : Transcript scr.newline (text ++ ['\n']) where
  toWf := t.toWf.newline
  joined := by rw [← t.joined, ← joinLines_append_empty t.nonempty]; rfl
  atEnd := by simp [Scroller.newline, Scroller.lastLine, Scroller.line]

theorem Transcript.feedFirst {seg : List Char} (t : Transcript scr text)
    (printable : ∀ c ∈ seg, isprint c) : Transcript (scr.feedFirst seg) (text ++ seg) := by
  unfold Scroller.feedFirst
  split
  · exact t.feed printable
  · rw [List.eq_nil_of_length_eq_zero (by omega : seg.length = 0), List.append_nil]
    exact t

theorem Transcript.lines {rest : List (List Char)} (t : Transcript scr text)
    (printable : ∀ seg ∈ rest, ∀ c ∈ seg, isprint c) :
    Transcript (rest.foldl (fun s seg => s.newline.feed seg) scr) (text ++ rest.flatMap ('\n' :: ·)) := by
  induction rest generalizing scr text with
  | nil => simpa using t
  | cons seg rest ih =>
    have next := t.newline.feed (printable seg (List.mem_cons_self _ _))
    simpa using ih next fun s hs => printable s (List.mem_cons_of_mem _ hs)

theorem Transcript.addText {buf : List Char} (t : Transcript scr text)
    (plain : ∀ c ∈ buf, isprint c ∨ c = '\n') : Transcript (scr.addText buf) (text ++ buf) := by
  have printable := segments_printable plain
  have whole : (segments buf).1 ++ (segments buf).2.flatMap ('\n' :: ·) = buf := joinLines_segments buf
  have added := (t.feedFirst (printable _ (List.mem_cons_self _ _))).lines
    fun s hs => printable s (List.mem_cons_of_mem _ hs)
  rwa [List.append_assoc, whole] at added

/-- The bytes an operation writes into the buffer: `scr_add`'s input, nothing for
the others. -/
def Op.output : Op → List Char
  | .scrAdd buf => buf
  | _ => []

theorem Transcript.applyOp (op : Op) (t : Transcript scr text)
    (plain : ∀ c ∈ op.output, isprint c ∨ c = '\n') :
    ∃ scr', applyOp scr op = some scr' ∧ Transcript scr' (text ++ op.output) := by
  cases op
  case scrAdd buf =>
    exact ⟨_, scrAdd_eq buf t.toWf, (t.addText plain).of_view (Inv.scrEnd (t.toWf.addText buf)).toWf rfl rfl⟩
  all_goals simp only [Op.output, List.append_nil]
  · exact ⟨_, rfl, t.of_view (t.toWf.scrUp _) rfl (loop_pos upStep_pos _ _)⟩
  · exact ⟨_, rfl, t.of_view (t.toWf.scrDown _) rfl (loop_pos downStep_pos _ _)⟩
  · exact ⟨_, rfl, t.of_view (Inv.scrHome t.toWf).toWf rfl rfl⟩
  · exact ⟨_, rfl, t.of_view (Inv.scrEnd t.toWf).toWf rfl rfl⟩
  · exact ⟨_, rfl, t.of_view (t.toWf.scrRefresh _) rfl rfl⟩
  · exact ⟨_, rfl, t.of_view { t.toWf with } rfl rfl⟩

theorem Transcript.run (ops : List Op) (t : Transcript scr text)
    (plain : ∀ op ∈ ops, ∀ c ∈ op.output, isprint c ∨ c = '\n') :
    ∃ scr', ops.foldlM Cgdb.applyOp scr = some scr' ∧ Transcript scr' (text ++ ops.flatMap Op.output) := by
  induction ops generalizing scr text with
  | nil => exact ⟨scr, rfl, by simpa using t⟩
  | cons op ops ih =>
    obtain ⟨next, step, t'⟩ := t.applyOp op (plain op (List.mem_cons_self _ _))
    obtain ⟨last, run, t''⟩ := ih t' fun o ho => plain o (List.mem_cons_of_mem _ ho)
    refine ⟨last, ?_, by simpa using t''⟩
    rw [List.foldlM_cons, step]
    exact run

end Transcript

theorem expand_print {c : Char} (l : List Char) (i : Nat) (hc : isprint c) :
    expand (m := Id) putAt (l, i) c = (putAt l i c, i + 1) := by
  unfold expand
  split
  iterate 4 exact absurd hc (by decide)
  simp [hc]

theorem interp_overwrite {t : List Char} (printable : ∀ c ∈ t, isprint c) :
    ∀ {l : List Char} {i : Nat}, i ≤ l.length →
      interp l i t = (l.take i ++ t ++ l.drop (i + t.length), i + t.length) := by
  induction t with
  | nil => intro l i _; simp [interp, List.take_append_drop]
  | cons c t ih =>
    intro l i hi
    have written : (putAt l i c).take (i + 1) = l.take i ++ [c] := by
      simp [putAt, List.take_append_eq_append_take, hi]
    rw [interp_cons, expand_print l i (printable c (List.mem_cons_self _ _)),
      ih (fun x hx => printable x (List.mem_cons_of_mem c hx)) (by rw [length_putAt _ hi]; omega), written]
    simp [putAt, List.drop_append_eq_append_drop, hi, Nat.add_assoc, Nat.add_comm 1]

theorem segments_of_no_newline {buf : List Char} (single : '\n' ∉ buf) : segments buf = (buf, []) := by
  induction buf with
  | nil => rfl
  | cons c cs ih =>
    rw [List.mem_cons, not_or] at single
    simp [segments, Ne.symm single.1, ih single.2]

/-- A carriage return rewrites the last line from its start: on every reachable
scroller, `scr_add` of `'\r'` and printable bytes writes them over the first
bytes of the last line, keeps what lay beyond them, drops the blanks that end up
past the caret, and leaves the caret after the bytes written. -/
theorem scrAdd_carriage_return {scr : Scroller} (reach : Reachable scr) {t : List Char}
    (printable : ∀ c ∈ t, isprint c) :
    ∃ scr', scrAdd scr ('\r' :: t) = some scr' ∧
      scr'.lastLine = trimLine (t ++ scr.lastLine.drop t.length) t.length ∧ scr'.current.pos = t.length := by
  have wf := reachable_wf reach
  have single : '\n' ∉ '\r' :: t := fun mem => by
    rcases List.mem_cons.mp mem with eq | mem
    · exact absurd eq (by decide)
    · exact absurd (printable _ mem) (by decide)
  have line : interp scr.lastLine scr.current.pos ('\r' :: t) = (t ++ scr.lastLine.drop t.length, t.length) := by
    rw [interp_cons, show expand (m := Id) putAt (scr.lastLine, scr.current.pos) '\r' = (scr.lastLine, 0) from rfl,
      interp_overwrite printable (Nat.zero_le _)]
    simp
  have added : scr.addText ('\r' :: t) = scr.feed ('\r' :: t) := by
    simp only [Scroller.addText, segments_of_no_newline single, List.foldl_nil, Scroller.feedFirst, List.length_cons,
      Nat.succ_pos, if_true]
  refine ⟨_, scrAdd_eq _ wf, ?_, ?_⟩
  · rw [show (scrEnd (scr.addText ('\r' :: t))).lastLine = (scr.addText ('\r' :: t)).lastLine from rfl, added,
      Scroller.feed_lastLine _ wf.nonempty, feedLine, line]
  · rw [show (scrEnd (scr.addText ('\r' :: t))).current.pos = (scr.addText ('\r' :: t)).current.pos from rfl, added,
      Scroller.feed_pos, feedLine, line]

theorem scrAdd_carriage_return_progress :
    Reachable ⟨["hello".toList], ⟨0, 0, 5⟩, 1, 10⟩ ∧ (∀ c ∈ "HE".toList, isprint c) ∧
      (∃ scr', scrAdd ⟨["hello".toList], ⟨0, 0, 5⟩, 1, 10⟩ ('\r' :: "HE".toList) = some scr' ∧
        scr'.lastLine = trimLine ("HE".toList ++ "hello".toList.drop 2) 2 ∧ scr'.current.pos = 2) ∧
      trimLine ("HE".toList ++ "hello".toList.drop 2) 2 = "HEllo".toList := by
  have add : scrAdd (scrNew 1 10) "hello".toList = some ⟨["hello".toList], ⟨0, 0, 5⟩, 1, 10⟩ := by decide
  have reach : Reachable ⟨["hello".toList], ⟨0, 0, 5⟩, 1, 10⟩ := .step (.scrAdd "hello".toList) (.scrNew 1 10) add
  exact ⟨reach, by decide, scrAdd_carriage_return reach (by decide), by decide⟩

end Cgdb
