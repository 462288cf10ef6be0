import Cgdb.Scroller.Buffer

/-! The format sequences `[n;nm` the debugger leaves in a line, as `get_line_height`
and the segment loop of `scr_refresh` find them: `get_line_height` byte by byte,
the renderer segment by segment, cutting the line before each `[`. Pointers into
a line are its suffixes, and the end of the list is the terminating `'\0'`.
`lineHeight_eq` shows the two scanners agree on every line. -/

namespace Cgdb

def isdigit (c : Char) : Bool := '0' ≤ c && c ≤ '9'

def digitsValue (ds : List Char) : Nat := ds.foldl (fun n d => 10 * n + (d.toNat - '0'.toNat)) 0

/-- `LONG_MIN` and `LONG_MAX` of an LP64 target. -/
def longMin : Int := -2 ^ 63
def longMax : Int := 2 ^ 63 - 1

/-- The optional sign `strtol` accepts. -/
def strtolSign : List Char → Bool × List Char
  | '-' :: u => (true, u)
  | '+' :: u => (false, u)
  | u => (false, u)

/-- `strtol(nptr, &endptr, 10)`: leading white space, an optional sign, then
decimal digits; without a digit nothing is consumed. Out-of-range values clamp. -/
def strtol (s : List Char) : Int × List Char :=
  let sign := strtolSign (s.dropWhile isspace)
  let ds := sign.2.takeWhile isdigit
  if ds = [] then (0, s)
  else (max longMin (min longMax (if sign.1 then -(digitsValue ds : Int) else digitsValue ds)),
    sign.2.drop ds.length)

/-- A `long` stored into an `int`: reduced modulo `2^32`. -/
def toCInt (v : Int) : Int := (v + 2 ^ 31) % 2 ^ 32 - 2 ^ 31

/-- `code = strtol(p, &p, 10); if (*p == ';') p++;` -/
def codeStep (s : List Char) : Int × List Char :=
  match strtol s with
  | (v, ';' :: rest) => (v, rest)
  | r => r

/-- `scr_refresh`'s `for(i=0; *current_char && i<2; ++i)`, from just after the
`[`: the two color codes and where the scan stopped. -/
def refreshCodes (s : List Char) : (Int × Int) × List Char :=
  match s with
  | [] => ((0, 0), [])
  | _ =>
    match codeStep s with
    | (a, []) => ((toCInt a, 0), [])
    | (a, s1) => ((toCInt a, toCInt (codeStep s1).1), (codeStep s1).2)

/-- `get_line_height`'s copy of that loop: its guard tests the `[` itself, so
both passes always run. -/
def heightCodes (s : List Char) : List Char := (codeStep (codeStep s).2).2

/-- The scan of `get_line_height`: the cells it counts, `fuel` passes at most. -/
def cellScan : Nat → List Char → Int
  | 0, _ => 0
  | _ + 1, [] => 0
  | fuel + 1, '[' :: s =>
    match heightCodes s with
    | 'm' :: rest => cellScan fuel rest
    | _ => 1 + cellScan fuel s
  | fuel + 1, _ :: s => 1 + cellScan fuel s

/-- `while((length -= width) > 0) ++height;`, `fuel` passes at most. -/
def heightLoop (width : Int) : Nat → Int → Int → Int
  | 0, _, height => height
  | fuel + 1, length, height =>
    if length - width > 0 then heightLoop width fuel (length - width) (height + 1) else height

/-- `get_line_height(line, width)`; every pass of either loop shortens what is
left, so the line's length bounds both. -/
def getLineHeight (line : List Char) (width : Int) : Int :=
  heightLoop width (cellScan line.length line).toNat (cellScan line.length line) 1

/-- What one pass of the segment loop prints: the text and its `attributes`,
`foreground` and `background`. -/
structure Segment where
  text : List Char
  attributes : Int
  foreground : Int
  background : Int
  deriving DecidableEq, Repr

/-- `A_BOLD` of ncurses. -/
def aBold : Int := 2 ^ 21

/-- The `if` chain applying one color code. -/
def applyCode (seg : Segment) (code : Int) : Segment :=
  if code ≤ 8 then { seg with attributes := seg.attributes.lor code }
  else if 30 ≤ code ∧ code ≤ 37 then { seg with foreground := code % 10 }
  else if 40 ≤ code ∧ code ≤ 47 then { seg with background := code % 10 }
  else if 90 ≤ code ∧ code ≤ 97 then
    { seg with foreground := code % 10, attributes := seg.attributes.lor aBold }
  else if 100 ≤ code ∧ code ≤ 107 then
    { seg with background := code % 10, attributes := seg.attributes.lor aBold }
  else seg

/-- The body of `while(segment_start < line_end)` in `scr_refresh`, `fuel`
passes at most: each segment runs from `segment_start` to the next `[` after it. -/
def segmentLoop : Nat → List Char → List Segment
  | 0, _ => []
  | _ + 1, [] => []
  | fuel + 1, c :: s =>
    let segmentEnd := s.dropWhile (· != '[')
    let plain : Segment := ⟨c :: s, 0, -1, -1⟩
    let seg := if c = '[' then
        match refreshCodes s with
        | ((a, b), 'm' :: rest) => applyCode (applyCode { plain with text := rest } a) b
        | _ => plain
      else plain
    { seg with text := seg.text.take (seg.text.length - segmentEnd.length) } ::
      segmentLoop fuel segmentEnd

/-- The segments `scr_refresh` prints for one line. -/
def drawLine (line : List Char) : List Segment := segmentLoop line.length line

/-- `total_length` after the segment loop. -/
def printedLength (line : List Char) : Nat := ((drawLine line).map (·.text.length)).sum

/-- `t` is what is left of `s` after a scan that read no `[`. -/
def Consumes (s t : List Char) : Prop := ∃ e, s = e ++ t ∧ '[' ∉ e

theorem Consumes.refl (s : List Char) : Consumes s s := ⟨[], rfl, List.not_mem_nil _⟩

theorem Consumes.trans {s t u : List Char} (h₁ : Consumes s t) (h₂ : Consumes t u) :
    Consumes s u := by
  obtain ⟨e₁, rfl, n₁⟩ := h₁
  obtain ⟨e₂, rfl, n₂⟩ := h₂
  exact ⟨e₁ ++ e₂, by simp, by simp [n₁, n₂]⟩

theorem Consumes.length_le {s t : List Char} (h : Consumes s t) : t.length ≤ s.length := by
  obtain ⟨e, rfl, -⟩ := h; simp

theorem consumes_dropWhile (p : Char → Bool) (hp : p '[' = false) (s : List Char) :
    Consumes s (s.dropWhile p) := by
  induction s with
  | nil => exact Consumes.refl _
  | cons c s ih =>
    rw [List.dropWhile_cons]
    split
    · rename_i h
      have hc : c ≠ '[' := fun e => by rw [e, hp] at h; exact Bool.false_ne_true h
      obtain ⟨e, he, ne⟩ := ih
      exact ⟨c :: e, by rw [List.cons_append, ← he], by simp [hc.symm, ne]⟩
    · exact Consumes.refl _

theorem drop_takeWhile_length (p : Char → Bool) (u : List Char) :
    u.drop (u.takeWhile p).length = u.dropWhile p := by
  calc u.drop (u.takeWhile p).length
      = (u.takeWhile p ++ u.dropWhile p).drop (u.takeWhile p).length := by
        rw [List.takeWhile_append_dropWhile]
    _ = u.dropWhile p := List.drop_left ..

theorem consumes_sign (t : List Char) : Consumes t (strtolSign t).2 := by
  unfold strtolSign
  split
  · exact ⟨['-'], rfl, by decide⟩
  · exact ⟨['+'], rfl, by decide⟩
  · exact Consumes.refl _

theorem consumes_strtol (s : List Char) : Consumes s (strtol s).2 := by
  unfold strtol
  dsimp only
  split
  · exact Consumes.refl _
  · rw [drop_takeWhile_length]
    exact ((consumes_dropWhile isspace rfl s).trans (consumes_sign _)).trans
      (consumes_dropWhile isdigit rfl _)

theorem consumes_codeStep (s : List Char) : Consumes s (codeStep s).2 := by
  unfold codeStep
  split
  · rename_i v rest h
    exact (h ▸ consumes_strtol s).trans ⟨[';'], rfl, by decide⟩
  · exact consumes_strtol s

theorem consumes_heightCodes (s : List Char) : Consumes s (heightCodes s) :=
  (consumes_codeStep s).trans (consumes_codeStep _)

theorem refreshCodes_snd (s : List Char) : (refreshCodes s).2 = heightCodes s := by
  unfold refreshCodes heightCodes
  split
  · rfl
  · split
    · rename_i h; rw [h]; rfl
    · rename_i h; rw [h]

theorem cellScan_nil (fuel : Nat) : cellScan fuel [] = 0 := by cases fuel <;> rfl

theorem cellScan_fuel : ∀ (f₁ f₂ : Nat) (s : List Char), s.length ≤ f₁ → s.length ≤ f₂ →
    cellScan f₁ s = cellScan f₂ s
  | _, _, [], _, _ => by rw [cellScan_nil, cellScan_nil]
  | 0, _, _ :: _, h, _ => absurd h (by simp)
  | _, 0, _ :: _, _, h => absurd h (by simp)
  | f₁ + 1, f₂ + 1, c :: s, h₁, h₂ => by
    simp only [List.length_cons, Nat.add_le_add_iff_right] at h₁ h₂
    by_cases hc : c = '['
    · subst hc
      simp only [cellScan]
      split
      · rename_i rest h
        have := (h ▸ consumes_heightCodes s).length_le
        simp only [List.length_cons] at this
        exact cellScan_fuel f₁ f₂ rest (by omega) (by omega)
      · rw [cellScan_fuel f₁ f₂ s h₁ h₂]
    · simp only [cellScan, hc, cellScan_fuel f₁ f₂ s h₁ h₂]

theorem cellScan_plain {q : List Char} (t : List Char) (plain : '[' ∉ q) {fuel : Nat}
    (h : q.length + t.length ≤ fuel) :
    cellScan fuel (q ++ t) = q.length + cellScan (fuel - q.length) t := by
  induction q generalizing fuel with
  | nil => simp
  | cons x q ih =>
    obtain ⟨f, rfl⟩ : ∃ f, fuel = f + 1 := ⟨fuel - 1, by simp at h; omega⟩
    have hx : x ≠ '[' := fun e => plain (e ▸ List.mem_cons_self _ _)
    simp only [List.length_cons] at h
    rw [List.cons_append, cellScan, ih (fun m => plain (List.mem_cons_of_mem _ m)) (by omega)]
    · simp only [List.length_cons, Nat.add_sub_add_right]; omega
    · exact hx

theorem not_bracket_mem_takeWhile (s : List Char) : '[' ∉ s.takeWhile (· != '[') := fun m => by
  simpa using List.mem_takeWhile_imp m

theorem cellScan_run {s : List Char} {fuel : Nat} (h : s.length ≤ fuel) :
    cellScan fuel s = (s.takeWhile (· != '[')).length + cellScan fuel (s.dropWhile (· != '[')) := by
  have split := List.takeWhile_append_dropWhile (· != '[') s
  have hlen := congrArg List.length split
  simp only [List.length_append] at hlen
  conv_lhs => rw [← split]
  rw [cellScan_plain _ (not_bracket_mem_takeWhile s) (by omega),
    cellScan_fuel _ fuel _ (by omega) (by omega)]

theorem applyCode_text (seg : Segment) (code : Int) : (applyCode seg code).text = seg.text := by
  unfold applyCode; split_ifs <;> rfl

theorem segmentLoop_nil (fuel : Nat) : segmentLoop fuel [] = [] := by cases fuel <;> rfl

theorem length_cut (text segmentEnd : List Char) (h : segmentEnd.length ≤ text.length) :
    (text.take (text.length - segmentEnd.length)).length = text.length - segmentEnd.length := by
  rw [List.length_take]; omega

theorem dropWhile_escape {s rest : List Char} (codes : heightCodes s = 'm' :: rest) :
    s.dropWhile (· != '[') = rest.dropWhile (· != '[') := by
  obtain ⟨e, he, ne⟩ := codes ▸ consumes_heightCodes s
  rw [he, List.dropWhile_append_of_pos (fun x hx => by simpa using ne_of_mem_of_not_mem hx ne)]
  rfl

theorem cellScan_escape {fuel : Nat} {s rest : List Char} (codes : heightCodes s = 'm' :: rest)
    (h : s.length ≤ fuel) :
    cellScan (fuel + 1) ('[' :: s) =
      (rest.takeWhile (· != '[')).length + cellScan fuel (s.dropWhile (· != '[')) := by
  obtain ⟨e, he, -⟩ := codes ▸ consumes_heightCodes s
  have short : rest.length ≤ fuel := by rw [he] at h; simp at h; omega
  simp only [cellScan, codes]
  rw [cellScan_run short, dropWhile_escape codes]

theorem printed_escape {fuel : Nat} {s rest : List Char} (codes : heightCodes s = 'm' :: rest) :
    ((segmentLoop (fuel + 1) ('[' :: s)).map (·.text.length)).sum =
      (rest.takeWhile (· != '[')).length +
        ((segmentLoop fuel (s.dropWhile (· != '['))).map (·.text.length)).sum := by
  have stops : refreshCodes s = ((refreshCodes s).1, 'm' :: rest) := by
    rw [← codes, ← refreshCodes_snd s]
  have split := congrArg List.length (List.takeWhile_append_dropWhile (· != '[') rest)
  simp only [List.length_append] at split
  simp only [segmentLoop, if_pos rfl]
  rw [stops]
  simp only [dropWhile_escape codes, ↓reduceIte, applyCode_text, List.map_cons, List.sum_cons,
    length_cut rest (rest.dropWhile (· != '[')) (by omega)]
  omega

theorem cellScan_cell {fuel : Nat} {c : Char} {s : List Char}
    (plain : ¬(c = '[' ∧ ∃ rest, heightCodes s = 'm' :: rest)) :
    cellScan (fuel + 1) (c :: s) = 1 + cellScan fuel s := by
  by_cases bracket : c = '['
  · subst bracket
    simp only [cellScan]
    split
    · rename_i rest codes; exact absurd ⟨rfl, rest, codes⟩ plain
    · rfl
  · simp only [cellScan, bracket]

theorem printed_cell {fuel : Nat} {c : Char} {s : List Char}
    (plain : ¬(c = '[' ∧ ∃ rest, heightCodes s = 'm' :: rest)) :
    ((segmentLoop (fuel + 1) (c :: s)).map (·.text.length)).sum =
      1 + (s.takeWhile (· != '[')).length +
        ((segmentLoop fuel (s.dropWhile (· != '['))).map (·.text.length)).sum := by
  have split := congrArg List.length (List.takeWhile_append_dropWhile (· != '[') s)
  simp only [List.length_append] at split
  simp only [segmentLoop]
  split
  · split
    · rename_i a b rest stops
      have := refreshCodes_snd s
      rw [stops] at this
      exact absurd ⟨‹c = '['›, rest, this.symm⟩ plain
    · simp only [List.map_cons, List.sum_cons, List.length_take, List.length_cons]
      omega
  · simp only [List.map_cons, List.sum_cons, List.length_take, List.length_cons]
    omega

theorem cellScan_eq_printed : ∀ (fuel : Nat) (s : List Char), s.length ≤ fuel →
    cellScan fuel s = (((segmentLoop fuel s).map (·.text.length)).sum : Nat)
  | fuel, [], _ => by rw [cellScan_nil, segmentLoop_nil]; rfl
  | 0, _ :: _, h => absurd h (by simp)
  | f + 1, c :: s, h => by
    simp only [List.length_cons, Nat.add_le_add_iff_right] at h
    have ih := cellScan_eq_printed f (s.dropWhile (· != '['))
      (by have := (consumes_dropWhile (· != '[') rfl s).length_le; omega)
    by_cases escape : c = '[' ∧ ∃ rest, heightCodes s = 'm' :: rest
    · obtain ⟨rfl, rest, codes⟩ := escape
      rw [cellScan_escape codes h, printed_escape codes, ih]
      push_cast
      rfl
    · rw [cellScan_cell escape, printed_cell escape, cellScan_run h, ih]
      push_cast
      omega

theorem heightLoop_eq {width : Int} (hw : 1 ≤ width) : ∀ (fuel : Nat) (length height : Int),
    0 ≤ length → length.toNat ≤ fuel →
    heightLoop width fuel length height = height - 1 + max 1 ((length + width - 1) / width)
  | 0, length, height, h₀, hf => by
    have : length = 0 := by omega
    subst this
    rw [heightLoop, Int.ediv_eq_zero_of_lt (by omega) (by omega)]
    omega
  | fuel + 1, length, height, h₀, hf => by
    rw [heightLoop]
    split
    · rw [heightLoop_eq hw fuel _ _ (by omega) (by omega)]
      have hq : 1 ≤ (length - 1) / width := Int.le_ediv_of_mul_le (by omega) (by omega)
      have hsum : (length + width - 1) / width = (length - 1) / width + 1 := by
        rw [← Int.add_mul_ediv_right _ _ (by omega : width ≠ 0)]; congr 1; omega
      rw [show length - width + width - 1 = length - 1 by omega, hsum]
      omega
    · have hq : (length + width - 1) / width < 2 := Int.ediv_lt_of_lt_mul (by omega) (by omega)
      have hq₀ : 0 ≤ (length + width - 1) / width := Int.ediv_nonneg (by omega) (by omega)
      omega

/-- `get_line_height` is the number of rows the renderer's text fills: at least
one, else the printed length divided by the width, rounded up. -/
theorem lineHeight_eq (line : List Char) {width : Int} (hw : 1 ≤ width) :
    getLineHeight line width = max 1 ((printedLength line + width - 1) / width) := by
  rw [getLineHeight, cellScan_eq_printed _ _ (le_refl _), heightLoop_eq hw _ _ _ (by omega) (le_refl _)]
  simp [printedLength, drawLine]

theorem lineHeight_eq_format :
    (1 : Int) ≤ 4 ∧ getLineHeight "[31mhello[0m world".toList 4 =
      max 1 ((printedLength "[31mhello[0m world".toList + 4 - 1) / 4) :=
  ⟨by decide, lineHeight_eq _ (by decide)⟩

/-- Modelled from the spec: `s` is `[` D (`;` D)? `m`, each D a possibly empty
run of decimal digits. -/
def isFormatSequence : List Char → Bool
  | '[' :: t =>
    match t.dropWhile isdigit with
    | ['m'] => true
    | ';' :: u => u.dropWhile isdigit == ['m']
    | _ => false
  | _ => false

/-- `strtol` reads more than digits. White space, a sign, and a `;` after the
second code make `get_line_height` and `scr_refresh` take `[-1m`, `[ 1m` and
`[1;2;m` for format sequences, none of which the grammar admits. The code of
`[-1m` is `-1`, which the attribute branch ORs, every bit, into the attributes.
A code past `INT_MAX` wraps: `[4294967297m` applies code 1. -/
theorem format_sequence_beyond_grammar :
    (isFormatSequence "[-1m".toList = false ∧ heightCodes "-1m".toList = ['m'] ∧
      refreshCodes "-1mx".toList = ((-1, 0), "mx".toList) ∧
      ∀ seg, (applyCode seg (-1)).attributes = seg.attributes.lor (-1)) ∧
    (isFormatSequence "[ 1m".toList = false ∧ heightCodes " 1m".toList = ['m']) ∧
    (isFormatSequence "[1;2;m".toList = false ∧ heightCodes "1;2;m".toList = ['m']) ∧
    (isFormatSequence "[4294967297m".toList = true ∧
      refreshCodes "4294967297mx".toList = ((1, 0), "mx".toList)) := by
  refine ⟨⟨by decide, by decide, by decide, fun seg => ?_⟩, by decide, by decide, by decide⟩
  simp [applyCode]

theorem isspace_of_isdigit {c : Char} (digit : isdigit c = true) : isspace c = false := by
  simp only [isdigit, Bool.and_eq_true, decide_eq_true_eq] at digit
  have low : 48 ≤ c.toNat := digit.1
  have high : c.toNat ≤ 57 := digit.2
  simp only [isspace, Bool.or_eq_false_iff, beq_eq_false_iff_ne, Bool.and_eq_false_iff, decide_eq_false_iff_not]
  omega

theorem strtol_digits {ds : List Char} (digits : ∀ d ∈ ds, isdigit d = true) {c : Char}
    (stop : isdigit c = false ∧ isspace c = false ∧ c ≠ '-' ∧ c ≠ '+') (rest : List Char) :
    strtol (ds ++ c :: rest) = (min longMax (digitsValue ds), c :: rest) := by
  have lead : ∃ h t, ds ++ c :: rest = h :: t ∧ isspace h = false ∧ h ≠ '-' ∧ h ≠ '+' := by
    cases ds with
    | nil => exact ⟨c, rest, rfl, stop.2⟩
    | cons d ds =>
      have digit := digits d (List.mem_cons_self _ _)
      refine ⟨d, _, rfl, isspace_of_isdigit digit, ?_, ?_⟩ <;> rintro rfl <;> simp [isdigit] at digit
  obtain ⟨h, t, split, blank, minus, plus⟩ := lead
  have unsigned : strtolSign ((ds ++ c :: rest).dropWhile isspace) = (false, ds ++ c :: rest) := by
    rw [split, List.dropWhile_cons_of_neg (by simp [blank])]
    rw [strtolSign] <;> simp [minus, plus]
  have run : (ds ++ c :: rest).takeWhile isdigit = ds := by
    rw [List.takeWhile_append_of_pos digits, List.takeWhile_cons_of_neg (by simp [stop.1]), List.append_nil]
  unfold strtol
  simp only [unsigned, run, Bool.false_eq_true, if_false]
  split_ifs with empty
  · subst empty
    rfl
  · have floor : longMin ≤ min longMax (digitsValue ds : Int) :=
      le_min (by norm_num [longMin, longMax]) (by unfold longMin; linarith [Int.natCast_nonneg (digitsValue ds)])
    rw [max_eq_right floor, List.drop_left]
theorem codeStep_digits_semicolon {ds : List Char} (digits : ∀ d ∈ ds, isdigit d = true) (rest : List Char) :
    codeStep (ds ++ ';' :: rest) = (min longMax (digitsValue ds), rest) := by
  rw [codeStep, strtol_digits digits (by decide) rest]
  rfl

theorem codeStep_digits_m {ds : List Char} (digits : ∀ d ∈ ds, isdigit d = true) (rest : List Char) :
    codeStep (ds ++ 'm' :: rest) = (min longMax (digitsValue ds), 'm' :: rest) := by
  rw [codeStep, strtol_digits digits (by decide) rest]
  rfl

theorem refreshCodes_of_codeStep {s s₁ : List Char} {a : Int} (nonempty : s ≠ []) (first : codeStep s = (a, s₁))
    (more : s₁ ≠ []) : refreshCodes s = ((toCInt a, toCInt (codeStep s₁).1), (codeStep s₁).2) := by
  obtain ⟨x, xs, rfl⟩ := List.exists_cons_of_ne_nil more
  obtain ⟨y, ys, rfl⟩ := List.exists_cons_of_ne_nil nonempty
  simp only [refreshCodes, first]

/-- Every sequence of the grammar is a format sequence to both scanners: after
its `[`, `[` D `m` and `[` D `;` D `m` leave both scans on the `m`, and
`scr_refresh` applies the decimal values of the digit runs, each clamped to a
`long` and stored into an `int`, and `0` for a second code that is not there. -/
theorem grammar_sequences_recognised {d₁ d₂ : List Char} (digits₁ : ∀ d ∈ d₁, isdigit d = true)
    (digits₂ : ∀ d ∈ d₂, isdigit d = true) (rest : List Char) :
    (heightCodes (d₁ ++ 'm' :: rest) = 'm' :: rest ∧
      refreshCodes (d₁ ++ 'm' :: rest) = ((toCInt (min longMax (digitsValue d₁)), 0), 'm' :: rest)) ∧
    (heightCodes (d₁ ++ ';' :: (d₂ ++ 'm' :: rest)) = 'm' :: rest ∧
      refreshCodes (d₁ ++ ';' :: (d₂ ++ 'm' :: rest)) =
        ((toCInt (min longMax (digitsValue d₁)), toCInt (min longMax (digitsValue d₂))), 'm' :: rest)) := by
  have atM : codeStep ('m' :: rest) = (0, 'm' :: rest) := @codeStep_digits_m [] nofun rest
  have one := codeStep_digits_m digits₁ rest
  have two := codeStep_digits_semicolon digits₁ (d₂ ++ 'm' :: rest)
  have second := codeStep_digits_m digits₂ rest
  refine ⟨⟨?_, ?_⟩, ?_, ?_⟩
  · rw [heightCodes, one, atM]
  · rw [refreshCodes_of_codeStep (by simp) one (List.cons_ne_nil _ _), atM]
    rfl
  · rw [heightCodes, two, second]
  · rw [refreshCodes_of_codeStep (by simp) two (by simp), second]

theorem grammar_sequences_recognised_bold :
    (∀ d ∈ "31".toList, isdigit d = true) ∧ (∀ d ∈ "1".toList, isdigit d = true) ∧
      refreshCodes ("31".toList ++ ';' :: ("1".toList ++ 'm' :: "hello".toList)) =
        ((toCInt (min longMax (digitsValue "31".toList)), toCInt (min longMax (digitsValue "1".toList))),
          'm' :: "hello".toList) :=
  ⟨by decide, by decide, ((grammar_sequences_recognised (by decide) (by decide) "hello".toList).2).2⟩

end Cgdb
