import ExprLang.Proofs.Source.Lines

/-!
# Underlines

The header of a rendered report and the lines below it agree (`Source.render_shows`): the first line shown is the line
where the span starts in the header, the last one is the line where it ends there, and the marks begin and end in the
columns of the header.
-/

namespace ExprLang

/-- A row of what is printed below a header. -/
inductive Row where
  /-- A line with marks below it.  The first mark stands below the character after `left`. -/
  | line (left right : List Char) (marks : Nat)
  /-- Lines that are left out. -/
  | dots

/-- A row as it is printed: below a line, a tab stands for a tab and a space for another character up to the marks. -/
def Row.render : Row → String
  | line left right marks =>
    String.ofList (left ++ right ++ '\n' :: (left.map (fun c => if c = '\t' then '\t' else ' ')
      ++ List.replicate marks '~') ++ ['\n'])
  | dots => "...\n"

/-- What is shown between the lines with the numbers `first` and `last`. -/
inductive ShowsBetween (lines : List (List Char)) (first last : Nat) : List Row → Prop
  | nothing (hlast : last = first + 1) : ShowsBetween lines first last []
  | line {middle} (hlast : last = first + 2) (hmiddle : lines[first]? = some middle) :
      ShowsBetween lines first last [.line [] middle (max 1 middle.length)]
  | dots (hlast : first + 3 ≤ last) : ShowsBetween lines first last [.dots]

/-- What is shown of the part `marked` of a text, which has its first character at `start` and its last one at
`stop`. -/
inductive Shows (lines : List (List Char)) (marked : List Char) (start stop : Location) : List Row → Prop
  | oneLine {left right} (hfirst : lines[start.line - 1]? = some (left ++ right))
      (hcolumn : start.column = left.length + 1) (hlast : stop.line = start.line) :
      Shows lines marked start stop [.line left right (max 1 (marked.takeWhile (· ≠ '\n')).length)]
  | severalLines {left right last between} (hfirst : lines[start.line - 1]? = some (left ++ right))
      (hcolumn : start.column = left.length + 1) (hbetween : ShowsBetween lines start.line stop.line between)
      (hlast : lines[stop.line - 1]? = some last) :
      Shows lines marked start stop
        (.line left right (max 1 right.length) :: between ++ [.line [] last (max 1 (min stop.column last.length))])

/-! ### The part of a text in a span -/

private theorem IsBoundary.eq_of_lt {text : List Char} {offset : Nat} (h : IsBoundary text offset)
    (before rest : List Char) {c : Char} (htext : text = before ++ c :: rest) (hstart : byteLength before ≤ offset)
    (hstop : offset < byteLength before + c.utf8Size) : offset = byteLength before := by
  obtain ⟨front, back, hfront, rfl⟩ := h
  rcases List.append_eq_append_iff.1 (hfront.symm.trans htext) with ⟨more, rfl, -⟩ | ⟨more, rfl, hmore⟩
  · rw [byteLength_append] at hstart ⊢
    omega
  · cases more with
    | nil => rw [List.append_nil]
    | cons d more =>
      obtain ⟨rfl, -⟩ := List.cons.inj hmore
      rw [byteLength_append, byteLength_cons] at hstop
      omega

namespace Source

variable {source : Source} {span : Span} {above left right below before marked after front part rest : List Char}

/-- Whether a span stands for the part `marked` of a text, of which the last character is one byte long. -/
structure Marks (source : Source) (span : Span) (before marked after : List Char) : Prop where
  text_eq : source.text = before ++ marked ++ after
  start_eq : span.start = byteLength before
  stop_eq : span.stop = byteLength before + byteLength marked
  lastOffset_eq : lastOffset span = byteLength (before ++ marked.dropLast)

private theorem exists_marks (h : span.IsIn source.text) (hbyte : span.EndsInByte source.text) :
    ∃ before marked after, Marks source span before marked after := by
  obtain ⟨before, rest, htext, hstart⟩ := h.start
  obtain ⟨upTo, after, hupTo, hstop⟩ := h.stop
  have hle := h.start_le_stop
  obtain ⟨marked, rfl⟩ : ∃ marked, upTo = before ++ marked := by
    rcases List.append_eq_append_iff.1 (htext.symm.trans hupTo) with ⟨marked, hmarked, -⟩ | ⟨marked, rfl, -⟩
    · exact ⟨marked, hmarked⟩
    · rw [byteLength_append] at hstart
      exact ⟨[], by rw [eq_nil_of_byteLength_eq_zero (show byteLength marked = 0 by omega)]; simp⟩
  rw [byteLength_append] at hstop
  refine ⟨before, marked, after, hupTo, hstart.symm, hstop.symm, ?_⟩
  induction marked using List.reverseRecOn with
  | nil =>
    rw [byteLength_nil] at hstop
    rw [lastOffset, Nat.max_eq_right (by omega), List.dropLast_nil, List.append_nil, hstart]
  | append_singleton marked c _ =>
    have hsize := c.utf8Size_pos
    rw [byteLength_append, byteLength_cons, byteLength_nil] at hstop
    have hlast : IsBoundary source.text (span.stop - 1) := hbyte.resolve_left (by omega)
    have hoffset := hlast.eq_of_lt (before ++ marked) after (c := c) (by rw [hupTo]; simp)
    rw [List.dropLast_concat, lastOffset, Nat.max_eq_left (by omega), hoffset]
    · rw [byteLength_append]
      omega
    · rw [byteLength_append]
      omega

private theorem Marks.endLocation_eq (h : Marks source span before marked after) :
    source.endLocation span = .ok (.after (before ++ marked.dropLast)) := by
  have hsplit : splitBytes? span.stop source.text = some ((before ++ marked).reverse, after) :=
    splitBytes?_eq_some_iff.2 ⟨by rw [List.reverse_reverse, h.text_eq],
      by rw [byteLength_reverse, byteLength_append, h.stop_eq]⟩
  have hstart := h.start_eq
  have hstop := h.stop_eq
  have htext := h.text_eq
  rw [endLocation, hsplit]
  cases marked using List.reverseRecOn with
  | nil =>
    have hempty : span.isEmpty = true := by
      rw [byteLength_nil] at hstop
      rw [Span.isEmpty, beq_iff_eq]
      omega
    have hlocation : source.location span.start = .ok (.after before) := by
      rw [hstart, location_eq before after (by rw [htext]; simp)]
    rw [List.dropLast_nil, List.append_nil]
    cases before.reverse with
    | nil => exact hlocation
    | cons c front =>
      show (if span.isEmpty = true then _ else _) = _
      rw [if_pos hempty, hlocation]
  | append_singleton marked c =>
    have hsize := c.utf8Size_pos
    rw [byteLength_append, byteLength_cons, byteLength_nil] at hstop
    have hlast : span.stop - c.utf8Size = byteLength (before ++ marked) := by
      rw [byteLength_append]
      omega
    have hempty : ¬span.isEmpty = true := by
      rw [Span.isEmpty, beq_iff_eq]
      omega
    rw [← List.append_assoc, List.reverse_append, List.dropLast_concat]
    show (if span.isEmpty = true then _ else source.location (span.stop - c.utf8Size)) = _
    rw [if_neg hempty, hlast, location_eq (before ++ marked) (c :: after) (by rw [htext]; simp)]

/-! ### Rows -/

private theorem sliceBetween_eq {text : List Char} {a b : Nat} (front rest : List Char)
    (htext : text = front ++ part ++ rest)
    (ha : a = byteLength front) (hb : b = byteLength front + byteLength part) : sliceBetween text a b = .ok part := by
  rw [htext, ha, hb, sliceBetween_eq_ok]

/-- A line is shown with as many marks as there are characters to be marked, but at least one. -/
private theorem renderExcerpt_line (left rest : List Char) {shown : List Char} {first last : Nat}
    (htext : source.text = above ++ (left ++ right) ++ below) (hright : right = shown ++ rest)
    (hfirst : first = byteLength above + byteLength left) (hlast : last = first + byteLength shown) :
    source.renderExcerpt (.line (lineSpan above (left ++ right)) first last)
      = .ok (Row.line left right (max 1 shown.length)).render := by
  have hslice : source.slice (lineSpan above (left ++ right)) = .ok (left ++ right) :=
    sliceBetween_eq above below htext rfl rfl
  have hindent : sliceBetween source.text (byteLength above) first = .ok left :=
    sliceBetween_eq above (right ++ below) (by rw [htext]; simp) rfl hfirst
  have hshown : sliceBetween source.text first last = .ok shown :=
    sliceBetween_eq (above ++ left) (rest ++ below) (by rw [htext, hright]; simp)
      (by rw [hfirst, byteLength_append]) (by rw [hlast, hfirst, byteLength_append])
  rw [renderExcerpt, hslice, underline]
  show (sliceBetween source.text (byteLength above) _ >>= _ >>= _ : Except Fault String) = _
  rw [hindent, hshown, Row.render, Nat.max_comm]
  rfl

/-- Whether excerpts are printed as rows. -/
def PrintAs (source : Source) : List Excerpt → List Row → Prop :=
  List.Forall₂ fun excerpt row => source.renderExcerpt excerpt = .ok row.render

private theorem PrintAs.mapM_eq {excerpts : List Excerpt} {rows : List Row} (h : PrintAs source excerpts rows) :
    excerpts.mapM source.renderExcerpt = .ok (rows.map Row.render) := by
  induction h with
  | nil => rfl
  | cons hrow _ ih =>
    rw [List.mapM_cons, hrow, ih]
    rfl

private theorem Marks.lineBounds_start (h : Marks source span (above ++ left) marked after)
    (hcut : IsCut source.text above left right below) :
    source.lineBounds span.start = .ok (lineSpan above (left ++ right)) := by
  rw [h.start_eq, lineBounds_eq hcut]

/-- The line that ends what is shown is the one of the last character. -/
private theorem Marks.lineBounds_lastOffset (h : Marks source span before marked after)
    (hcut : IsCut source.text above left right below) (hplace : before ++ marked.dropLast = above ++ left) :
    source.lineBounds (max (span.stop - 1) span.start) = .ok (lineSpan above (left ++ right)) := by
  rw [← lastOffset, h.lastOffset_eq, hplace, lineBounds_eq hcut]

/-- On one line, what is marked is underlined up to the end of the line. -/
private theorem exists_excerpts_oneLine {right' : List Char} (h : Marks source span (above ++ left) marked after)
    (hcut : IsCut source.text above left right below)
    (hlast : IsCut source.text above (left ++ marked.dropLast) right' below) :
    ∃ excerpts, source.excerpts span = .ok excerpts ∧
      PrintAs source excerpts [.line left right (max 1 (marked.takeWhile (· ≠ '\n')).length)] := by
  have hrest : right ++ below = marked ++ after := by
    have htext := hcut.text_eq.symm.trans h.text_eq
    simpa using htext
  obtain ⟨shown, tail, rfl, hshown, hsize, -⟩ := hcut.exists_shown hrest
  have hexcerpts : source.excerpts span = .ok [.line (lineSpan above (left ++ (shown ++ tail))) span.start
      (max (min span.stop (lineSpan above (left ++ (shown ++ tail))).stop) span.start)] := by
    rw [excerpts, h.lineBounds_start hcut]
    show (source.lineBounds (max (span.stop - 1) span.start) >>= _) = _
    rw [h.lineBounds_lastOffset hlast (List.append_assoc ..)]
    exact if_pos rfl
  refine ⟨_, hexcerpts, .cons ?_ .nil⟩
  have hstart := h.start_eq
  have hend := h.stop_eq
  rw [byteLength_append] at hstart hend
  rw [hshown]
  refine renderExcerpt_line left tail hcut.text_eq rfl hstart ?_
  simp only [lineSpan, byteLength_append] at hsize ⊢
  omega

section

variable {gap lower left' right' below' : List Char}

/-- Of the lines between two lines, one is shown in full, and more are left out. -/
private theorem exists_excerptsBetween_rows (hcut : IsCut source.text above left right below) (hgap : EndsLine gap)
    (hlower : lower = above ++ (left ++ right) ++ '\n' :: gap) (hlast : IsCut source.text lower left' right' below') :
    ∃ excerpts rows,
      source.excerptsBetween (lineSpan above (left ++ right)) (lineSpan lower (left' ++ right')) = .ok excerpts ∧
      ShowsBetween source.lines (above.count '\n' + 1) (lower.count '\n' + 1) rows ∧
      PrintAs source excerpts rows := by
  have hslice : sliceBetween source.text (lineSpan above (left ++ right)).stop (lineSpan lower (left' ++ right')).start
      = .ok ('\n' :: gap) :=
    sliceBetween_eq (above ++ (left ++ right)) (left' ++ right' ++ below') (by rw [hlast.text_eq, hlower]; simp)
      (byteLength_append ..).symm ((congrArg byteLength hlower).trans (by rw [byteLength_append, byteLength_append]))
  have hcount : ('\n' :: gap).count '\n' = gap.count '\n' + 1 := List.count_cons_self
  have hlines : lower.count '\n' = above.count '\n' + (gap.count '\n' + 1) := by
    rw [hlower, List.count_append, List.count_append, hcut.count_line, hcount, Nat.add_zero]
  rw [excerptsBetween, hslice]
  show ∃ excerpts rows, (pure ('\n' :: gap) >>= _ : Except Fault (List Excerpt)) = _ ∧ _
  rw [pure_bind, hcount, hlines]
  rcases hgapLines : gap.count '\n' with _ | _ | more
  · exact ⟨[], [], rfl, .nothing rfl, .nil⟩
  · obtain rfl | ⟨middle, rfl⟩ := hgap
    · cases hgapLines
    have hmiddle : '\n' ∉ middle := by
      rw [List.count_append, List.count_singleton_self, Nat.zero_add, Nat.add_eq_right] at hgapLines
      exact List.count_eq_zero.1 hgapLines
    have hmiddleCut : IsCut source.text (above ++ (left ++ right) ++ ['\n']) [] middle
        ('\n' :: (left' ++ right') ++ below') :=
      ⟨by rw [hlast.text_eq, hlower]; simp, List.not_mem_nil, hmiddle, .inr ⟨_, rfl⟩, .inr ⟨_, rfl⟩⟩
    have hbounds : source.lineBounds ((lineSpan above (left ++ right)).stop + 1)
        = .ok (lineSpan (above ++ (left ++ right) ++ ['\n']) middle) := by
      rw [← List.nil_append middle, ← lineBounds_eq hmiddleCut, List.append_nil, byteLength_append, byteLength_append]
      rfl
    have hindex : (above ++ (left ++ right) ++ ['\n']).count '\n' = above.count '\n' + 1 := by
      rw [List.count_append, List.count_append, hcut.count_line]
      rfl
    refine ⟨_, [.line [] middle (max 1 middle.length)], by rw [hbounds]; rfl, .line rfl ?_, .cons ?_ .nil⟩
    · rw [← hindex]
      exact hmiddleCut.getElem?_splitOn
    · exact renderExcerpt_line [] [] hmiddleCut.text_eq (List.append_nil middle).symm rfl rfl
  · exact ⟨[.elided], [.dots], rfl, .dots (by omega), .cons rfl .nil⟩

/-- On several lines, the first one is underlined to its end and the last one from its start. -/
private theorem exists_excerpts_severalLines (h : Marks source span (above ++ left) marked after)
    (hcut : IsCut source.text above left right below) (hmarked : marked.dropLast = right ++ '\n' :: (gap ++ left'))
    (hgap : EndsLine gap) (hlower : lower = above ++ (left ++ right) ++ '\n' :: gap)
    (hlast : IsCut source.text lower left' right' below') :
    ∃ excerpts rows, source.excerpts span = .ok excerpts ∧
      ShowsBetween source.lines (above.count '\n' + 1) (lower.count '\n' + 1) rows ∧
      PrintAs source excerpts (.line left right (max 1 right.length) :: rows
        ++ [.line [] (left' ++ right') (max 1 (min (left'.length + 1) (left' ++ right').length))]) := by
  obtain ⟨between, rows, hbetween, hshows, hprint⟩ := exists_excerptsBetween_rows hcut hgap hlower hlast
  have hplace : above ++ left ++ marked.dropLast = lower ++ left' := by
    rw [hmarked, hlower]
    simp
  have hne : (lineSpan lower (left' ++ right')).start ≠ (lineSpan above (left ++ right)).start := by
    simp only [lineSpan, hlower, byteLength_append, byteLength_cons]
    have := '\n'.utf8Size_pos
    omega
  have hexcerpts : source.excerpts span = .ok (
      .line (lineSpan above (left ++ right)) span.start (lineSpan above (left ++ right)).stop :: between
        ++ [.line (lineSpan lower (left' ++ right')) (byteLength lower)
          (min span.stop (lineSpan lower (left' ++ right')).stop)]) := by
    rw [excerpts, h.lineBounds_start hcut]
    show (source.lineBounds (max (span.stop - 1) span.start) >>= _) = _
    rw [h.lineBounds_lastOffset hlast hplace]
    refine (if_neg hne).trans ?_
    rw [hbetween]
    rfl
  refine ⟨_, rows, hexcerpts, hshows, .cons ?_ (List.rel_append hprint (.cons ?_ .nil))⟩
  · refine renderExcerpt_line left [] hcut.text_eq (List.append_nil right).symm
      (by rw [h.start_eq, byteLength_append]) ?_
    show byteLength above + byteLength (left ++ right) = _
    rw [h.start_eq, byteLength_append, byteLength_append, Nat.add_assoc]
  · -- What is marked on the last line is what stands before the last character, and that character itself.
    have hne' : marked ≠ [] := by
      rintro rfl
      simp at hmarked
    have hwhole : above ++ left ++ marked = lower ++ (left' ++ [marked.getLast hne']) := by
      rw [← List.append_assoc lower, ← hplace, List.append_assoc _ marked.dropLast, List.dropLast_concat_getLast]
    have hrest : left' ++ right' ++ below' = left' ++ [marked.getLast hne'] ++ after := by
      have hsame := hlast.text_eq.symm.trans h.text_eq
      rwa [hwhole, List.append_assoc, List.append_assoc lower, List.append_right_inj] at hsame
    obtain ⟨shown, tail, hshown, -, hsize, hlength⟩ := hlast.lineStart.exists_shown hrest
    have hend : span.stop = byteLength lower + byteLength (left' ++ [marked.getLast hne']) := by
      rw [h.stop_eq, ← byteLength_append, hwhole, byteLength_append]
    rw [List.length_append, List.length_singleton] at hlength
    rw [← hlength]
    refine renderExcerpt_line [] tail hlast.text_eq hshown rfl ?_
    show min span.stop (byteLength _ + byteLength _) = _
    rw [hend, hsize, Nat.add_min_add_left]

end

/-! ### Reports -/

/-- The header of a report that is rendered. -/
def header (source : Source) (report : Diagnostic) (start stop : Location) : String :=
  s!"{source.name}:{start.render}-{stop.render}: {report.severity.render}: {report.message}\n"

private theorem Marks.render_eq {report : Diagnostic} {excerpts : List Excerpt} {rows : List Row}
    (h : Marks source report.span before marked after) (hexcerpts : source.excerpts report.span = .ok excerpts)
    (hprint : PrintAs source excerpts rows) :
    source.render report
      = .ok (source.header report (.after before) (.after (before ++ marked.dropLast))
          ++ String.join (rows.map Row.render)) := by
  have hlocation : source.location report.span.start = .ok (.after before) := by
    rw [h.start_eq, location_eq before (marked ++ after) (by rw [h.text_eq]; simp)]
  rw [render, hlocation, h.endLocation_eq, hexcerpts]
  show (excerpts.mapM source.renderExcerpt >>= _) = _
  rw [hprint.mapM_eq]
  rfl

/-- A last character that is no newline is on the line of its place. -/
private theorem right_ne_nil {tail : List Char} (hcut : IsCut source.text above left right below)
    (htail : marked.dropLast ++ tail = marked) (hrest : tail ++ after = right ++ below) (hne : marked ≠ [])
    (hnewline : marked.getLast? ≠ some '\n') : right ≠ [] := by
  obtain rfl : tail = [marked.getLast hne] :=
    List.append_cancel_left (htail.trans (List.dropLast_concat_getLast hne).symm)
  obtain ⟨more, rfl⟩ := hcut.exists_cons hrest.symm fun h =>
    hnewline ((List.getLast?_eq_some_getLast hne).trans (congrArg some h))
  exact List.cons_ne_nil _ _

/-- On one line, the last mark stands in the column of the last character. -/
private theorem endColumn_oneLine {right' : List Char} (hcut : IsCut source.text above left right below)
    (hlast : IsCut source.text above (left ++ marked.dropLast) right' below)
    (hright : right = marked.dropLast ++ right') (hrest : right ++ below = marked ++ after) (hmarked : marked ≠ [])
    (hne : right' ≠ []) :
    left.length + max 1 (marked.takeWhile (· ≠ '\n')).length
      = (Location.after (above ++ left ++ marked.dropLast)).column := by
  obtain ⟨shown, _, -, hshown, -, hshownLength⟩ := hcut.exists_shown hrest
  have hpos := List.length_pos_iff.2 hne
  have hpos' := List.length_pos_iff.2 hmarked
  rw [List.append_assoc, hlast.after_eq, hshown, hshownLength, hright]
  simp only [List.length_append, List.length_dropLast]
  omega

/-- On the last of several lines, the last mark stands in the column of the last character. -/
private theorem endColumn_severalLines (hcut : IsCut source.text above left right below) (hne : right ≠ []) :
    max 1 (min (left.length + 1) (left ++ right).length) = (Location.after (above ++ left)).column := by
  have hpos := List.length_pos_iff.2 hne
  rw [hcut.after_eq, List.length_append]
  dsimp only
  omega

/-- A report about an empty part of the text, or one that ends in a character of one byte, is rendered.  The header
gives the places of the first and the last character of the part, and below it are the lines of these places: the first
is underlined from the column where the part starts, the last up to the column where it ends. -/
theorem render_shows {report : Diagnostic} (h : report.span.IsIn source.text)
    (hbyte : report.span.EndsInByte source.text) :
    ∃ before marked after start stop rows, source.text = before ++ marked ++ after ∧
      byteLength before = report.span.start ∧ byteLength before + byteLength marked = report.span.stop ∧
      start = Location.after before ∧ stop = Location.after (before ++ marked.dropLast) ∧
      Shows source.lines marked start stop rows ∧
      source.render report = .ok (source.header report start stop ++ String.join (rows.map Row.render)) ∧
      (marked ≠ [] → marked.getLast? ≠ some '\n' →
        ∃ left right marks, rows.getLast? = some (.line left right marks) ∧ left.length + marks = stop.column) := by
  obtain ⟨before, marked, after, hmarks⟩ := exists_marks h hbyte
  have hstart := hmarks.start_eq.symm
  have hstop := hmarks.stop_eq.symm
  obtain ⟨above, left, right, below, hcut, rfl, hrest⟩ := IsCut.exists_of_append before (marked ++ after)
  rw [← List.append_assoc, ← hmarks.text_eq] at hcut
  obtain ⟨tail, htail⟩ := List.dropLast_prefix marked
  have hpassed : right ++ below = marked.dropLast ++ (tail ++ after) := by rw [← hrest, ← List.append_assoc, htail]
  rcases hcut.forward hpassed with
    ⟨right', hright, hrest', hlast⟩ | ⟨gap, left', right', below', hmarked, hrest', hgap, hlast⟩
  · obtain ⟨excerpts, hexcerpts, hprint⟩ := exists_excerpts_oneLine hmarks hcut hlast
    have hend := hlast.after_eq
    rw [← List.append_assoc] at hend
    refine ⟨_, marked, after, _, _, _, hmarks.text_eq, hstart, hstop, rfl, rfl, ?_, hmarks.render_eq hexcerpts hprint,
      fun hne hnewline => ⟨_, _, _, rfl, ?_⟩⟩
    · rw [hcut.after_eq, hend]
      exact .oneLine hcut.getElem?_splitOn rfl rfl
    · exact endColumn_oneLine hcut hlast hright hrest.symm hne (right_ne_nil hlast htail hrest' hne hnewline)
  · obtain ⟨excerpts, rows, hexcerpts, hshows, hprint⟩ :=
      exists_excerpts_severalLines hmarks hcut hmarked hgap rfl hlast
    have hplace : above ++ left ++ marked.dropLast = above ++ (left ++ right) ++ '\n' :: gap ++ left' := by
      rw [hmarked]
      simp
    have hend := hlast.after_eq
    rw [← hplace] at hend
    refine ⟨_, marked, after, _, _, _, hmarks.text_eq, hstart, hstop, rfl, rfl, ?_, hmarks.render_eq hexcerpts hprint,
      fun hne hnewline => ⟨_, _, _, List.getLast?_concat, ?_⟩⟩
    · rw [hcut.after_eq, hend]
      exact .severalLines hcut.getElem?_splitOn rfl hshows hlast.getElem?_splitOn
    · rw [hplace, ← endColumn_severalLines hlast (right_ne_nil hlast htail hrest' hne hnewline)]
      exact Nat.zero_add _

/-- A parenthesis on two lines, the first of which begins with a tab. -/
theorem render_shows_parenthesis :
    let source := ofContent "sum" "\t(1 +\n2)".toList
    let report : Diagnostic := ⟨.error, ⟨1, 8, by decide⟩, "something is wrong"⟩
    report.span.IsIn source.text ∧ report.span.EndsInByte source.text ∧
      ∃ marked start stop rows, Shows source.lines marked start stop rows ∧
        source.render report = .ok (source.header report start stop ++ String.join (rows.map Row.render)) := by
  intro source report
  have hin : report.span.IsIn source.text :=
    ⟨by decide, by decide, ⟨['\t'], _, rfl, rfl⟩, ⟨"\t(1 +\n2)".toList, ['\n'], rfl, rfl⟩⟩
  have hbyte : report.span.EndsInByte source.text := .inr ⟨"\t(1 +\n2".toList, _, rfl, rfl⟩
  obtain ⟨_, marked, _, start, stop, rows, -, -, -, -, -, hshows, hrender, -⟩ := render_shows hin hbyte
  exact ⟨hin, hbyte, marked, start, stop, rows, hshows, hrender⟩

example : (ofContent "sum" "\t(1 +\n2)".toList).render ⟨.error, ⟨1, 8, by decide⟩, "something is wrong"⟩
    = .ok "sum:1:2-2:2: error: something is wrong\n\t(1 +\n\t~~~~\n2)\n~~\n" := by
  rfl

end Source

end ExprLang
