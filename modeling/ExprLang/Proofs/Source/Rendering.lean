import ExprLang.Proofs.FrontEnd
import ExprLang.Source.Excerpt

/-!
# Rendering

A report that stands at a place in the text is rendered if its span is empty or its last character is one byte long,
and otherwise not: the last line is looked up one byte before the end of the span (`Source.exists_render_iff`).
Behind this is what a line is: the characters around an offset up to the newlines before and after it
(`Span.IsLineOf`).  So there is at least one newline between two lines (`Span.IsLineOf.exists_gap`).
-/

namespace ExprLang

/-! ### Boundaries -/

section

variable {text : List Char} {a b : Nat}

private theorem IsBoundary.max (ha : IsBoundary text a) (hb : IsBoundary text b) : IsBoundary text (max a b) := by
  rcases Nat.le_total a b with h | h
  · rwa [Nat.max_eq_right h]
  · rwa [Nat.max_eq_left h]

private theorem IsBoundary.min (ha : IsBoundary text a) (hb : IsBoundary text b) : IsBoundary text (min a b) := by
  rcases Nat.le_total a b with h | h
  · rwa [Nat.min_eq_left h]
  · rwa [Nat.min_eq_right h]

/-- What stands between two boundaries can be cut out. -/
theorem exists_sliceBetween (hle : a ≤ b) (ha : IsBoundary text a) (hb : IsBoundary text b) :
    ∃ part, sliceBetween text a b = .ok part := by
  have hslice : ∃ part, sliceOf text ⟨a, b, hle⟩ = .ok part := exists_sliceOf_iff.2 ⟨ha, hb⟩
  exact hslice

theorem sliceBetween_eq_ok {front part rest : List Char} :
    sliceBetween (front ++ part ++ rest) (byteLength front) (byteLength front + byteLength part) = .ok part := by
  rw [sliceBetween, sliceBytes?_eq_some_iff.2 ⟨front, rest, rfl, rfl, rfl⟩]

private theorem splitBytes?_eq_none (h : ¬IsBoundary text a) : splitBytes? a text = none := by
  cases hsplit : splitBytes? a text with
  | none => rfl
  | some parts =>
    obtain ⟨htext, hlength⟩ := splitBytes?_eq_some_iff.1 hsplit
    exact absurd ⟨parts.1.reverse, parts.2, htext, by rw [byteLength_reverse, hlength]⟩ h

end

/-! ### Lines -/

/-- Whether a span is the line of a text that holds an offset: around the offset it reaches back to a newline or the
start of the text, and on to a newline or its end. -/
def Span.IsLineOf (line : Span) (text : List Char) (offset : Nat) : Prop :=
  ∃ front left right rest, text = front ++ left ++ right ++ rest ∧ '\n' ∉ left ∧ '\n' ∉ right ∧
    (front ≠ [] → front.getLast? = some '\n') ∧ (rest ≠ [] → rest.head? = some '\n') ∧
    byteLength front = line.start ∧ byteLength front + byteLength left = offset ∧
    offset + byteLength right = line.stop

namespace Span.IsLineOf

variable {text : List Char} {line first last : Span} {offset a b : Nat}

private theorem start_le (h : line.IsLineOf text offset) : line.start ≤ offset := by
  obtain ⟨_, _, _, _, -, -, -, -, -, hstart, hoffset, -⟩ := h
  omega

private theorem le_stop (h : line.IsLineOf text offset) : offset ≤ line.stop := by
  obtain ⟨_, _, _, _, -, -, -, -, -, -, -, hstop⟩ := h
  omega

private theorem isBoundary_start (h : line.IsLineOf text offset) : IsBoundary text line.start := by
  obtain ⟨front, left, right, rest, rfl, -, -, -, -, hstart, -, -⟩ := h
  exact ⟨front, left ++ right ++ rest, by simp, hstart⟩

private theorem isBoundary_stop (h : line.IsLineOf text offset) : IsBoundary text line.stop := by
  obtain ⟨front, left, right, rest, rfl, -, -, -, -, -, hoffset, hstop⟩ := h
  exact ⟨front ++ left ++ right, rest, rfl, by rw [byteLength_append, byteLength_append, hoffset, hstop]⟩

/-- Nothing but a newline stands before a line, so lines that overlap begin at the same place. -/
private theorem eq_of_append_eq {f₁ a₁ f₂ m : List Char} (h : f₁ ++ a₁ = f₂ ++ m) (ha : '\n' ∉ a₁) (hm : '\n' ∉ m)
    (h₁ : f₁ ≠ [] → f₁.getLast? = some '\n') (h₂ : f₂ ≠ [] → f₂.getLast? = some '\n') : f₁ = f₂ := by
  have hnil : ∀ {f x : List Char}, '\n' ∉ x → (f ++ x ≠ [] → (f ++ x).getLast? = some '\n') → x = [] := by
    intro f x hx hlast
    by_contra hne
    have hlast := hlast (by simp [hne])
    rw [List.getLast?_append_of_ne_nil _ hne] at hlast
    exact hx (List.mem_of_getLast? hlast)
  rcases List.append_eq_append_iff.1 h with ⟨x, rfl, rfl⟩ | ⟨x, rfl, rfl⟩
  · rw [List.mem_append, not_or] at ha
    rw [hnil ha.1 h₂, List.append_nil]
  · rw [List.mem_append, not_or] at hm
    rw [hnil hm.1 h₁, List.append_nil]

/-- Between two lines there are newlines, at least one. -/
private theorem exists_gap (hfirst : first.IsLineOf text a) (hlast : last.IsLineOf text b) (hle : a ≤ b)
    (hne : last.start ≠ first.start) :
    ∃ front gap rest, text = front ++ '\n' :: gap ++ rest ∧ byteLength front = first.stop ∧
      byteLength front + byteLength ('\n' :: gap) = last.start := by
  obtain ⟨f₁, a₁, b₁, r₁, rfl, ha₁, hb₁, hf₁, hr₁, hstart₁, rfl, hstop₁⟩ := hfirst
  obtain ⟨f₂, a₂, b₂, r₂, htext, ha₂, -, hf₂, -, hstart₂, rfl, -⟩ := hlast
  have htext : (f₁ ++ a₁) ++ (b₁ ++ r₁) = f₂ ++ (a₂ ++ (b₂ ++ r₂)) := by
    rw [← List.append_assoc, htext]
    simp
  have hdifferent : f₁ ≠ f₂ := by
    rintro rfl
    exact hne (hstart₂.symm.trans hstart₁)
  rcases List.append_eq_append_iff.1 htext with ⟨y, rfl, hy⟩ | ⟨m, hm, hrest⟩
  · -- The second line begins after the first offset: the newline before it ends the first line, or comes later.
    have hynil : y ≠ [] := by
      rintro rfl
      rw [List.append_nil] at hf₂ hdifferent
      exact hdifferent (eq_of_append_eq (List.append_nil _).symm ha₁ List.not_mem_nil hf₁ hf₂)
    have hynewline : '\n' ∈ y := by
      have hlast := hf₂ (by simp [hynil])
      rw [List.getLast?_append_of_ne_nil _ hynil] at hlast
      exact List.mem_of_getLast? hlast
    rcases List.append_eq_append_iff.1 hy with ⟨z, rfl, hz⟩ | ⟨z, rfl, -⟩
    · have hznil : z ≠ [] := by
        rintro rfl
        rw [List.append_nil] at hynewline
        exact hb₁ hynewline
      obtain ⟨c, gap, rfl⟩ := List.exists_cons_of_ne_nil hznil
      have hhead := hr₁ (by rw [hz]; simp)
      rw [hz, List.cons_append, List.head?_cons] at hhead
      obtain rfl := Option.some.inj hhead
      refine ⟨f₁ ++ a₁ ++ b₁, gap, a₂ ++ (b₂ ++ r₂), by rw [hz]; simp, ?_, ?_⟩
      · rw [byteLength_append, byteLength_append, hstop₁]
      · rw [← hstart₂]
        simp only [byteLength_append]
        omega
    · exact absurd (List.mem_append_left _ hynewline) hb₁
  · -- The second line would begin before the first offset, and there is no newline up to the second one.
    have hshort : byteLength m ≤ byteLength a₂ := by
      have := congrArg byteLength hm
      rw [byteLength_append, byteLength_append] at this
      omega
    have hnone : '\n' ∉ m := by
      rcases List.append_eq_append_iff.1 hrest with ⟨z, rfl, -⟩ | ⟨z, rfl, -⟩
      · rw [byteLength_append] at hshort
        rw [eq_nil_of_byteLength_eq_zero (show byteLength z = 0 by omega), List.append_nil]
        exact ha₂
      · exact fun h => ha₂ (List.mem_append_left _ h)
    exact absurd (eq_of_append_eq hm ha₁ hnone hf₁ hf₂) hdifferent

end Span.IsLineOf

namespace Source

variable {source : Source} {offset : Nat}

private theorem around_eq_error (h : ¬IsBoundary source.text offset) (hle : offset ≤ source.length) :
    source.around offset = .error .slice := by
  rw [around, Nat.min_eq_left hle, splitBytes?_eq_none h]

private theorem exists_around (h : IsBoundary source.text offset) :
    ∃ before after, source.around offset = .ok (before, after) ∧ source.text = before.reverse ++ after ∧
      byteLength before = offset := by
  obtain ⟨front, rest, htext, hlength⟩ := h
  have hle : offset ≤ source.length := by
    rw [length, htext, byteLength_append]
    omega
  have hreverse : byteLength front.reverse = offset := by rw [byteLength_reverse, hlength]
  refine ⟨front.reverse, rest, ?_, by simpa using htext, hreverse⟩
  rw [around, Nat.min_eq_left hle,
    splitBytes?_eq_some_iff.2 ⟨show source.text = front.reverse.reverse ++ rest by simpa using htext, hreverse⟩]

private theorem exists_location (h : IsBoundary source.text offset) :
    ∃ location, source.location offset = .ok location := by
  obtain ⟨before, after, haround, -⟩ := exists_around h
  exact ⟨_, by rw [location, haround]; rfl⟩

/-- Every boundary is on a line. -/
private theorem exists_lineBounds (h : IsBoundary source.text offset) :
    ∃ line, source.lineBounds offset = .ok line ∧ line.IsLineOf source.text offset := by
  obtain ⟨before, after, haround, htext, hlength⟩ := exists_around h
  have hle : offset ≤ source.length := h.le_byteLength
  have hbefore := congrArg byteLength (List.takeWhile_append_dropWhile (p := (· ≠ '\n')) (l := before))
  rw [byteLength_append] at hbefore
  refine ⟨_, by rw [lineBounds, haround]; rfl, (before.dropWhile (· ≠ '\n')).reverse,
    (before.takeWhile (· ≠ '\n')).reverse, after.takeWhile (· ≠ '\n'), after.dropWhile (· ≠ '\n'), ?_, ?_, ?_, ?_, ?_,
    ?_, ?_, ?_⟩
  · rw [List.append_assoc, List.takeWhile_append_dropWhile, ← List.reverse_append,
      List.takeWhile_append_dropWhile, htext]
  · intro hmem
    simpa using List.mem_takeWhile_imp (List.mem_reverse.1 hmem)
  · intro hmem
    simpa using List.mem_takeWhile_imp hmem
  · intro hne
    rw [List.getLast?_reverse]
    have hhead := List.head?_dropWhile_not (· ≠ '\n') before
    cases hdrop : before.dropWhile (· ≠ '\n') with
    | nil => rw [hdrop] at hne; exact absurd rfl hne
    | cons c rest =>
      rw [hdrop] at hhead
      simpa using hhead
  · intro hne
    have hhead := List.head?_dropWhile_not (· ≠ '\n') after
    cases hdrop : after.dropWhile (· ≠ '\n') with
    | nil => rw [hdrop] at hne; exact absurd rfl hne
    | cons c rest =>
      rw [hdrop] at hhead
      simpa using hhead
  · show _ = min offset source.length - _
    rw [byteLength_reverse, Nat.min_eq_left hle]
    omega
  · rw [byteLength_reverse, byteLength_reverse]
    omega
  · show _ = min offset source.length + _
    rw [Nat.min_eq_left hle]

private theorem lineBounds_eq_error (h : ¬IsBoundary source.text offset) (hle : offset ≤ source.length) :
    source.lineBounds offset = .error .slice := by
  rw [lineBounds, around_eq_error h hle]
  rfl

end Source

/-! ### Excerpts -/

/-- Whether what an excerpt shows can be cut out of a text. -/
def Excerpt.IsIn (text : List Char) : Excerpt → Prop
  | line bounds first last => bounds.start ≤ first ∧ first ≤ last ∧ IsBoundary text bounds.start ∧
      IsBoundary text bounds.stop ∧ IsBoundary text first ∧ IsBoundary text last
  | elided => True

namespace Source

variable {source : Source}

private theorem exists_renderExcerpt {excerpt : Excerpt} (h : excerpt.IsIn source.text) :
    ∃ shown, source.renderExcerpt excerpt = .ok shown := by
  cases excerpt with
  | elided => exact ⟨_, rfl⟩
  | line bounds first last =>
    obtain ⟨hstart, hle, hbegin, hend, hfirst, hlast⟩ := h
    obtain ⟨shown, hshown⟩ := exists_sliceBetween bounds.start_le_stop hbegin hend
    obtain ⟨indent, hindent⟩ := exists_sliceBetween hstart hbegin hfirst
    obtain ⟨marked, hmarked⟩ := exists_sliceBetween hle hfirst hlast
    have hslice : source.slice bounds = .ok shown := hshown
    exact ⟨_, by rw [renderExcerpt, underline, hslice, hindent, hmarked]; rfl⟩

/-- What is between two lines can be shown. -/
private theorem exists_excerptsBetween {first last : Span} {a b : Nat} (hfirst : first.IsLineOf source.text a)
    (hlast : last.IsLineOf source.text b) (hle : a ≤ b) (hne : last.start ≠ first.start) :
    ∃ excerpts, source.excerptsBetween first last = .ok excerpts ∧
      ∀ excerpt ∈ excerpts, excerpt.IsIn source.text := by
  obtain ⟨front, gap, rest, htext, hstop, hstart⟩ := hfirst.exists_gap hlast hle hne
  have hslice : sliceBetween source.text first.stop last.start = .ok ('\n' :: gap) := by
    rw [htext, ← hstop, ← hstart]
    exact sliceBetween_eq_ok
  have hcount : ('\n' :: gap).count '\n' = gap.count '\n' + 1 := List.count_cons_self
  have hnext : IsBoundary source.text (first.stop + 1) :=
    ⟨front ++ ['\n'], gap ++ rest, by rw [htext]; simp, by rw [byteLength_append, hstop]; rfl⟩
  rw [excerptsBetween, hslice]
  show ∃ excerpts, (pure ('\n' :: gap) >>= _ : Except Fault (List Excerpt)) = _ ∧ _
  rw [pure_bind, hcount]
  cases gap.count '\n' with
  | zero => exact ⟨[], rfl, fun _ hmem => absurd hmem List.not_mem_nil⟩
  | succ more =>
    cases more with
    | zero =>
      obtain ⟨middle, hmiddle, hline⟩ := exists_lineBounds hnext
      refine ⟨[.line middle middle.start middle.stop], ?_, ?_⟩
      · show (source.lineBounds (first.stop + 1) >>= _) = _
        rw [hmiddle]
        rfl
      · rw [List.forall_mem_singleton]
        exact ⟨Nat.le_refl _, middle.start_le_stop, hline.isBoundary_start, hline.isBoundary_stop,
          hline.isBoundary_start, hline.isBoundary_stop⟩
    | succ more => exact ⟨[.elided], rfl, List.forall_mem_singleton.2 trivial⟩

/-! ### Reports -/

/-- Where the last line of a span is looked up. -/
def lastOffset (span : Span) : Nat :=
  max (span.stop - 1) span.start

private theorem exists_excerpts {span : Span} (h : span.IsIn source.text)
    (hlast : IsBoundary source.text (lastOffset span)) :
    ∃ excerpts, source.excerpts span = .ok excerpts ∧ ∀ excerpt ∈ excerpts, excerpt.IsIn source.text := by
  obtain ⟨first, hfirst, hfirstLine⟩ := exists_lineBounds h.start
  obtain ⟨last, hlast, hlastLine⟩ := exists_lineBounds hlast
  have hspan := h.start_le_stop
  have hle : span.start ≤ lastOffset span := Nat.le_max_right _ _
  rw [excerpts, hfirst]
  show ∃ excerpts, (source.lineBounds (lastOffset span) >>= _) = _ ∧ _
  rw [hlast]
  show ∃ excerpts, (if last.start = first.start then _ else _) = _ ∧ _
  by_cases hsame : last.start = first.start
  · rw [if_pos hsame]
    refine ⟨_, rfl, List.forall_mem_singleton.2 ⟨hfirstLine.start_le, Nat.le_max_right _ _, ?_⟩⟩
    exact ⟨hfirstLine.isBoundary_start, hfirstLine.isBoundary_stop, h.start,
      (h.stop.min hfirstLine.isBoundary_stop).max h.start⟩
  · rw [if_neg hsame]
    obtain ⟨middle, hmiddle, hmiddleIn⟩ := exists_excerptsBetween hfirstLine hlastLine hle hsame
    -- The last line does not begin after the span, since the span has a last character on it.
    have hstop : last.start ≤ span.stop := by
      refine hlastLine.start_le.trans ?_
      rw [lastOffset]
      omega
    refine ⟨_, by rw [hmiddle]; rfl, ?_⟩
    rw [List.forall_mem_append, List.forall_mem_cons, List.forall_mem_singleton]
    refine ⟨⟨⟨hfirstLine.start_le, hfirstLine.le_stop, ?_⟩, hmiddleIn⟩, Nat.le_refl _, ?_, ?_⟩
    · exact ⟨hfirstLine.isBoundary_start, hfirstLine.isBoundary_stop, h.start, hfirstLine.isBoundary_stop⟩
    · exact Nat.le_min.2 ⟨hstop, last.start_le_stop⟩
    · exact ⟨hlastLine.isBoundary_start, hlastLine.isBoundary_stop, hlastLine.isBoundary_start,
        h.stop.min hlastLine.isBoundary_stop⟩

private theorem exists_endLocation {span : Span} (h : span.IsIn source.text) :
    ∃ location, source.endLocation span = .ok location := by
  obtain ⟨front, rest, htext, hlength⟩ := h.stop
  have hsplit : splitBytes? span.stop source.text = some (front.reverse, rest) :=
    splitBytes?_eq_some_iff.2 ⟨by simpa using htext, by rw [byteLength_reverse, hlength]⟩
  rw [endLocation, hsplit]
  cases hreverse : front.reverse with
  | nil => exact exists_location h.start
  | cons c before =>
    show ∃ location, (if span.isEmpty then _ else _) = _
    split
    · exact exists_location h.start
    · refine exists_location ⟨before.reverse, c :: rest, ?_, ?_⟩
      · rw [htext, ← List.reverse_reverse front, hreverse]
        simp
      · have hfront := byteLength_reverse front
        rw [hreverse, byteLength_cons] at hfront
        rw [byteLength_reverse, ← hlength]
        omega

/-- A report is rendered if its last line can be looked up. -/
private theorem exists_render {report : Diagnostic} (h : report.span.IsIn source.text)
    (hlast : IsBoundary source.text (lastOffset report.span)) : ∃ shown, source.render report = .ok shown := by
  obtain ⟨start, hstart⟩ := exists_location h.start
  obtain ⟨stop, hstop⟩ := exists_endLocation h
  obtain ⟨excerpts, hexcerpts, hin⟩ := exists_excerpts h hlast
  obtain ⟨shown, hshown⟩ := exists_mapM (f := source.renderExcerpt) fun excerpt hmem =>
    exists_renderExcerpt (hin excerpt hmem)
  rw [render, hstart, hstop, hexcerpts]
  show ∃ rendered, (excerpts.mapM source.renderExcerpt >>= _) = _
  rw [hshown]
  exact ⟨_, rfl⟩

theorem render_eq_error {report : Diagnostic} (h : report.span.IsIn source.text)
    (hlast : ¬IsBoundary source.text (lastOffset report.span)) : source.render report = .error .slice := by
  obtain ⟨start, hstart⟩ := exists_location h.start
  obtain ⟨stop, hstop⟩ := exists_endLocation h
  obtain ⟨first, hfirst, -⟩ := exists_lineBounds h.start
  have hle : lastOffset report.span ≤ source.length := by
    have := h.start_le_stop
    have := h.stop_le_length
    rw [lastOffset, length]
    omega
  have hexcerpts : source.excerpts report.span = .error .slice := by
    rw [excerpts, hfirst]
    show (source.lineBounds (lastOffset report.span) >>= _) = _
    rw [lineBounds_eq_error hlast hle]
    rfl
  rw [render, hstart, hstop, hexcerpts]
  rfl

end Source

/-- Whether a span holds nothing, or its last character is one byte long. -/
def Span.EndsInByte (span : Span) (text : List Char) : Prop :=
  span.start = span.stop ∨ IsBoundary text (span.stop - 1)

theorem Span.IsIn.isBoundary_lastOffset_iff {span : Span} {text : List Char} (h : span.IsIn text) :
    IsBoundary text (Source.lastOffset span) ↔ span.EndsInByte text := by
  have hle := h.start_le_stop
  rw [Source.lastOffset, EndsInByte]
  by_cases hempty : span.start = span.stop
  · rw [Nat.max_eq_right (by omega)]
    exact ⟨fun _ => .inl hempty, fun _ => h.start⟩
  · rw [Nat.max_eq_left (by omega)]
    exact ⟨.inr, fun hlast => hlast.resolve_left hempty⟩

/-- A report at a place in the text is rendered if and only if its span is empty or ends in a character of one
byte. -/
theorem Source.exists_render_iff {source : Source} {report : Diagnostic} (h : report.span.IsIn source.text) :
    (∃ shown, source.render report = .ok shown) ↔ report.span.EndsInByte source.text := by
  rw [← h.isBoundary_lastOffset_iff]
  refine ⟨fun ⟨shown, hshown⟩ => ?_, exists_render h⟩
  by_contra hlast
  rw [render_eq_error h hlast] at hshown
  cases hshown

end ExprLang
