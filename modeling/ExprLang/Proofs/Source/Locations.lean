import ExprLang.Proofs.Source.Lines

/-!
# Locations

The location of an offset and the bounds of its line are searched for apart from each other and agree
(`Source.locations_are_exact`): locations come in the order of their offsets, the bounds enclose one whole line, the
number of a line stands for its bounds, and the column counts the characters of the line up to the offset.
-/

namespace ExprLang

/-- Whether a location is on a line above another one, or before it on the same line. -/
def Location.IsBefore (here there : Location) : Prop :=
  here.line < there.line ∨ here.line = there.line ∧ here.column < there.column

private theorem Location.IsBefore.ne {here there : Location} (h : here.IsBefore there) : here ≠ there := by
  rintro rfl
  obtain hline | ⟨-, hcolumn⟩ := h
  · exact Nat.lt_irrefl _ hline
  · exact Nat.lt_irrefl _ hcolumn

private theorem Location.IsBefore.asymm {here there : Location} (h : here.IsBefore there) : ¬there.IsBefore here := by
  intro hback
  unfold IsBefore at h hback
  omega

private theorem IsBoundary.split {text : List Char} {first second : Nat} (hfirst : IsBoundary text first)
    (hsecond : IsBoundary text second) (hle : first ≤ second) :
    ∃ front passed rest, text = front ++ passed ++ rest ∧ byteLength front = first ∧
      first + byteLength passed = second := by
  obtain ⟨part, hpart⟩ := exists_sliceBetween hle hfirst hsecond
  rw [sliceBetween] at hpart
  split at hpart
  · rename_i found hfound
    obtain ⟨front, rest, htext, hfront, hstop⟩ := sliceBytes?_eq_some_iff.1 hfound
    exact ⟨front, found, rest, htext, hfront, by omega⟩
  · cases hpart

namespace Source

/-- Whether a span is that of the whole line around an offset, without the newlines around it. -/
structure IsLineAround (source : Source) (line : Span) (offset : Nat) : Prop where
  start_le : line.start ≤ offset
  le_stop : offset ≤ line.stop
  unbroken : ∃ shown, source.slice line = .ok shown ∧ '\n' ∉ shown
  starts : line.start = 0 ∨ ∃ before, before + 1 = line.start ∧ sliceBetween source.text before line.start = .ok ['\n']
  stops : line.stop = source.length ∨ sliceBetween source.text line.stop (line.stop + 1) = .ok ['\n']

variable {source : Source} {above left right below : List Char} {offset first second : Nat}

/-! ### One offset -/

private theorem location_of_isCut (h : IsCut source.text above left right below) :
    source.location (byteLength (above ++ left)) = .ok ⟨above.count '\n' + 1, left.length + 1⟩ := by
  rw [location_eq (above ++ left) (right ++ below) (by rw [h.text_eq]; simp), h.after_eq]

private theorem isLineAround_lineSpan (h : IsCut source.text above left right below) :
    source.IsLineAround (lineSpan above (left ++ right)) (byteLength (above ++ left)) where
  start_le := by
    rw [byteLength_append]
    exact Nat.le_add_right _ _
  le_stop := by
    show _ ≤ byteLength above + byteLength (left ++ right)
    rw [byteLength_append, byteLength_append]
    omega
  unbroken := by
    refine ⟨left ++ right, ?_, List.count_eq_zero.1 h.count_line⟩
    show sliceBetween source.text (byteLength above) (byteLength above + byteLength (left ++ right)) = _
    rw [h.text_eq, sliceBetween_eq_ok]
  starts := by
    obtain rfl | ⟨front, rfl⟩ := h.above_ends
    · exact .inl rfl
    · have hlength : byteLength (front ++ ['\n']) = byteLength front + 1 := byteLength_append ..
      refine .inr ⟨byteLength front, hlength.symm, ?_⟩
      show sliceBetween source.text (byteLength front) (byteLength (front ++ ['\n'])) = _
      rw [byteLength_append, h.text_eq, List.append_assoc, sliceBetween_eq_ok]
  stops := by
    show byteLength above + byteLength (left ++ right) = _ ∨ _
    rw [← byteLength_append]
    obtain rfl | ⟨rest, rfl⟩ := h.below_breaks
    · rw [length, h.text_eq, List.append_nil]
      exact .inl rfl
    · refine .inr ?_
      show sliceBetween source.text (byteLength above + byteLength (left ++ right))
        (byteLength above + byteLength (left ++ right) + byteLength ['\n']) = _
      rw [← byteLength_append, h.text_eq, ← List.singleton_append, ← List.append_assoc, sliceBetween_eq_ok]

private theorem exists_line (h : IsBoundary source.text offset) :
    ∃ location line left, source.location offset = .ok location ∧ source.lineBounds offset = .ok line ∧
      source.IsLineAround line offset ∧ sliceBetween source.text line.start offset = .ok left ∧
      location.column = left.length + 1 := by
  obtain ⟨front, rest, htext, rfl⟩ := h
  obtain ⟨above, left, right, below, hcut, rfl, -⟩ := IsCut.exists_of_append front rest
  rw [← htext] at hcut
  refine ⟨_, _, left, location_of_isCut hcut, lineBounds_eq hcut, isLineAround_lineSpan hcut, ?_, rfl⟩
  show sliceBetween source.text (byteLength above) (byteLength (above ++ left)) = _
  rw [byteLength_append, htext, sliceBetween_eq_ok]

private theorem location_of_length_le (h : source.length ≤ offset) :
    source.location offset = source.location source.length := by
  rw [location, location, around, around, Nat.min_eq_right h, Nat.min_self]

/-! ### Two offsets -/

/-- Of two offsets, the later one has the later location, and the same line if its number is the same. -/
private theorem exists_locations_of_lt (hfirst : IsBoundary source.text first) (hsecond : IsBoundary source.text second)
    (hlt : first < second) :
    ∃ here there line line', source.location first = .ok here ∧ source.location second = .ok there ∧
      source.lineBounds first = .ok line ∧ source.lineBounds second = .ok line' ∧ here.IsBefore there ∧
      (here.line = there.line ↔ line = line') := by
  obtain ⟨front, passed, rest, htext, rfl, rfl⟩ := hfirst.split hsecond (Nat.le_of_lt hlt)
  obtain ⟨above, left, right, below, hcut, rfl, hrest⟩ := IsCut.exists_of_append front (passed ++ rest)
  rw [← List.append_assoc, ← htext] at hcut
  rcases hcut.forward hrest.symm with ⟨right', rfl, -, hcut'⟩ | ⟨gap, left', right', below', rfl, -, -, hcut'⟩
  · have hlocation := location_of_isCut hcut'
    have hbounds := lineBounds_eq hcut'
    rw [← List.append_assoc, byteLength_append] at hlocation hbounds
    have hpassed : 0 < passed.length := by
      apply List.length_pos_of_ne_nil
      rintro rfl
      exact Nat.lt_irrefl _ hlt
    refine ⟨_, _, _, _, location_of_isCut hcut, hlocation, lineBounds_eq hcut, hbounds, .inr ⟨rfl, ?_⟩, ?_⟩
    · show left.length + 1 < (left ++ passed).length + 1
      rw [List.length_append]
      omega
    · rw [List.append_assoc]
      exact ⟨fun _ => rfl, fun _ => rfl⟩
  · have hlocation := location_of_isCut hcut'
    have hbounds := lineBounds_eq hcut'
    have hplace : byteLength (above ++ (left ++ right) ++ '\n' :: gap ++ left')
        = byteLength (above ++ left) + byteLength (right ++ '\n' :: (gap ++ left')) := by
      rw [← byteLength_append]
      simp
    rw [hplace] at hlocation hbounds
    have hline : above.count '\n' + 1 < (above ++ (left ++ right) ++ '\n' :: gap).count '\n' + 1 := by
      rw [List.count_append, List.count_append, List.count_cons_self]
      omega
    refine ⟨_, _, _, _, location_of_isCut hcut, hlocation, lineBounds_eq hcut, hbounds, .inl hline, ?_⟩
    refine ⟨fun hsame => absurd hsame (Nat.ne_of_lt hline), fun hsame => ?_⟩
    have hstart : byteLength above = byteLength (above ++ (left ++ right) ++ '\n' :: gap) := congrArg Span.start hsame
    have hnewline := Char.utf8Size_pos '\n'
    rw [byteLength_append, byteLength_append, byteLength_cons] at hstart
    omega

private theorem exists_locations (hfirst : IsBoundary source.text first) (hsecond : IsBoundary source.text second) :
    ∃ here there line line', source.location first = .ok here ∧ source.location second = .ok there ∧
      source.lineBounds first = .ok line ∧ source.lineBounds second = .ok line' ∧
      (first < second ↔ here.IsBefore there) ∧ (first = second ↔ here = there) ∧
      (here.line = there.line ↔ line = line') := by
  rcases Nat.lt_trichotomy first second with hlt | rfl | hgt
  · obtain ⟨here, there, line, line', hhere, hthere, hline, hline', hbefore, hsame⟩ :=
      exists_locations_of_lt hfirst hsecond hlt
    exact ⟨here, there, line, line', hhere, hthere, hline, hline', iff_of_true hlt hbefore,
      iff_of_false (Nat.ne_of_lt hlt) hbefore.ne, hsame⟩
  · obtain ⟨here, line, -, hhere, hline, -⟩ := exists_line hfirst
    exact ⟨here, here, line, line, hhere, hhere, hline, hline,
      iff_of_false (Nat.lt_irrefl _) fun hbefore => hbefore.ne rfl, iff_of_true rfl rfl, iff_of_true rfl rfl⟩
  · obtain ⟨there, here, line', line, hthere, hhere, hline', hline, hbefore, hsame⟩ :=
      exists_locations_of_lt hsecond hfirst hgt
    exact ⟨here, there, line, line', hhere, hthere, hline, hline', iff_of_false (Nat.lt_asymm hgt) hbefore.asymm,
      iff_of_false (Nat.ne_of_gt hgt) hbefore.ne.symm, eq_comm.trans (hsame.trans eq_comm)⟩

/-! ### All offsets -/

/-- Locations and lines of the offsets of a text agree with the text and with each other. -/
theorem locations_are_exact (source : Source) :
    (∀ offset, IsBoundary source.text offset →
      ∃ location line left, source.location offset = .ok location ∧ source.lineBounds offset = .ok line ∧
        source.IsLineAround line offset ∧ sliceBetween source.text line.start offset = .ok left ∧
        location.column = left.length + 1) ∧
    (∀ first second, IsBoundary source.text first → IsBoundary source.text second →
      ∃ here there line line', source.location first = .ok here ∧ source.location second = .ok there ∧
        source.lineBounds first = .ok line ∧ source.lineBounds second = .ok line' ∧
        (first < second ↔ here.IsBefore there) ∧ (first = second ↔ here = there) ∧
        (here.line = there.line ↔ line = line')) ∧
    (∀ offset, source.length ≤ offset → source.location offset = source.location source.length) :=
  ⟨fun _ => exists_line, fun _ _ => exists_locations, fun _ => location_of_length_le⟩

/-- Three lines, of which the first one has a character of two bytes and the second one is empty. -/
theorem locations_are_exact_emptyLine :
    let source : Source := ofContent "lines" ['a', 'é', '\n', '\n', 'b']
    IsBoundary source.text 3 ∧ IsBoundary source.text 4 ∧ source.length ≤ 40 ∧
      (∃ here there line line', source.location 3 = .ok here ∧ source.location 4 = .ok there ∧
        source.lineBounds 3 = .ok line ∧ source.lineBounds 4 = .ok line' ∧ here.IsBefore there ∧ line ≠ line' ∧
        here.line ≠ there.line) ∧
      (∃ line, source.lineBounds 4 = .ok line ∧ source.IsLineAround line 4) ∧
      source.location 40 = .ok ⟨4, 1⟩ := by
  intro source
  have hfirst : IsBoundary source.text 3 := ⟨['a', 'é'], ['\n', '\n', 'b', '\n'], rfl, rfl⟩
  have hsecond : IsBoundary source.text 4 := ⟨['a', 'é', '\n'], ['\n', 'b', '\n'], rfl, rfl⟩
  have hbeyond : source.length ≤ 40 := by decide
  obtain ⟨hone, htwo, hlast⟩ := locations_are_exact source
  obtain ⟨here, there, line, line', hhere, hthere, hline, hline', hbefore, -, hsame⟩ := htwo 3 4 hfirst hsecond
  obtain ⟨-, bounds, -, -, hbounds, haround, -⟩ := hone 4 hsecond
  have hbefore' := hbefore.1 (by decide)
  have hne : here.line ≠ there.line := by
    cases (show source.location 3 = .ok ⟨1, 3⟩ from rfl).symm.trans hhere
    cases (show source.location 4 = .ok ⟨2, 1⟩ from rfl).symm.trans hthere
    decide
  exact ⟨hfirst, hsecond, hbeyond, ⟨here, there, line, line', hhere, hthere, hline, hline', hbefore', mt hsame.2 hne,
    hne⟩, ⟨bounds, hbounds, haround⟩, (hlast 40 hbeyond).trans rfl⟩

end Source

end ExprLang
