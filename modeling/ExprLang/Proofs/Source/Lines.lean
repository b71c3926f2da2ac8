import ExprLang.Proofs.Source.Rendering

/-!
# Lines

A text is cut at a place into what is above the line of the place, the line before and after the place, and what is
below it (`IsCut`).  The line, its number and its bounds are read off the cut, and further places are found on the same
line or on one below it (`IsCut.forward`).
-/

namespace ExprLang

/-- The lines of a source, without the newlines that end them. -/
def Source.lines (source : Source) : List (List Char) :=
  source.text.splitOn '\n'

/-- The location of what stands after a part of a text. -/
def Location.after (front : List Char) : Location where
  line := front.count '\n' + 1
  column := (front.reverse.takeWhile (· ≠ '\n')).length + 1

/-- Whether a text is made of whole lines. -/
def EndsLine (text : List Char) : Prop :=
  text = [] ∨ ∃ front, text = front ++ ['\n']

/-- Whether a text goes on with a new line. -/
def BreaksLine (text : List Char) : Prop :=
  text = [] ∨ ∃ rest, text = '\n' :: rest

private theorem BreaksLine.of_append {front rest : List Char} (h : BreaksLine (front ++ rest)) : BreaksLine front := by
  cases front with
  | nil => exact .inl rfl
  | cons c front =>
    obtain hnil | ⟨_, hcons⟩ := h
    · cases hnil
    · exact .inr ⟨front, by rw [(List.cons.inj hcons).1]⟩

/-- Whether a text is cut at a place: the line of the place into what is before and after it, and the text into what is
above and below that line. -/
structure IsCut (text above left right below : List Char) : Prop where
  text_eq : text = above ++ (left ++ right) ++ below
  left_line : '\n' ∉ left
  right_line : '\n' ∉ right
  above_ends : EndsLine above
  below_breaks : BreaksLine below

/-! ### First and last lines -/

private theorem exists_lastLine (front : List Char) :
    ∃ above left, front = above ++ left ∧ EndsLine above ∧ '\n' ∉ left := by
  induction front using List.reverseRecOn with
  | nil => exact ⟨[], [], rfl, .inl rfl, List.not_mem_nil⟩
  | append_singleton front c ih =>
    by_cases hc : c = '\n'
    · exact ⟨front ++ ['\n'], [], by rw [hc, List.append_nil], .inr ⟨front, rfl⟩, List.not_mem_nil⟩
    · obtain ⟨above, left, rfl, habove, hleft⟩ := ih
      refine ⟨above, left ++ [c], List.append_assoc .., habove, ?_⟩
      rw [List.mem_append, List.mem_singleton, not_or]
      exact ⟨hleft, fun h => hc h.symm⟩

private theorem exists_firstLine (rest : List Char) :
    ∃ right below, rest = right ++ below ∧ '\n' ∉ right ∧ BreaksLine below := by
  induction rest with
  | nil => exact ⟨[], [], rfl, List.not_mem_nil, .inl rfl⟩
  | cons c rest ih =>
    by_cases hc : c = '\n'
    · exact ⟨[], c :: rest, rfl, List.not_mem_nil, .inr ⟨rest, by rw [hc]⟩⟩
    · obtain ⟨right, below, rfl, hright, hbelow⟩ := ih
      exact ⟨c :: right, below, rfl, List.not_mem_cons_of_ne_of_not_mem (fun h => hc h.symm) hright, hbelow⟩

private theorem takeWhile_reverse_append {above left : List Char} (habove : EndsLine above) (hleft : '\n' ∉ left) :
    (above ++ left).reverse.takeWhile (· ≠ '\n') = left.reverse := by
  have hall : ∀ c ∈ left.reverse, decide (c ≠ '\n') = true := fun c hc =>
    decide_eq_true fun h => hleft (h ▸ List.mem_reverse.1 hc)
  rw [List.reverse_append, List.takeWhile_append_of_pos hall]
  obtain rfl | ⟨front, rfl⟩ := habove
  · simp
  · simp

private theorem takeWhile_append_breaks {right below : List Char} (hright : '\n' ∉ right) (hbelow : BreaksLine below) :
    (right ++ below).takeWhile (· ≠ '\n') = right := by
  have hall : ∀ c ∈ right, decide (c ≠ '\n') = true := fun c hc => decide_eq_true fun h => hright (h ▸ hc)
  rw [List.takeWhile_append_of_pos hall]
  obtain rfl | ⟨rest, rfl⟩ := hbelow
  · simp
  · simp

private theorem length_splitOn (text : List Char) : (text.splitOn '\n').length = text.count '\n' + 1 := by
  induction text with
  | nil => rfl
  | cons c text ih =>
    rw [List.splitOn_eq_splitOnP] at ih ⊢
    rw [List.splitOnP_cons_eq_if_modifyHead, List.count_cons]
    split
    · rw [List.length_cons, ih]
    · rw [List.length_modifyHead, ih, Nat.add_zero]

/-! ### Cuts -/

namespace IsCut

variable {text above left right below : List Char}

theorem exists_of_append (front rest : List Char) :
    ∃ above left right below, IsCut (front ++ rest) above left right below ∧ front = above ++ left ∧
      rest = right ++ below := by
  obtain ⟨above, left, rfl, habove, hleft⟩ := exists_lastLine front
  obtain ⟨right, below, rfl, hright, hbelow⟩ := exists_firstLine rest
  exact ⟨above, left, right, below, ⟨by simp, hleft, hright, habove, hbelow⟩, rfl, rfl⟩

/-- The line of the place is found by its number. -/
theorem getElem?_splitOn (h : IsCut text above left right below) :
    (text.splitOn '\n')[above.count '\n']? = some (left ++ right) := by
  have hline : '\n' ∉ left ++ right := by
    rw [List.mem_append, not_or]
    exact ⟨h.left_line, h.right_line⟩
  have hhead : ((left ++ right ++ below).splitOn '\n')[0]? = some (left ++ right) := by
    obtain rfl | ⟨rest, rfl⟩ := h.below_breaks
    · rw [List.append_nil, List.splitOn_eq_singleton hline]
      rfl
    · rw [List.splitOn_append_cons_self, List.splitOn_eq_singleton hline]
      rfl
  rw [h.text_eq, List.append_assoc]
  obtain rfl | ⟨front, rfl⟩ := h.above_ends
  · exact hhead
  · have hcount : (front ++ ['\n']).count '\n' = (front.splitOn '\n').length := by
      rw [length_splitOn, List.count_append]
      rfl
    rw [List.append_assoc, List.singleton_append, List.splitOn_append_cons_self, hcount,
      List.getElem?_append_right (Nat.le_refl _), Nat.sub_self]
    exact hhead

theorem count_line (h : IsCut text above left right below) : (left ++ right).count '\n' = 0 := by
  rw [List.count_append, List.count_eq_zero_of_not_mem h.left_line, List.count_eq_zero_of_not_mem h.right_line]

/-- The cut at the start of the line. -/
theorem lineStart (h : IsCut text above left right below) : IsCut text above [] (left ++ right) below where
  text_eq := h.text_eq
  left_line := List.not_mem_nil
  right_line := List.count_eq_zero.1 h.count_line
  above_ends := h.above_ends
  below_breaks := h.below_breaks

theorem after_eq (h : IsCut text above left right below) :
    Location.after (above ++ left) = ⟨above.count '\n' + 1, left.length + 1⟩ := by
  rw [Location.after, takeWhile_reverse_append h.above_ends h.left_line, List.count_append,
    List.count_eq_zero_of_not_mem h.left_line, List.length_reverse]

/-- A further place is on the same line, or on one that is some whole lines below it. -/
theorem forward (h : IsCut text above left right below) {passed rest : List Char}
    (hrest : right ++ below = passed ++ rest) :
    (∃ right', right = passed ++ right' ∧ rest = right' ++ below ∧ IsCut text above (left ++ passed) right' below) ∨
    ∃ gap left' right' below', passed = right ++ '\n' :: (gap ++ left') ∧ rest = right' ++ below' ∧ EndsLine gap ∧
      IsCut text (above ++ (left ++ right) ++ '\n' :: gap) left' right' below' := by
  have hsame : ∀ right', right = passed ++ right' → IsCut text above (left ++ passed) right' below := by
    rintro right' rfl
    have hright := h.right_line
    rw [List.mem_append, not_or] at hright
    refine ⟨by rw [h.text_eq]; simp, ?_, hright.2, h.above_ends, h.below_breaks⟩
    rw [List.mem_append, not_or]
    exact ⟨h.left_line, hright.1⟩
  rcases List.append_eq_append_iff.1 hrest with ⟨lower, rfl, hbelow⟩ | ⟨right', hright, hrest⟩
  · obtain rfl | ⟨lower, rfl⟩ := (hbelow ▸ h.below_breaks).of_append
    · rw [List.append_nil] at hsame ⊢
      exact .inl ⟨[], by rw [List.append_nil], hbelow.symm, hsame [] (by rw [List.append_nil])⟩
    · obtain ⟨gap, left', rfl, hgap, hleft'⟩ := exists_lastLine lower
      obtain ⟨right', below', rfl, hright', hbelow'⟩ := exists_firstLine rest
      refine .inr ⟨gap, left', right', below', rfl, rfl, hgap, by rw [h.text_eq, hbelow]; simp, hleft', hright', ?_,
        hbelow'⟩
      refine .inr ?_
      obtain rfl | ⟨lines, rfl⟩ := hgap
      · exact ⟨_, rfl⟩
      · exact ⟨above ++ (left ++ right) ++ '\n' :: lines, by simp⟩
  · exact .inl ⟨right', hright, hrest, hsame right' hright⟩

/-- A character that is no newline is on the line where it begins. -/
theorem exists_cons (h : IsCut text above left right below) {c : Char} {rest : List Char}
    (hrest : right ++ below = c :: rest) (hc : c ≠ '\n') : ∃ more, right = c :: more := by
  cases right with
  | nil =>
    obtain hnil | ⟨more, hmore⟩ := h.below_breaks
    · rw [hnil] at hrest
      cases hrest
    · exact absurd (List.cons.inj (hrest.symm.trans hmore)).1 hc
  | cons d more => exact ⟨more, by rw [(List.cons.inj hrest).1]⟩

/-- What is marked from a place on is underlined up to the end of its line. -/
theorem exists_shown (h : IsCut text above left right below) {marked after : List Char}
    (hrest : right ++ below = marked ++ after) :
    ∃ shown right', right = shown ++ right' ∧ marked.takeWhile (· ≠ '\n') = shown ∧
      byteLength shown = min (byteLength marked) (byteLength right) ∧
      shown.length = min marked.length right.length := by
  have hright := h.right_line
  rcases List.append_eq_append_iff.1 hrest with ⟨lower, rfl, hbelow⟩ | ⟨right', rfl, -⟩
  · have hlower : BreaksLine lower := (hbelow ▸ h.below_breaks).of_append
    refine ⟨right, [], (List.append_nil right).symm, takeWhile_append_breaks hright hlower, ?_, ?_⟩
    · rw [byteLength_append, Nat.min_eq_right (Nat.le_add_right _ _)]
    · rw [List.length_append, Nat.min_eq_right (Nat.le_add_right _ _)]
  · rw [List.mem_append, not_or] at hright
    refine ⟨marked, right', rfl, ?_, ?_, ?_⟩
    · have htake := takeWhile_append_breaks hright.1 (.inl rfl)
      rwa [List.append_nil] at htake
    · rw [byteLength_append, Nat.min_eq_left (Nat.le_add_right _ _)]
    · rw [List.length_append, Nat.min_eq_left (Nat.le_add_right _ _)]

end IsCut

namespace Source

variable {source : Source} {above left right below front rest : List Char}

private theorem around_eq (h : source.text = front ++ rest) :
    source.around (byteLength front) = .ok (front.reverse, rest) := by
  have hle : byteLength front ≤ source.length := by
    rw [length, h, byteLength_append]
    exact Nat.le_add_right _ _
  rw [around, Nat.min_eq_left hle,
    splitBytes?_eq_some_iff.2 ⟨by rw [List.reverse_reverse, h], byteLength_reverse front⟩]

theorem location_eq (front rest : List Char) (h : source.text = front ++ rest) :
    source.location (byteLength front) = .ok (.after front) := by
  rw [location, around_eq h, Location.after, ← List.count_reverse (l := front)]
  rfl

/-- The bounds of a line with the given text above it. -/
def lineSpan (above line : List Char) : Span where
  start := byteLength above
  stop := byteLength above + byteLength line

theorem lineBounds_eq (h : IsCut source.text above left right below) :
    source.lineBounds (byteLength (above ++ left)) = .ok (lineSpan above (left ++ right)) := by
  have htext : source.text = (above ++ left) ++ (right ++ below) := by rw [h.text_eq]; simp
  have hle : byteLength (above ++ left) ≤ source.length := by
    rw [length, htext, byteLength_append (above ++ left)]
    exact Nat.le_add_right _ _
  rw [lineBounds, around_eq htext]
  refine congrArg Except.ok (Span.ext ?_ ?_)
  · show min (byteLength (above ++ left)) source.length - byteLength (List.takeWhile _ _) = byteLength above
    rw [takeWhile_reverse_append h.above_ends h.left_line, Nat.min_eq_left hle, byteLength_reverse, byteLength_append]
    omega
  · show min (byteLength (above ++ left)) source.length + byteLength (List.takeWhile _ _)
      = byteLength above + byteLength (left ++ right)
    rw [takeWhile_append_breaks h.right_line h.below_breaks, Nat.min_eq_left hle, byteLength_append, byteLength_append]
    omega

end Source

end ExprLang
