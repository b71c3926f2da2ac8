/-!
# Texts and byte offsets

A text is a list of characters.  Places in a text are counted in bytes of its UTF-8 form, so a place may lie
inside a character.  `splitBytes?` cuts a text at a byte offset and succeeds exactly at the character
boundaries of the text; `sliceBytes?` cuts out the part between two offsets.
-/

namespace ExprLang

/-- The number of bytes of a text in UTF-8. -/
def byteLength (text : List Char) : Nat :=
  text.foldl (fun size c => size + c.utf8Size) 0

/-- The characters after the byte offset `n`. -/
def dropBytes? (n : Nat) (text : List Char) : Option (List Char) :=
  match n, text with
  | 0, text => some text
  | _ + 1, [] => none
  | n + 1, c :: text => if c.utf8Size ≤ n + 1 then dropBytes? (n + 1 - c.utf8Size) text else none
termination_by structural text

/-- Moves characters worth `n` bytes from the front of `after` to the front of `before`. -/
def shiftBytes? (n : Nat) (before after : List Char) : Option (List Char × List Char) :=
  match n, after with
  | 0, after => some (before, after)
  | _ + 1, [] => none
  | n + 1, c :: after =>
    if c.utf8Size ≤ n + 1 then shiftBytes? (n + 1 - c.utf8Size) (c :: before) after else none
termination_by structural after

/-- The characters before the byte offset `n`, nearest first, and the characters after it. -/
def splitBytes? (n : Nat) (text : List Char) : Option (List Char × List Char) :=
  shiftBytes? n [] text

/-- The characters between two byte offsets. -/
def sliceBytes? (start stop : Nat) (text : List Char) : Option (List Char) :=
  if start ≤ stop then do
    let (taken, _) ← splitBytes? (stop - start) (← dropBytes? start text)
    return taken.reverse
  else
    none

@[simp] theorem byteLength_nil : byteLength [] = 0 := rfl

private theorem foldl_utf8Size (text : List Char) (size : Nat) :
    text.foldl (fun size c => size + c.utf8Size) size = size + byteLength text := by
  induction text generalizing size with
  | nil => rfl
  | cons c text ih =>
    rw [byteLength, List.foldl_cons, List.foldl_cons, ih, ih]
    omega

@[simp] theorem byteLength_cons (c : Char) (text : List Char) :
    byteLength (c :: text) = c.utf8Size + byteLength text := by
  rw [byteLength, List.foldl_cons, foldl_utf8Size, Nat.zero_add]

@[simp] theorem byteLength_append (a b : List Char) :
    byteLength (a ++ b) = byteLength a + byteLength b := by
  rw [byteLength, List.foldl_append, foldl_utf8Size, foldl_utf8Size, Nat.zero_add]

@[simp] theorem byteLength_reverse (text : List Char) : byteLength text.reverse = byteLength text := by
  induction text with
  | nil => rfl
  | cons c text ih => simp [ih]; omega

/-! ### What cutting means -/

theorem dropBytes?_eq_some_iff {n : Nat} {text rest : List Char} :
    dropBytes? n text = some rest ↔ ∃ front, text = front ++ rest ∧ byteLength front = n := by
  induction text generalizing n with
  | nil =>
    cases n with
    | zero =>
      simp only [dropBytes?, Option.some.injEq, List.nil_eq, List.append_eq_nil_iff]
      exact ⟨fun h => ⟨[], ⟨rfl, h⟩, rfl⟩, fun ⟨_, ⟨_, h⟩, _⟩ => h⟩
    | succ n => simp [dropBytes?]
  | cons c text ih =>
    have hpos := c.utf8Size_pos
    cases n with
    | zero =>
      simp only [dropBytes?, Option.some.injEq]
      constructor
      · rintro rfl
        exact ⟨[], rfl, rfl⟩
      · rintro ⟨front, htext, hfront⟩
        cases front with
        | nil => exact htext
        | cons d front => rw [byteLength_cons] at hfront; have := d.utf8Size_pos; omega
    | succ n =>
      simp only [dropBytes?]
      split
      · rw [ih]
        constructor
        · rintro ⟨front, rfl, hfront⟩
          exact ⟨c :: front, rfl, by rw [byteLength_cons]; omega⟩
        · rintro ⟨front, htext, hfront⟩
          cases front with
          | nil => simp at hfront
          | cons d front =>
            obtain ⟨rfl, rfl⟩ := List.cons.inj htext
            exact ⟨front, rfl, by rw [byteLength_cons] at hfront; omega⟩
      · simp only [reduceCtorEq, false_iff, not_exists, not_and]
        intro front htext hfront
        cases front with
        | nil => simp at hfront
        | cons d front =>
          obtain ⟨rfl, rfl⟩ := List.cons.inj htext
          rw [byteLength_cons] at hfront
          omega

private theorem shiftBytes?_eq_map (n : Nat) (before after : List Char) :
    shiftBytes? n before after = (dropBytes? n after).map fun rest =>
      ((after.take (after.length - rest.length)).reverse ++ before, rest) := by
  induction after generalizing n before with
  | nil => cases n <;> simp [shiftBytes?, dropBytes?]
  | cons c after ih =>
    cases n with
    | zero => simp [shiftBytes?, dropBytes?]
    | succ n =>
      simp only [shiftBytes?, dropBytes?]
      split
      · rw [ih]
        refine Option.map_congr fun rest hrest => ?_
        obtain ⟨front, rfl, -⟩ := dropBytes?_eq_some_iff.1 hrest
        have hlength : front.length + rest.length + 1 - rest.length = front.length + 1 := by omega
        simp [hlength]
      · rfl

/-- A text is cut where the part before the cut has the given number of bytes. -/
theorem splitBytes?_eq_some_iff {n : Nat} {text before after : List Char} :
    splitBytes? n text = some (before, after) ↔ text = before.reverse ++ after ∧ byteLength before = n := by
  rw [splitBytes?, shiftBytes?_eq_map, Option.map_eq_some_iff]
  constructor
  · rintro ⟨rest, hrest, hpair⟩
    obtain ⟨front, rfl, rfl⟩ := dropBytes?_eq_some_iff.1 hrest
    simp only [List.append_nil, Prod.mk.injEq] at hpair
    obtain ⟨rfl, rfl⟩ := hpair
    simp
  · rintro ⟨rfl, rfl⟩
    exact ⟨after, dropBytes?_eq_some_iff.2 ⟨before.reverse, rfl, byteLength_reverse _⟩, by simp⟩

/-- A slice is what stands between parts with the right numbers of bytes. -/
theorem sliceBytes?_eq_some_iff {start stop : Nat} {text part : List Char} :
    sliceBytes? start stop text = some part ↔
      ∃ front rest, text = front ++ part ++ rest ∧ byteLength front = start
        ∧ byteLength front + byteLength part = stop := by
  unfold sliceBytes?
  split
  · rename_i hle
    simp only [Option.bind_eq_bind, Option.bind_eq_some_iff, Prod.exists, dropBytes?_eq_some_iff,
      splitBytes?_eq_some_iff, Option.pure_def, Option.some.injEq]
    constructor
    · rintro ⟨tail, ⟨front, rfl, hfront⟩, taken, rest, ⟨rfl, htaken⟩, rfl⟩
      exact ⟨front, rest, by simp, hfront, by rw [byteLength_reverse]; omega⟩
    · rintro ⟨front, rest, rfl, hfront, hpart⟩
      exact ⟨part ++ rest, ⟨front, by simp, hfront⟩, part.reverse, rest,
        ⟨by simp, by rw [byteLength_reverse]; omega⟩, by simp⟩
  · rename_i hlt
    simp only [reduceCtorEq, false_iff, not_exists, not_and]
    intro front rest _ hfront hpart
    omega

end ExprLang
