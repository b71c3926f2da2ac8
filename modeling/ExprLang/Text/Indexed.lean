import ExprLang.Fault
import ExprLang.Text.Slice

/-!
# Texts with all their offsets

A reader that goes forth and back in a text by byte offsets needs the characters from an offset on at hand.  An
indexed text keeps them for every offset up to its end; inside a character there are none (`getElem?_suffixes`).  To
read on from an offset that is inside a character or past the end is a fault.
-/

namespace ExprLang

/-- The characters from each byte offset of a text on, up to its end. -/
def suffixesOf : List Char → List (Option (List Char))
  | [] => [some []]
  | c :: rest => some (c :: rest) :: (List.replicate (c.utf8Size - 1) none ++ suffixesOf rest)

/-- Adds the characters from each byte offset of a text on to an array. -/
def addSuffixes (suffixes : Array (Option (List Char))) : List Char → Array (Option (List Char))
  | [] => suffixes.push (some [])
  | c :: rest => addSuffixes (suffixes.push (some (c :: rest)) ++ Array.replicate (c.utf8Size - 1) none) rest

private theorem toList_addSuffixes (suffixes : Array (Option (List Char))) (text : List Char) :
    (addSuffixes suffixes text).toList = suffixes.toList ++ suffixesOf text := by
  induction text generalizing suffixes with
  | nil => rw [addSuffixes, Array.toList_push, suffixesOf]
  | cons c rest ih => simp [addSuffixes, suffixesOf, ih]

private theorem length_suffixesOf (text : List Char) : (suffixesOf text).length = byteLength text + 1 := by
  induction text with
  | nil => rfl
  | cons c rest ih =>
    have hpos := c.utf8Size_pos
    rw [suffixesOf, List.length_cons, List.length_append, List.length_replicate, ih, byteLength_cons]
    omega

private theorem getElem?_suffixesOf (text : List Char) (offset : Nat) :
    ((suffixesOf text)[offset]?).join = dropBytes? offset text := by
  induction text generalizing offset with
  | nil =>
    cases offset with
    | zero => rfl
    | succ offset => simp [suffixesOf, dropBytes?]
  | cons c rest ih =>
    cases offset with
    | zero => rfl
    | succ offset =>
      have hpos := c.utf8Size_pos
      rw [suffixesOf, List.getElem?_cons_succ, dropBytes?]
      split
      · have hplace : offset - (c.utf8Size - 1) = offset + 1 - c.utf8Size := by omega
        rw [List.getElem?_append_right (by rw [List.length_replicate]; omega), List.length_replicate, hplace, ih]
      · -- The offset is inside the character.
        have hinside : offset < c.utf8Size - 1 := by omega
        rw [List.getElem?_append_left (by rwa [List.length_replicate]), List.getElem?_replicate, if_pos hinside]
        rfl

/-- A text with the characters from each byte offset on. -/
structure IndexedText where
  text : List Char
  suffixes : Array (Option (List Char))
  size_suffixes : suffixes.size = byteLength text + 1
  getElem?_suffixes : ∀ offset : Nat, (suffixes[offset]?).join = dropBytes? offset text

namespace IndexedText

/-- The text with all its offsets. -/
def ofText (text : List Char) : IndexedText where
  text := text
  suffixes := addSuffixes #[] text
  size_suffixes := by
    rw [← Array.length_toList, toList_addSuffixes, ← length_suffixesOf]
    rfl
  getElem?_suffixes offset := by
    rw [← Array.getElem?_toList, toList_addSuffixes, ← getElem?_suffixesOf]
    rfl

/-- The number of bytes of the text. -/
def length (indexed : IndexedText) : Nat :=
  indexed.suffixes.size - 1

/-- The characters from a byte offset on. -/
def after (indexed : IndexedText) (offset : Nat) : Except Fault (List Char) :=
  match (indexed.suffixes[offset]?).join with
  | some rest => .ok rest
  | none => .error .slice

/-- The characters between two byte offsets. -/
def slice (indexed : IndexedText) (start stop : Nat) : Except Fault (List Char) :=
  if start ≤ stop then do
    match splitBytes? (stop - start) (← indexed.after start) with
    | some (taken, _) => return taken.reverse
    | none => throw .slice
  else
    .error .slice

theorem length_eq_byteLength (indexed : IndexedText) : indexed.length = byteLength indexed.text := by
  rw [length, size_suffixes, Nat.add_sub_cancel]

theorem after_eq_ok_iff {indexed : IndexedText} {offset : Nat} {rest : List Char} :
    indexed.after offset = .ok rest ↔ ∃ front, indexed.text = front ++ rest ∧ byteLength front = offset := by
  rw [after, getElem?_suffixes, ← dropBytes?_eq_some_iff]
  cases dropBytes? offset indexed.text <;> simp

private theorem lt_size_of_after {indexed : IndexedText} {offset : Nat} {rest : List Char}
    (h : indexed.after offset = .ok rest) : offset < indexed.suffixes.size := by
  obtain ⟨front, htext, rfl⟩ := after_eq_ok_iff.1 h
  rw [size_suffixes, htext, byteLength_append]
  omega

/-- The offset after the characters from an offset on before which the text has a property. -/
def skipWhile (indexed : IndexedText) (p : List Char → Bool) (offset : Nat) : Except Fault Nat :=
  match _h : indexed.after offset with
  | .error cause => .error cause
  | .ok [] => .ok offset
  | .ok (c :: rest) => if p (c :: rest) then indexed.skipWhile p (offset + c.utf8Size) else .ok offset
termination_by indexed.suffixes.size - offset
decreasing_by
  have hlt := lt_size_of_after _h
  have hpos := c.utf8Size_pos
  omega

end IndexedText

end ExprLang
