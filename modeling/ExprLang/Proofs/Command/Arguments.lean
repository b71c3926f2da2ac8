import ExprLang.Command.Arguments

/-!
# Accepting files

Of a parser of arguments it is asked that it accepts files one by one: if it takes what comes after some flags for
files, it does so with each of them alone (`ArgumentParser.AcceptsEach`).  The parser that the command runs with does
(`acceptsEach_parseArguments`).
-/

namespace ExprLang

/-- Whether a parser that accepts files after some flags accepts each of them alone. -/
structure ArgumentParser.AcceptsEach (parse : ArgumentParser) (flags : List String) (options : Options) : Prop where
  alone : ∀ files, parse (flags ++ files) = .ok { options, files } →
    ∀ file ∈ files, parse (flags ++ [file]) = .ok { options, files := [file] }

namespace Request

variable {options start : Options} {files found flags : List String}

private theorem ofFiles_eq_ok_iff : ofFiles start files = .ok { options, files := found } ↔
    start = options ∧ files = found ∧ files ≠ [] ∧ "" ∉ files := by
  rw [ofFiles]
  split
  · rename_i h
    simp only [Bool.or_eq_true, List.isEmpty_iff, List.contains_iff_mem] at h
    simp only [reduceCtorEq, false_iff]
    rintro ⟨-, -, hfiles, hname⟩
    exact h.elim hfiles hname
  · rename_i h
    simp only [Bool.or_eq_true, List.isEmpty_iff, List.contains_iff_mem, not_or] at h
    simp [h]

/-- If no argument is left out, all of them are files. -/
private theorem isFile_of_ofArguments {rest : List String}
    (h : ofArguments start files rest = .ok { options, files := found })
    (hlength : files.length + rest.length ≤ found.length) :
    start = options ∧ found = files ++ rest ∧ "" ∉ found ∧ ∀ file ∈ rest, file ≠ "--" ∧ isFile file = true := by
  fun_induction ofArguments start files rest with
  | case1 start files =>
    obtain ⟨rfl, rfl, -, hname⟩ := ofFiles_eq_ok_iff.1 h
    exact ⟨rfl, (List.append_nil _).symm, hname, fun _ hmem => absurd hmem List.not_mem_nil⟩
  | case2 start files rest =>
    obtain ⟨-, rfl, -⟩ := ofFiles_eq_ok_iff.1 h
    rw [List.length_append, List.length_cons] at hlength
    omega
  | case3 => cases h
  | case4 start files argument rest hdashes hname hfile ih =>
    have hlonger : (files ++ [argument]).length + rest.length ≤ found.length := by
      rw [List.length_append, List.length_singleton]
      rw [List.length_cons] at hlength
      omega
    obtain ⟨hoptions, hfound, hnames, hrest⟩ := ih h hlonger
    rw [List.append_assoc, List.singleton_append] at hfound
    exact ⟨hoptions, hfound, hnames, List.forall_mem_cons.2 ⟨⟨hdashes, hfile⟩, hrest⟩⟩
  | case5 => cases h
  | case6 start files argument rest _ _ _ _ next _ ih =>
    rw [List.length_cons] at hlength
    obtain ⟨-, rfl, -⟩ := ih h (by omega)
    rw [List.length_append] at hlength
    omega
  | case7 => cases h

/-- Flags lead to some options, or to files only, or to a refusal, whatever comes after them. -/
private theorem ofArguments_append (h : ∀ flag ∈ flags, isFile flag = false) (start : Options) (files : List String) :
    (∃ options, ∀ rest, ofArguments start files (flags ++ rest) = ofArguments options files rest) ∨
    (∃ options more, ∀ rest, ofArguments start files (flags ++ rest) = ofFiles options (files ++ (more ++ rest))) ∨
    ∃ refusal, ∀ rest, ofArguments start files (flags ++ rest) = .error refusal := by
  induction flags generalizing start with
  | nil => exact .inl ⟨start, fun _ => rfl⟩
  | cons flag flags ih =>
    obtain ⟨hflag, hflags⟩ := List.forall_mem_cons.1 h
    simp only [List.cons_append, ofArguments, hflag, Bool.false_eq_true, if_false]
    split
    · exact .inr (.inl ⟨start, flags, fun _ => rfl⟩)
    · split
      · exact .inr (.inr ⟨_, fun _ => rfl⟩)
      · split
        · exact .inr (.inr ⟨_, fun _ => rfl⟩)
        · split
          · exact ih hflags _
          · exact .inr (.inr ⟨_, fun _ => rfl⟩)

end Request

/-- The parser of arguments accepts files one by one, after flags. -/
theorem acceptsEach_parseArguments {flags : List String} (h : ∀ flag ∈ flags, isFile flag = false)
    (options : Options) : ArgumentParser.AcceptsEach parseArguments flags options := by
  refine ⟨fun files haccepted file hmem => ?_⟩
  rw [parseArguments] at haccepted ⊢
  rcases Request.ofArguments_append h .plain [] with ⟨next, hnext⟩ | ⟨next, more, hnext⟩ | ⟨refusal, hrefusal⟩
  · rw [hnext] at haccepted ⊢
    obtain ⟨rfl, -, hnames, hfiles⟩ := Request.isFile_of_ofArguments haccepted (by simp)
    obtain ⟨hdashes, hfile⟩ := hfiles file hmem
    have hname : file ≠ "" := fun hempty => hnames (hempty ▸ hmem)
    rw [Request.ofArguments, if_neg hdashes, if_neg hname, if_pos hfile, Request.ofArguments,
      Request.ofFiles_eq_ok_iff]
    simp [hname.symm]
  · rw [hnext] at haccepted ⊢
    obtain ⟨rfl, hfiles, -, hnames⟩ := Request.ofFiles_eq_ok_iff.1 haccepted
    -- Nothing but the files can be taken for files.
    obtain rfl : more = [] := by simpa using hfiles
    have hname : "" ≠ file := fun hempty => hnames (hempty ▸ by simpa using hmem)
    rw [Request.ofFiles_eq_ok_iff]
    simp [hname]
  · rw [hrefusal] at haccepted
    cases haccepted

end ExprLang
