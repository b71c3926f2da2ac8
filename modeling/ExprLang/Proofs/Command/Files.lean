import ExprLang.Proofs.Command.Arguments
import ExprLang.Proofs.Command.Checking

/-!
# Checking several files

Files are checked one after the other, and nothing of one matters to the next: each adds to what has been printed what
it prints on its own (`Printer.Adds`), and to the troubles with others those with it (`Printer.checkFile_eq`).  The
status told by troubles is the greatest one told by any of them (`Troubles.status_join`).  So checking several files
prints what the runs for single files print, one after the other, and the status is the greatest of theirs
(`runCommand_files`).
-/

namespace ExprLang

/-! ### What is printed -/

namespace Printed

/-- What has been printed in two parts. -/
def append (first second : Printed) : Printed where
  output := first.output ++ second.output
  errors := first.errors ++ second.errors

/-- What has been printed in several parts. -/
def join (parts : List Printed) : Printed where
  output := String.join (parts.map Printed.output)
  errors := String.join (parts.map Printed.errors)

@[simp] theorem nothing_append (printed : Printed) : nothing.append printed = printed := by
  simp [append, nothing]

@[simp] theorem append_nothing (printed : Printed) : printed.append nothing = printed := by
  simp [append, nothing]

private theorem append_assoc (first second third : Printed) :
    (first.append second).append third = first.append (second.append third) := by
  simp [append, String.append_assoc]

@[simp] theorem join_nil : join [] = nothing := rfl

@[simp] theorem join_cons (part : Printed) (parts : List Printed) :
    join (part :: parts) = part.append (join parts) := by
  simp [join, append, String.join_cons]

end Printed

namespace Printer

variable {α β : Type} {source : Source} {options : Options}

/-- Whether a printer adds to what has been printed, and does the same whatever that is. -/
def Adds (printer : Printer α) : Prop :=
  ∀ printed, printer printed = ((printer .nothing).1, printed.append (printer .nothing).2)

private theorem adds_pure (value : α) : Adds (pure value) := fun printed => by
  rw [Stage.pure_apply, Stage.pure_apply, Printed.append_nothing]

private theorem adds_fail : Adds (Stage.fail : Printer α) := fun printed => by
  show (Outcome.failed, printed) = (Outcome.failed, printed.append .nothing)
  rw [Printed.append_nothing]

private theorem adds_raise (cause : Fault) : Adds (Stage.raise cause : Printer α) := fun printed => by
  show (Outcome.fault cause, printed) = (Outcome.fault cause, printed.append .nothing)
  rw [Printed.append_nothing]

private theorem adds_ofExcept (result : Except Fault α) : Adds (Stage.ofExcept result : Printer α) := by
  cases result with
  | ok value => exact adds_pure value
  | error cause => exact adds_raise cause

private theorem adds_ofOutcome (outcome : Outcome α) : Adds (ofOutcome outcome) := by
  cases outcome with
  | done value => exact adds_pure value
  | failed => exact adds_fail
  | fault cause => exact adds_raise cause

private theorem adds_print (text : String) : Adds (print text) := fun printed => by
  show (Outcome.done (), Printed.mk (printed.output ++ text) printed.errors)
    = (Outcome.done (), printed.append ⟨"" ++ text, ""⟩)
  simp [Printed.append]

private theorem adds_printError (text : String) : Adds (printError text) := fun printed => by
  show (Outcome.done (), Printed.mk printed.output (printed.errors ++ text))
    = (Outcome.done (), printed.append ⟨"", "" ++ text⟩)
  simp [Printed.append]

private theorem Adds.bind {first : Printer α} {next : α → Printer β} (h : Adds first)
    (hnext : ∀ value, Adds (next value)) :
    Adds (first >>= next) := by
  intro printed
  rw [Stage.bind_apply, Stage.bind_apply, h printed]
  rcases first .nothing with ⟨value | _ | _, after⟩
  · show next value (printed.append after) = ((next value after).1, printed.append (next value after).2)
    rw [hnext value (printed.append after), hnext value after, Printed.append_assoc]
  · rfl
  · rfl

/-- What is printed on request is added to what has been printed, if it is. -/
private theorem Adds.onRequest {requested : Bool} {first : Printer Unit} {next : Printer α} (h : Adds first)
    (hnext : Adds next) : Adds (if requested then first >>= fun _ => next else next) := by
  cases requested with
  | false => exact hnext
  | true => exact h.bind fun _ => hnext

private theorem adds_forM {items : List α} {printer : α → Printer Unit} (h : ∀ item, Adds (printer item)) :
    Adds (items.forM printer) := by
  induction items with
  | nil => exact adds_pure ()
  | cons item items ih => exact (h item).bind fun _ => ih

private theorem adds_dumpLexemes (source : Source) (lexemes : Lexemes) : Adds (dumpLexemes source lexemes) :=
  adds_forM fun _ => (adds_ofExcept _).bind fun _ => adds_print _

private theorem adds_dumpStatements (source : Source) (statements : List Statement) :
    Adds (dumpStatements source statements) :=
  adds_forM fun _ => (adds_ofExcept _).bind fun _ => adds_print _

private theorem adds_printDiagnostics (options : Options) (source : Source) (diagnostics : Diagnostics) :
    Adds (printDiagnostics options source diagnostics) := by
  refine adds_forM fun diagnostic => ?_
  split
  · exact (adds_ofExcept _).bind fun _ => adds_printError _
  · exact adds_pure ()

private theorem adds_printSummary (source : Source) (diagnostics : Diagnostics) :
    Adds (printSummary source diagnostics) := by
  show Adds (if 0 < diagnostics.errorCount + diagnostics.warningCount then printError _ else pure ())
  split
  · exact adds_printError _
  · exact adds_pure ()

private theorem adds_checkSource (options : Options) (source : Source) : Adds (checkSource options source) := by
  unfold checkSource
  generalize source.lex = lexed
  generalize source.parse = parse
  generalize source.program = check
  refine (adds_ofOutcome _).bind fun lexemes => ?_
  refine (adds_dumpLexemes source lexemes).onRequest ?_
  refine (adds_ofOutcome _).bind fun statements => ?_
  refine (adds_dumpStatements source statements).onRequest ?_
  refine (adds_ofOutcome _).bind fun program => ?_
  have hreport : ∀ diagnostics, Adds (printDiagnostics options source diagnostics >>= fun _ =>
      printSummary source diagnostics >>= fun _ => pure diagnostics.hasErrors) := fun diagnostics =>
    (adds_printDiagnostics options source _).bind fun _ => (adds_printSummary source _).bind fun _ => adds_pure _
  split
  · exact (adds_ofExcept _).bind fun _ => (adds_print _).bind fun _ => hreport _
  · exact hreport _

private theorem adds_checkFile (options : Options) (path : String) (contents : Except ReadFailure ByteArray)
    (troubles : Troubles) : Adds (checkFile options path contents troubles) := by
  unfold checkFile
  split
  · exact (adds_printError _).bind fun _ => adds_pure _
  · exact (adds_checkSource options _).bind fun _ => adds_pure _

end Printer

/-! ### Troubles -/

/-- All that is reported about a source. -/
def Source.reports (source : Source) : Diagnostics :=
  match source.statements with
  | (.done statements, reports) => (source.program statements reports).2
  | (_, reports) => reports

/-- The status of a file: 3 if it cannot be loaded, 1 if there are errors in it, and 0 otherwise. -/
def fileStatus (path : String) (contents : Except ReadFailure ByteArray) : Nat :=
  match Source.load path contents with
  | .error _ => 3
  | .ok source => if source.reports.hasErrors then 1 else 0

/-- What is wrong with a file. -/
def fileTroubles (path : String) (contents : Except ReadFailure ByteArray) : Troubles :=
  match Source.load path contents with
  | .error _ => { unreadable := true, failed := false }
  | .ok source => { unreadable := false, failed := source.reports.hasErrors }

private theorem status_fileTroubles (path : String) (contents : Except ReadFailure ByteArray) :
    (fileTroubles path contents).status = fileStatus path contents := by
  rw [fileTroubles, fileStatus]
  split <;> rfl

namespace Troubles

/-- What is wrong if both of two are. -/
def join (a b : Troubles) : Troubles where
  unreadable := a.unreadable || b.unreadable
  failed := a.failed || b.failed

/-- That a file could not be loaded counts for more than errors, and these for more than nothing. -/
private theorem status_join (a b : Troubles) : (a.join b).status = max a.status b.status := by
  have hall : ∀ au af bu bf : Bool,
      ((mk au af).join (mk bu bf)).status = max (mk au af).status (mk bu bf).status := by
    decide
  exact hall a.unreadable a.failed b.unreadable b.failed

private theorem status_foldl_join (found : List Troubles) (troubles : Troubles) :
    (found.foldl join troubles).status = (found.map status).foldl max troubles.status := by
  induction found generalizing troubles with
  | nil => rfl
  | cons first found ih => rw [List.foldl_cons, ih, status_join, List.map_cons, List.foldl_cons]

end Troubles

namespace Printer

variable {options : Options} {source : Source} {printed : Printed}

/-- A list is printed without a failure if each of its items is. -/
private theorem leaves_forM {α : Type} {items : List α} {printer : α → Printer Unit}
    (h : ∀ item printed, (printer item).Leaves printed (fun _ _ => True) fun _ => False) :
    (items.forM printer).Leaves printed (fun _ _ => True) fun _ => False := by
  induction items generalizing printed with
  | nil => trivial
  | cons item items ih => exact Stage.leaves_bind.2 ((h item printed).mono (fun _ _ _ => ih) fun _ => id)

private theorem printDiagnostics_leaves {reports : Diagnostics} :
    (printDiagnostics options source reports).Leaves printed (fun _ _ => True) fun _ => False := by
  refine leaves_forM fun report printed => ?_
  split
  · exact Stage.leaves_ofExcept_bind fun _ _ => trivial
  · trivial

/-- Whether a source has errors is what checking it tells, unless it ends in a fault. -/
private theorem checkSource_leaves (name : String) (content : List Char) :
    (checkSource options (.ofContent name content)).Leaves printed
      (fun hasErrors _ => hasErrors = (Source.ofContent name content).reports.hasErrors) fun _ => False := by
  obtain ⟨statements, program, reports, after, hstatements, hprogram, hclauses, hrender, -, -⟩ :=
    Source.exists_checked name content
  have htext := Source.areIn_lexemes name content
  have hshown : ∀ statement ∈ statements, ∃ shown,
      statement.render (Source.ofContent name content).text = .ok shown := by
    intro statement hmem
    obtain ⟨clause, span, rfl, hvalid, hlexemes⟩ := hclauses statement hmem
    exact hvalid.exists_render (fun lexeme hmem => htext lexeme (hlexemes lexeme hmem)) span
  have hreports : (Source.ofContent name content).reports = after := by
    rw [Source.reports, hstatements]
    exact congrArg Prod.snd hprogram
  obtain ⟨middle, hcheck⟩ := exists_checkSource options htext hstatements hprogram hshown hrender printed
  rw [Stage.Leaves, hcheck, hreports]
  show Stage.Leaves _ middle (fun hasErrors _ => hasErrors = after.hasErrors) fun _ => False
  refine Stage.leaves_bind.2 (printDiagnostics_leaves.mono (fun _ last _ => ?_) fun _ => id)
  obtain ⟨last, hsummary⟩ := exists_printSummary (Source.ofContent name content) after last
  rw [Stage.leaves_bind, Stage.Leaves, hsummary]
  rfl

private theorem exists_ofContent_of_load {path : String} {contents : Except ReadFailure ByteArray} {source : Source}
    (h : Source.load path contents = .ok source) : ∃ content, source = .ofContent path content := by
  unfold Source.load at h
  split at h
  · cases h
  · split at h
    · cases h
      exact ⟨_, rfl⟩
    · cases h

/-- Checking a file finds its troubles, unless it ends in a fault. -/
private theorem checkFile_leaves (path : String) (contents : Except ReadFailure ByteArray) :
    (checkFile options path contents .none).Leaves printed (fun found _ => found = fileTroubles path contents)
      fun _ => False := by
  rw [checkFile, fileTroubles]
  cases hload : Source.load path contents with
  | error failure => rfl
  | ok source =>
    obtain ⟨content, rfl⟩ := exists_ofContent_of_load hload
    refine Stage.leaves_bind.2 ((checkSource_leaves path content).mono (fun hasErrors _ h => ?_) fun _ => id)
    rw [h]
    rfl

/-- What a file is checked after matters only to what its troubles are added to. -/
private theorem checkFile_eq_bind (path : String) (contents : Except ReadFailure ByteArray) (troubles : Troubles) :
    checkFile options path contents troubles
      = checkFile options path contents .none >>= fun found => pure (troubles.join found) := by
  unfold checkFile
  split
  · rw [bind_assoc]
    simp [Troubles.join, Troubles.none]
  · rw [bind_assoc]
    simp [Troubles.join, Troubles.none]

/-! ### Runs -/

variable {read : String → Except ReadFailure ByteArray} {file : String} {files : List String}

/-- A file that is checked without a fault by itself is so after other files, and prints the same. -/
private theorem checkFile_eq {own : Printed}
    (h : checkFile options file (read file) .none .nothing = (.done (fileTroubles file (read file)), own))
    (troubles : Troubles) (printed : Printed) :
    checkFile options file (read file) troubles printed
      = (.done (troubles.join (fileTroubles file (read file))), printed.append own) := by
  have hadds : checkFile options file (read file) .none printed
      = (.done (fileTroubles file (read file)), printed.append own) := by
    rw [adds_checkFile, h]
  rw [checkFile_eq_bind, Stage.bind_of_done hadds]
  rfl

/-- Files that are checked without a fault add what they print on their own, one after the other. -/
private theorem checkFiles_eq {own : String → Printed}
    (h : ∀ file ∈ files, checkFile options file (read file) .none .nothing
      = (.done (fileTroubles file (read file)), own file)) (troubles : Troubles) (printed : Printed) :
    checkFiles options read files troubles printed
      = (.done ((files.map fun file => fileTroubles file (read file)).foldl Troubles.join troubles),
          printed.append (.join (files.map own))) := by
  induction files generalizing troubles printed with
  | nil =>
    simp only [List.map_nil, Printed.join_nil, Printed.append_nothing]
    rfl
  | cons file files ih =>
    obtain ⟨hfile, hfiles⟩ := List.forall_mem_cons.1 h
    rw [checkFiles, Stage.bind_of_done (checkFile_eq hfile troubles printed), ih hfiles, Printed.append_assoc,
      List.map_cons, List.map_cons, List.foldl_cons, Printed.join_cons]

end Printer

variable {parse : ArgumentParser} {read : String → Except ReadFailure ByteArray} {options : Options} {file : String}
  {files arguments : List String}

/-- Arguments that are taken for a request lead to the files being checked. -/
private theorem runCommand_eq (h : parse arguments = .ok { options, files }) : runCommand parse read arguments =
    (Printer.checkFiles options read files .none >>= fun troubles => pure troubles.status) .nothing := by
  rw [runCommand, Printer.command, h]
  rfl

/-- A run for a single file that ends without a fault finds the troubles with the file. -/
private theorem checkFile_of_runCommand {printed : Printed} {status : Nat}
    (hparse : parse arguments = .ok { options, files := [file] })
    (h : runCommand parse read arguments = (.done status, printed)) :
    Printer.checkFile options file (read file) .none .nothing = (.done (fileTroubles file (read file)), printed) ∧
      status = fileStatus file (read file) := by
  have hleaves : (Printer.checkFile options file (read file) .none).Leaves .nothing
      (fun found _ => found = fileTroubles file (read file)) fun _ => False :=
    Printer.checkFile_leaves file (read file)
  rw [Stage.Leaves] at hleaves
  have hfiles : Printer.checkFiles options read [file] .none = Printer.checkFile options file (read file) .none :=
    bind_pure _
  rw [runCommand_eq hparse, hfiles, Stage.bind_apply] at h
  generalize Printer.checkFile options file (read file) .none .nothing = result at h hleaves ⊢
  rcases result with ⟨found | _ | _, after⟩
  · obtain rfl : found = fileTroubles file (read file) := hleaves
    cases h
    exact ⟨rfl, status_fileTroubles file (read file)⟩
  · cases h
  · cases h

/-- A run for files of which none ends in a fault on its own prints what the runs for the single files print, one
after the other, and its status is the greatest of theirs: that of a file that cannot be loaded, of one with errors,
or of one without.  This is so for all arguments that are taken for these files and options, whatever parser of
arguments there is, as long as it accepts files one by one. -/
theorem runCommand_files (read : String → Except ReadFailure ByteArray) {flags : List String}
    (hparser : parse.AcceptsEach flags options) (haccepted : parse (flags ++ files) = .ok { options, files })
    (hruns : ∀ file ∈ files, ∃ status printed, runCommand parse read (flags ++ [file]) = (.done status, printed)) :
    (∀ file ∈ files, (runCommand parse read (flags ++ [file])).1 = .done (fileStatus file (read file))) ∧
      ∀ arguments, parse arguments = .ok { options, files } →
        runCommand parse read arguments =
          (.done ((files.map fun file => fileStatus file (read file)).foldl max 0),
            .join (files.map fun file => (runCommand parse read (flags ++ [file])).2)) := by
  have halone := hparser.alone files haccepted
  have hown : ∀ file ∈ files, Printer.checkFile options file (read file) .none .nothing
      = (.done (fileTroubles file (read file)), (runCommand parse read (flags ++ [file])).2) := by
    intro file hmem
    obtain ⟨status, printed, hrun⟩ := hruns file hmem
    rw [hrun]
    exact (checkFile_of_runCommand (halone file hmem) hrun).1
  refine ⟨fun file hmem => ?_, fun arguments hparse => ?_⟩
  · obtain ⟨status, printed, hrun⟩ := hruns file hmem
    rw [hrun, (checkFile_of_runCommand (halone file hmem) hrun).2]
  · have hstatus : (fun file => (fileTroubles file (read file)).status) = fun file => fileStatus file (read file) :=
      funext fun file => status_fileTroubles file (read file)
    rw [runCommand_eq hparse, Stage.bind_of_done (Printer.checkFiles_eq hown .none .nothing), Printed.nothing_append,
      Stage.pure_apply, Troubles.status_foldl_join, List.map_map]
    rw [Function.comp_def, hstatus]
    rfl

/-- A folder with a file that is empty and one that is not recognised. -/
def readEmptyOrWrong : String → Except ReadFailure ByteArray
  | "empty" => .ok "".toUTF8
  | "wrong" => .ok "@".toUTF8
  | _ => .error .missing

/-- What is printed about the file that is not recognised. -/
def printedWrong : Printed where
  output := "ERROR \"@\"\nEOF \"\"\n"
  errors := "wrong:1:1-1:1: error: this character is not recognized: `@`\n@\n~\nwrong: 1 error(s), 0 warning(s)\n"

/-- What is printed about a file that is missing. -/
def printedMissing : Printed where
  output := ""
  errors := "error: failed to read missing: No such file or directory (os error 2)\n"

/-- A file with errors, one that is missing and one without errors, after a flag and around it. -/
theorem runCommand_files_mixed :
    ArgumentParser.AcceptsEach parseArguments ["--dump-lex"] ⟨true, false, false, false⟩ ∧
      parseArguments ["--dump-lex", "wrong", "missing", "empty"]
        = .ok ⟨⟨true, false, false, false⟩, ["wrong", "missing", "empty"]⟩ ∧
      runCommand parseArguments readEmptyOrWrong ["--dump-lex", "wrong"] = (.done 1, printedWrong) ∧
      runCommand parseArguments readEmptyOrWrong ["--dump-lex", "missing"] = (.done 3, printedMissing) ∧
      runCommand parseArguments readEmptyOrWrong ["--dump-lex", "empty"] = (.done 0, ⟨"EOF \"\"\n", ""⟩) ∧
      runCommand parseArguments readEmptyOrWrong ["wrong", "--dump-lex", "missing", "empty"]
        = (.done 3, .join [printedWrong, printedMissing, ⟨"EOF \"\"\n", ""⟩]) := by
  have hparser : ArgumentParser.AcceptsEach parseArguments ["--dump-lex"] ⟨true, false, false, false⟩ :=
    acceptsEach_parseArguments (by decide +kernel) _
  have haccepted : parseArguments (["--dump-lex"] ++ ["wrong", "missing", "empty"])
      = .ok ⟨⟨true, false, false, false⟩, ["wrong", "missing", "empty"]⟩ := by decide +kernel
  have haround : parseArguments ["wrong", "--dump-lex", "missing", "empty"]
      = .ok ⟨⟨true, false, false, false⟩, ["wrong", "missing", "empty"]⟩ := by decide +kernel
  have hwrong : runCommand parseArguments readEmptyOrWrong ["--dump-lex", "wrong"] = (.done 1, printedWrong) := by
    decide +kernel
  have hmissing : runCommand parseArguments readEmptyOrWrong ["--dump-lex", "missing"] = (.done 3, printedMissing) := by
    decide +kernel
  have hempty : runCommand parseArguments readEmptyOrWrong ["--dump-lex", "empty"]
      = (.done 0, ⟨"EOF \"\"\n", ""⟩) := by
    decide +kernel
  obtain ⟨hstatus, hrun⟩ := runCommand_files readEmptyOrWrong hparser haccepted fun file hmem => by
    simp only [List.mem_cons, List.not_mem_nil, or_false] at hmem
    rcases hmem with rfl | rfl | rfl
    · exact ⟨_, _, hwrong⟩
    · exact ⟨_, _, hmissing⟩
    · exact ⟨_, _, hempty⟩
  refine ⟨hparser, haccepted, hwrong, hmissing, hempty, ?_⟩
  simp only [List.forall_mem_cons, List.singleton_append, hwrong, hmissing, hempty, Outcome.done.injEq] at hstatus
  obtain ⟨hstatusWrong, hstatusMissing, hstatusEmpty, -⟩ := hstatus
  rw [hrun _ haround]
  simp only [List.map_cons, List.map_nil, List.singleton_append, hwrong, hmissing, hempty, ← hstatusWrong,
    ← hstatusMissing, ← hstatusEmpty]
  rfl

end ExprLang
