import ExprLang.Source.Basic

/-!
# Loading sources

A source is loaded from the bytes of a file, which must be a text in UTF-8.
-/

namespace ExprLang

/-- Why a file cannot be read. -/
inductive ReadFailure where
  | missing
  | isDirectory
  | notDirectory
  | nameTooLong
  /-- The path holds the null character. -/
  | nullInName
  | other (reason : String)
  deriving DecidableEq, Repr

/-- The reason as the system words it. -/
def ReadFailure.reason : ReadFailure → String
  | missing => "No such file or directory (os error 2)"
  | isDirectory => "Is a directory (os error 21)"
  | notDirectory => "Not a directory (os error 20)"
  | nameTooLong => "File name too long (os error 36)"
  | nullInName => "file name contained an unexpected NUL byte"
  | other reason => reason

/-- Why a source cannot be loaded. -/
inductive LoadFailure where
  | unreadable (path : String) (failure : ReadFailure)
  | notText (path : String)
  deriving DecidableEq, Repr

/-- What is said about a source that cannot be loaded. -/
def LoadFailure.message : LoadFailure → String
  | unreadable path failure => s!"failed to read {path}: {failure.reason}"
  | notText path => s!"{path} is not valid UTF-8"

/-- The source at a path, where reading it gives bytes or a failure. -/
def Source.load (path : String) : Except ReadFailure ByteArray → Except LoadFailure Source
  | .error failure => .error (.unreadable path failure)
  | .ok bytes =>
    match String.fromUTF8? bytes with
    | some content => .ok (.ofContent path content.toList)
    | none => .error (.notText path)

end ExprLang
