/-! # Errors of files and outputs

    Why a file cannot be read or written, in the words of the operating system, and why an output is
    not created. -/

namespace ActorIdl

/-- Why an operation on a file fails. -/
inductive IoError where
  | notFound
  | alreadyExists
  | notDirectory
  | isDirectory
  | nameTooLong
  | nulInPath
  | notUtf8
  /-- An input that is neither a file nor a directory. -/
  | noInput
deriving Repr, DecidableEq

/-- The wording of a file error. -/
def IoError.message : IoError → String
  | .notFound => "No such file or directory (os error 2)"
  | .alreadyExists => "File exists (os error 17)"
  | .notDirectory => "Not a directory (os error 20)"
  | .isDirectory => "Is a directory (os error 21)"
  | .nameTooLong => "File name too long (os error 36)"
  | .nulInPath => "file name contained an unexpected NUL byte"
  | .notUtf8 => "stream did not contain valid UTF-8"
  | .noInput => "no such file"

/-- Why an output is not created. -/
inductive OutputError where
  | alreadyCreated (path : String)
  | invalidPath (path : String)
  | io (path : String) (cause : IoError)
  | rejected (path : String)
deriving Repr, DecidableEq

/-- The wording of an output error. -/
def OutputError.message : OutputError → String
  | .alreadyCreated path => "`" ++ path ++ "` was already created in this build"
  | .invalidPath path => "`" ++ path ++ "` is not a relative output path"
  | .io path cause => "cannot write `" ++ path ++ "`: " ++ cause.message
  | .rejected path => "write to `" ++ path ++ "` rejected"

end ActorIdl
