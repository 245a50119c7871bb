import ActorIdl.Build
/-! # Options

    The arguments of the command: inputs, options with values, and flags, in any order.  A long
    option takes its value after an equals sign or from the next argument, a short one also directly
    behind its letter.  After two dashes everything is an input.  An option is given at most once,
    and values are not empty. -/

namespace ActorIdl.CommandLine

/-- The word for a target on the command line. -/
def targetWord : EmitTarget → String
  | .all => "all"
  | .descriptors => "decls"
  | .plans => "plan"
  | .buildInfo => "build-info"

/-- The target that a word stands for. -/
def targetOfWord? (word : String) : Option EmitTarget :=
  [EmitTarget.all, .descriptors, .plans, .buildInfo].find? (targetWord · == word)

/-- What the arguments have said so far. -/
structure Options where
  inputs : List String
  outDir : Option String
  emit : Option EmitTarget
  verbose : Bool
deriving Repr, DecidableEq

/-- Why arguments make no sense. -/
inductive Misuse where
  /-- An option or an input without its value. -/
  | missingValue (name : String)
  | repeatedOption (name : String)
  | unknownTarget (value : String)
  | unknownOption (arg : String)
  | noInputs
deriving Repr, DecidableEq

/-- The wording of a misuse. -/
def Misuse.message : Misuse → String
  | missingValue name => "a value is required for " ++ name
  | repeatedOption name => name ++ " cannot be used multiple times"
  | unknownTarget value => "invalid value for --emit: " ++ value
  | unknownOption arg => "unexpected argument " ++ arg
  | noInputs => "no inputs were given"

/-- What the arguments ask for. -/
inductive Request where
  | build (options : Options)
  | help
  | version
  | misuse (cause : Misuse)
deriving Repr, DecidableEq

namespace Options

/-- No arguments. -/
def none : Options := ⟨[], .none, .none, false⟩

/-- With one more input. -/
def addInput (o : Options) (path : String) : Except Misuse Options :=
  if path = "" then .error (.missingValue "an input")
  else .ok { o with inputs := o.inputs ++ [path] }

/-- With an output directory. -/
def setOutDir (o : Options) (value : String) : Except Misuse Options :=
  if o.outDir.isSome then .error (.repeatedOption "--out-dir")
  else if value = "" then .error (.missingValue "--out-dir")
  else .ok { o with outDir := some value }

/-- With a target. -/
def setEmit (o : Options) (value : String) : Except Misuse Options :=
  if o.emit.isSome then .error (.repeatedOption "--emit")
  else match targetOfWord? value with
    | .none => .error (.unknownTarget value)
    | some target => .ok { o with emit := some target }

/-- With messages about everything. -/
def setVerbose (o : Options) : Except Misuse Options :=
  if o.verbose then .error (.repeatedOption "--verbose")
  else .ok { o with verbose := true }

/-- What the options ask for when there are no more arguments. -/
def finish (o : Options) : Request :=
  if o.inputs.isEmpty then .misuse .noInputs else .build o

end Options

/-- Whether an argument is an option and so no value of the option before it. -/
def isOption (arg : String) : Bool :=
  match arg.toList with
  | '-' :: _ :: _ => true
  | _ => false

/-- A long option: its name, and its value if it has an equals sign. -/
def splitLong (cs : List Char) : String × Option String :=
  (String.ofList (cs.takeWhile (· ≠ '=')),
    match cs.dropWhile (· ≠ '=') with
    | [] => none
    | _ :: value => some (String.ofList value))

/-- Reads arguments that are all inputs. -/
def readInputs (o : Options) : List String → Request
  | [] => o.finish
  | arg :: rest =>
    match o.addInput arg with
    | .error e => .misuse e
    | .ok o' => readInputs o' rest

/-- Reads arguments. -/
def readArgs (o : Options) : List String → Request
  | [] => o.finish
  | arg :: rest =>
    let next (set : String → Except Misuse Options) (option : String) : Request :=
      match rest with
      | [] => .misuse (.missingValue option)
      | value :: rest' =>
        if isOption value then .misuse (.missingValue option)
        else match set value with
          | .error e => .misuse e
          | .ok o' => readArgs o' rest'
    let with_ (set : Except Misuse Options) : Request :=
      match set with
      | .error e => .misuse e
      | .ok o' => readArgs o' rest
    match arg.toList with
    | ['-', '-'] => readInputs o rest
    | '-' :: '-' :: long =>
      match splitLong long with
      | ("out-dir", some value) => with_ (o.setOutDir value)
      | ("out-dir", none) => next o.setOutDir "--out-dir"
      | ("emit", some value) => with_ (o.setEmit value)
      | ("emit", none) => next o.setEmit "--emit"
      | ("verbose", none) => with_ o.setVerbose
      | ("help", none) => .help
      | ("version", none) => .version
      | _ => .misuse (.unknownOption arg)
    | '-' :: 'o' :: value =>
      match value with
      | [] => next o.setOutDir "-o"
      | '=' :: value => with_ (o.setOutDir (String.ofList value))
      | value => with_ (o.setOutDir (String.ofList value))
    | '-' :: 'h' :: _ => .help
    | '-' :: 'V' :: _ => .version
    | '-' :: _ :: _ => .misuse (.unknownOption arg)
    | _ => with_ (o.addInput arg)

/-- What the arguments of the command ask for. -/
def readRequest (args : List String) : Request := readArgs .none args

end ActorIdl.CommandLine
