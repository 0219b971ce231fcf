/-!
# Command-line arguments

Both commands take the path of an image, a flag that asks for statistics, a flag that asks for
more detail in the log and may be repeated, and flags that ask for help and for the version. The
arguments are read from left to right. The first one that is out of order, or that asks for help or
for the version, decides, and nothing after it matters. After `--` every argument is a path.
-/

namespace CellMachine.Command

/-- What the arguments of a command ask for. -/
structure Options where
  /-- The path of the image, if one is given. -/
  image : Option String := none
  /-- Whether to report the statistics of the run. -/
  statistics : Bool := false
  /-- How often more detail in the log is asked for. -/
  verbosity : Nat := 0
  deriving DecidableEq, Repr

/-- What is wrong with the arguments of a command. -/
inductive UsageError where
  /-- There is no such option, or the option takes no value. -/
  | unknownOption (option : String)
  /-- The option may be given once only. -/
  | repeatedOption (option : String)
  /-- There is one path already. -/
  | surplusArgument (argument : String)
  /-- The path of the image is empty. -/
  | emptyImage
  deriving DecidableEq, Repr

/-- The wording of a usage error. -/
def UsageError.message : UsageError → String
  | unknownOption option => "unexpected argument '" ++ option ++ "'"
  | repeatedOption option => "the argument '" ++ option ++ "' cannot be used multiple times"
  | surplusArgument argument => "unexpected argument '" ++ argument ++ "'"
  | emptyImage => "a value is required for the image"

/-- Why the arguments are not read to their end. -/
inductive Stop where
  /-- Help is asked for. -/
  | help
  /-- The version is asked for. -/
  | version
  /-- The arguments are out of order. -/
  | usage (error : UsageError)
  deriving DecidableEq, Repr

namespace Options

/-- Asks for more detail in the log once more. -/
def moreDetail (options : Options) : Options :=
  { options with verbosity := min 255 (options.verbosity + 1) }

/-- Takes a path. -/
def takePath (options : Options) (path : String) : Except Stop Options :=
  if path = "" then .error (.usage .emptyImage)
  else
    match options.image with
    | none => .ok { options with image := some path }
    | some _ => .error (.usage (.surplusArgument path))

/-- Takes the letters of an argument that starts with one hyphen. -/
def takeLetters (options : Options) : List Char → Except Stop Options
  | [] => .ok options
  | 'v' :: rest => options.moreDetail.takeLetters rest
  | 'h' :: _ => .error .help
  | 'V' :: _ => .error .version
  | c :: _ => .error (.usage (.unknownOption (String.ofList ['-', c])))

/-- Takes an argument that starts with two hyphens. -/
def takeWord (options : Options) (argument : String) : Except Stop Options :=
  if argument = "--stats" then
    if options.statistics then .error (.usage (.repeatedOption argument))
    else .ok { options with statistics := true }
  else if argument = "--verbose" then .ok options.moreDetail
  else if argument = "--help" then .error .help
  else if argument = "--version" then .error .version
  else .error (.usage (.unknownOption argument))

/-- Takes an argument. A hyphen that stands alone is a path. -/
def take (options : Options) (argument : String) : Except Stop Options :=
  match argument.toList with
  | '-' :: '-' :: _ => options.takeWord argument
  | '-' :: c :: letters => options.takeLetters (c :: letters)
  | _ => options.takePath argument

/-- Takes the arguments that are left, from left to right. -/
def takeAll (options : Options) : List String → Except Stop Options
  | [] => .ok options
  | argument :: rest =>
    if argument = "--" then rest.foldlM takePath options
    else do (← options.take argument).takeAll rest

/-- Reads the arguments of a command. -/
def parse (arguments : List String) : Except Stop Options :=
  takeAll {} arguments

end Options

end CellMachine.Command
