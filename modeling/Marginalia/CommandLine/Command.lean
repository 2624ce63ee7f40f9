import Marginalia.Text.Split

/-!
# Commands

The arguments of the program name a command and say what it works on. Options may stand anywhere
after the command, and two dashes end them.
-/

namespace Marginalia.CommandLine

/-- What the program is asked to do. -/
inductive Command where
  | info (file : String)
  | annotate (file annotations : String) (fonts output name : Option String)
  | subset (font text : String) (output : Option String)
  | fetch (target : String) (config : Option String)
  | version
  deriving DecidableEq, Repr

/-- What may follow a command: options with their names, and whether each takes a path. -/
structure Grammar where
  options : List (String × Bool)
  operands : Nat
  operandIsPath : Bool

/-- What was found among the arguments; an option may be waiting for its value. -/
structure Scan where
  values : List (String × String)
  operands : List String
  pending : Option String
  ended : Bool

def isDashed (arg : String) : Bool := arg.startsWith "-" && arg != "-"

/-- Whether an argument asks for more log output. -/
def isVerbose (arg : String) : Bool :=
  arg == "--verbose" ||
    match arg.toList with
    | '-' :: letters => !letters.isEmpty && letters.all (· == 'v')
    | _ => false

/-- Give an option its value; an option is given once. -/
def Scan.set (s : Scan) (g : Grammar) (name value : String) : Option Scan :=
  match g.options.lookup name with
  | none => none
  | some isPath =>
    if (s.values.lookup name).isSome || (isPath && value.isEmpty) then none
    else some { s with values := s.values ++ [(name, value)], pending := none }

def Scan.operand (s : Scan) (g : Grammar) (arg : String) : Option Scan :=
  if g.operandIsPath && arg.isEmpty then none
  else some { s with operands := s.operands ++ [arg] }

def Scan.next (g : Grammar) (s : Scan) (arg : String) : Option Scan :=
  if s.ended then s.operand g arg
  else
    match s.pending with
    | some name => if isDashed arg then none else s.set g name arg
    | none =>
      if arg == "--" then some { s with ended := true }
      else if isVerbose arg then some s
      else
        match Text.dropPrefix? ['-', '-'] arg.toList with
        | some option =>
          match Text.splitAtFirst? ['='] option with
          | some (name, value) => s.set g (String.ofList name) (String.ofList value)
          | none =>
            if (g.options.lookup (String.ofList option)).isSome then
              some { s with pending := some (String.ofList option) }
            else none
        | none => if isDashed arg then none else s.operand g arg

def Grammar.scan? (g : Grammar) (args : List String) : Option Scan := do
  let s ← args.foldlM (Scan.next g) ⟨[], [], none, false⟩
  if s.pending.isSome ∨ s.operands.length ≠ g.operands then none else some s

def Scan.get? (s : Scan) (name : String) : Option String := s.values.lookup name

namespace Command

/-- The command of some arguments; nothing if they make none. -/
def ofArguments? (args : List String) : Option Command := do
  match args.dropWhile isVerbose with
  | "info" :: args =>
    let s ← Grammar.scan? ⟨[], 1, true⟩ args
    return .info (← s.operands.head?)
  | "export" :: args =>
    let s ← Grammar.scan?
      ⟨[("annotations", true), ("fonts", true), ("output", true), ("name", false)], 1, true⟩ args
    return .annotate (← s.operands.head?) (← s.get? "annotations") (s.get? "fonts")
      (s.get? "output") (s.get? "name")
  | "subset" :: args =>
    let s ← Grammar.scan? ⟨[("font", true), ("text", false), ("output", true)], 0, false⟩ args
    return .subset (← s.get? "font") (← s.get? "text") (s.get? "output")
  | "fetch" :: args =>
    let s ← Grammar.scan? ⟨[("config", true)], 1, false⟩ args
    return .fetch (← s.operands.head?) (s.get? "config")
  | "version" :: args =>
    let _ ← Grammar.scan? ⟨[], 0, false⟩ args
    return .version
  | _ => none

end Command

def usage : String := String.join [
  "Usage: pdf-markup-cli [-v] <COMMAND>\n\n",
  "Commands:\n",
  "  info <FILE>\n",
  "  export <FILE> --annotations <JSON> [--fonts <DIR>] [--output <FILE>] [--name <NAME>]\n",
  "  subset --font <TTF> --text <TEXT> [--output <FILE>]\n",
  "  fetch <ID|URL> [--config <FILE>]\n",
  "  version\n"]

end Marginalia.CommandLine
