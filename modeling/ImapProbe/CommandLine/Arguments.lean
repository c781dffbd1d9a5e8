/-!
# Arguments of a command line

Arguments are read from left to right. An option has a long name, behind two hyphens, and it may
have a short one, behind one; its value is the next argument, or stands behind an equals sign, or
right behind the short name. Switches have no value, and several short ones may share a hyphen.
A value that is an argument of its own does not begin with a hyphen, unless it is one. What else
begins with a hyphen is an option up to two hyphens alone, and nothing is after them.
-/

namespace ImapProbe

structure OptionSpec where
  long : String
  short : Option Char := none
  valued : Bool := true
  deriving DecidableEq, Repr

structure Arguments where
  /-- Long names and values, the value of a switch being empty. -/
  options : List (String × String) := []
  positionals : List String := []
  /-- The option whose value comes next. -/
  pending : Option String := none
  /-- Whether two hyphens alone were read. -/
  literal : Bool := false
  deriving DecidableEq, Repr

namespace Arguments

def add (a : Arguments) (name value : String) : Option Arguments :=
  if a.options.any fun o => o.1 == name then none
  else some { a with options := a.options ++ [(name, value)] }

def value? (a : Arguments) (name : String) : Option String := a.options.lookup name

def has (a : Arguments) (name : String) : Bool := (a.value? name).isSome

def isOption (arg : List Char) : Bool := arg.head? == some '-' && arg != ['-']

/-- An option by its long name, with the value behind an equals sign. -/
def long (specs : List OptionSpec) (a : Arguments) (arg : List Char) : Option Arguments := do
  let name := String.ofList (arg.takeWhile (· != '='))
  let spec ← specs.find? fun s => s.long == name
  match spec.valued, arg.dropWhile (· != '=') with
  | true, [] => if a.has name then none else some { a with pending := some name }
  | true, _ :: value => a.add name (String.ofList value)
  | false, [] => a.add name ""
  | false, _ => none

/-- Options by their short names: switches, and at the end an option with a value. -/
def shorts (specs : List OptionSpec) (a : Arguments) : List Char → Option Arguments
  | [] => some a
  | c :: cs =>
    match specs.find? fun s => s.short == some c with
    | none => none
    | some spec =>
      if spec.valued then
        match cs with
        | [] => if a.has spec.long then none else some { a with pending := some spec.long }
        | '=' :: value => a.add spec.long (String.ofList value)
        | value => a.add spec.long (String.ofList value)
      else (a.add spec.long "").bind fun a => shorts specs a cs

def next (specs : List OptionSpec) (a : Arguments) (arg : String) : Option Arguments :=
  match a.pending with
  | some name =>
    if isOption arg.toList then none else { a with pending := none }.add name arg
  | none =>
    if a.literal || !isOption arg.toList then
      some { a with positionals := a.positionals ++ [arg] }
    else match arg.toList with
      | ['-', '-'] => some { a with literal := true }
      | '-' :: '-' :: rest => long specs a rest
      | _ :: rest => shorts specs a rest
      | [] => none

def read (specs : List OptionSpec) (args : List String) : Option Arguments := do
  let a ← args.foldlM (next specs) {}
  if a.pending.isSome then none else some a

/-- Reads arguments up to the name of a subcommand: what was read, the name, and the rest. -/
def readToName (specs : List OptionSpec) (a : Arguments) :
    List String → Option (Arguments × String × List String)
  | [] => none
  | arg :: rest =>
    match next specs a arg with
    | none => none
    | some a' =>
      if a'.literal then none
      else if a'.positionals.isEmpty then readToName specs a' rest
      else some (a, arg, rest)

end Arguments

end ImapProbe
