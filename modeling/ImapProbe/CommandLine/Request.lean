import ImapProbe.CommandLine.Arguments
import ImapProbe.Profile.Basic
import ImapProbe.Storage.Path

/-!
# Requests

What a command line asks for. An option that is not given takes the value of its environment
variable, if it has one and that is set, or else its default.
-/

namespace ImapProbe

structure RunRequest where
  target : String
  corpus : Path
  extension : String
  adjustment : Adjustment
  bundle : Option Path
  /-- In seconds. -/
  timeout : Nat
  deriving DecidableEq, Repr

structure ImportRequest where
  file : Path
  host : String
  port : Nat
  user : String
  password : String
  mailbox : String
  transport : Transport
  /-- In seconds. -/
  timeout : Nat
  deriving DecidableEq, Repr

inductive Request where
  | run (r : RunRequest)
  | profiles
  | extractMails (directory : Path)
  | convertToCrlf (file : Path)
  | importMbox (r : ImportRequest)
  deriving DecidableEq, Repr

structure Invocation where
  profileFile : Option Path
  request : Request
  deriving DecidableEq, Repr

abbrev Environment := List (String × String)

namespace Request

/-- A number below a bound, with or without a plus sign. -/
def number? (bound : Nat) (s : String) : Option Nat :=
  let cs := s.toList
  let ds := if cs.head? = some '+' then cs.drop 1 else cs
  let n := Nat.ofDigitChars 10 ds 0
  if !ds.isEmpty && ds.all Char.isDigit && n < bound then some n else none

def port? (s : String) : Option Nat := number? UInt16.size s

def seconds? (s : String) : Option Nat := number? UInt64.size s

def passwordVariable : String := "AERO_CONFORMANCE_PASSWORD"

def profileFileVariable : String := "AERO_CONFORMANCE_CONFIG"

def runOptions : List OptionSpec :=
  [{ long := "extension" }, { long := "host" }, { long := "port" }, { long := "user" },
    { long := "password" }, { long := "mailbox" }, { long := "tls", valued := false },
    { long := "no-tls", valued := false }, { long := "ca-file" }, { long := "timeout" }]

def optional {α : Type} (given : Option String) (read : String → Option α) : Option (Option α) :=
  match given with
  | none => some none
  | some s => (read s).map some

def ofRun? (env : Environment) (args : List String) : Option RunRequest := do
  let a ← Arguments.read runOptions args
  match a.positionals with
  | [target, corpus] =>
    let port ← optional (a.value? "port") port?
    let timeout ← seconds? ((a.value? "timeout").getD "30")
    if a.has "tls" && a.has "no-tls" then none
    let transport :=
      if a.has "tls" then some Transport.tls
      else if a.has "no-tls" then some Transport.plain
      else none
    let adjustment : Adjustment :=
      { host := a.value? "host"
        port
        user := a.value? "user"
        password := (a.value? "password").or (env.lookup passwordVariable)
        mailbox := a.value? "mailbox"
        transport }
    return { target, corpus := ⟨corpus⟩, extension := (a.value? "extension").getD "eml",
             adjustment, bundle := (a.value? "ca-file").map Path.mk, timeout }
  | _ => none

def importOptions : List OptionSpec :=
  [{ long := "host", short := some 'H' }, { long := "port", short := some 'p' },
    { long := "user", short := some 'u' }, { long := "password", short := some 's' },
    { long := "mailbox", short := some 'm' }, { long := "tls", short := some 't', valued := false },
    { long := "timeout" }]

def ofImport? (env : Environment) (args : List String) : Option ImportRequest := do
  let a ← Arguments.read importOptions args
  match a.positionals with
  | [file] =>
    let port ← port? ((a.value? "port").getD "143")
    let user ← a.value? "user"
    let password ← (a.value? "password").or (env.lookup passwordVariable)
    let timeout ← seconds? ((a.value? "timeout").getD "30")
    return { file := ⟨file⟩, host := (a.value? "host").getD "localhost", port, user, password,
             mailbox := (a.value? "mailbox").getD "INBOX",
             transport := if a.has "tls" then .tls else .plain, timeout }
  | _ => none

/-- The one argument of a request without options. -/
def only? (args : List String) : Option Path := do
  let a ← Arguments.read [] args
  match a.positionals with
  | [p] => some ⟨p⟩
  | _ => none

def tool? (env : Environment) (args : List String) : Option Request := do
  let (_, name, rest) ← Arguments.readToName [] {} args
  match name with
  | "strip-expected" => (only? rest).map .extractMails
  | "unix2dos" => (only? rest).map .convertToCrlf
  | "mbox-to-imap" => (ofImport? env rest).map .importMbox
  | _ => none

end Request

namespace Invocation

/-- What a command line asks for; none when it is not well-formed. -/
def ofArguments? (env : Environment) (args : List String) : Option Invocation := do
  let (a, name, rest) ←
    Arguments.readToName [{ long := "config", short := some 'c' }] {} args
  let file := (a.value? "config").or (env.lookup Request.profileFileVariable)
  let request ← match name with
    | "run" => (Request.ofRun? env rest).map .run
    | "profiles" => do
      let a ← Arguments.read [] rest
      if a.positionals.isEmpty then some .profiles else none
    | "tools" => Request.tool? env rest
    | _ => none
  return ⟨file.map Path.mk, request⟩

end Invocation

end ImapProbe
