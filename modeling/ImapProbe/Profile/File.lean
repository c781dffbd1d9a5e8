import ImapProbe.Profile.Roster
import ImapProbe.Storage.FileTree
import ImapProbe.Toml.Document

/-!
# Profile files

A TOML document gives profiles as the array of tables `profile`. The host may be left out and is
then the local one; every other key of a profile must be there once, and unknown keys say nothing.
-/

namespace ImapProbe

inductive ProfileFileFault where
  | io (cause : IoFault)
  | toml
  deriving DecidableEq, Repr

namespace Profile

open Toml (Value Entries)

def text? : Value → Option String
  | .string s => some s
  | _ => none

def port? : Value → Option Nat
  | .integer n => if 0 ≤ n ∧ n < UInt16.size then some n.toNat else none
  | _ => none

/-- A transport by its name, alone or as the one key of a table between braces. -/
def transport? : Value → Option Transport
  | .string "plain" | .table .braces [("plain", .table _ [])] => some .plain
  | .string "tls" | .table .braces [("tls", .table _ [])] => some .tls
  | _ => none

/-- The value of a key that stands in a table at most once. -/
def at? (entries : Entries) (key : String) : Option (Option Value) :=
  match entries.filter fun e => e.1 == key with
  | [] => some none
  | [(_, v)] => some (some v)
  | _ => none

def the? {α : Type} (entries : Entries) (key : String) (read : Value → Option α) : Option α := do
  read (← ← at? entries key)

def localHost : String := "localhost"

def ofEntries (entries : Entries) : Option Profile := do
  let host ← match ← at? entries "host" with
    | some v => text? v
    | none => some localHost
  return {
    id := ← the? entries "id" text?
    transport := ← the? entries "transport" transport?
    host
    port := ← the? entries "port" port?
    user := ← the? entries "user" text?
    password := ← the? entries "password" text?
    mailbox := ← the? entries "mailbox" text?
    suffix := ← the? entries "suffix" text? }

/-- A profile from a table, or from the values of all its keys in order. -/
def ofValue : Value → Option Profile
  | .table _ entries => ofEntries entries
  | .array [id, transport, host, port, user, password, mailbox, suffix] =>
    ofEntries [("id", id), ("transport", transport), ("host", host), ("port", port),
      ("user", user), ("password", password), ("mailbox", mailbox), ("suffix", suffix)]
  | _ => none

def ofDocument (text : String) : Option (List Profile) := do
  match ← at? (← Toml.document text) "profile" with
  | none => some []
  | some (.array values) => values.mapM ofValue
  | some _ => none

def ofFile (t : FileTree) (path : Path) : Except ProfileFileFault (List Profile) :=
  match t.read path with
  | .error e => .error (.io e)
  | .ok content =>
    match strict? content with
    | none => .error (.io .notUtf8)
    | some text =>
      match ofDocument text with
      | none => .error .toml
      | some profiles => .ok profiles

end Profile

end ImapProbe
