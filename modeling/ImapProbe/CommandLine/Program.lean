import ImapProbe.CommandLine.Request
import ImapProbe.Corpus.Preparation
import ImapProbe.Mbox.Basic
import ImapProbe.Mbox.Import
import ImapProbe.Network.Switchboard
import ImapProbe.Profile.File
import ImapProbe.Profile.TestBed

/-!
# The program

A request is carried out at a site: the network and the files. No server is called and no file
changed before the target of a run and its corpus are known to be good.
-/

namespace ImapProbe

inductive ProgramFault where
  | profileFile (path : Path) (cause : ProfileFileFault)
  | roster (cause : RosterFault)
  | preparation (cause : PreparationFault)
  | unreadable (path : Path) (cause : IoFault)
  | connection (cause : Fault)
  | mbox (cause : Mbox.ImportFault)
  | endedEarly (ids : List String)
  deriving DecidableEq, Repr

/-- The fault without what it goes back to. -/
def ProgramFault.message : ProgramFault → String
  | .profileFile path _ => "unable to load profiles from " ++ path.text
  | .roster cause => cause.message
  | .preparation cause => cause.outline
  | .unreadable path _ => "unable to read " ++ path.text
  | .connection cause => cause.message
  | .mbox cause => cause.message
  | .endedEarly ids => toString ids.length ++ " profile(s) aborted: " ++ ", ".intercalate ids

/-- The message says what was being done, and not what went wrong with it. -/
def ProgramFault.hasCause : ProgramFault → Bool
  | .profileFile .. | .unreadable .. => true
  | .preparation (.directory ..) | .preparation (.unreadable ..) => true
  | _ => false

def openRoster (t : FileTree) : Option Path → Except ProgramFault Roster
  | some path => do
    let profiles ← (Profile.ofFile t path).mapError (.profileFile path)
    (Roster.ofProfiles profiles).mapError .roster
  | none => (Roster.ofProfiles TestBed.profiles).mapError .roster

section

variable {ν σ : Type} (net : Network ν σ)

/-- Gives the messages of a corpus to the servers of the selected profiles. -/
def survey (roster : Roster) (r : RunRequest) (site : Site ν) :
    Except ProgramFault Unit × Site ν :=
  match roster.choose r.target with
  | .error e => (.error (.roster e), site)
  | .ok profiles =>
    match openCorpus site.files r.corpus r.extension with
    | .error e => (.error (.preparation e), site)
    | .ok messages =>
      let (outcomes, site) := visitAll net messages (profiles.map (·.adjust r.adjustment)) site
      match endedEarly outcomes with
      | [] => (.ok (), site)
      | ids => (.error (.endedEarly ids), site)

end

def importMbox (r : ImportRequest) (site : Site Switchboard) :
    Except ProgramFault Unit × Site Switchboard :=
  match site.files.read r.file with
  | .error e => (.error (.unreadable r.file e), site)
  | .ok content =>
    let dialling : Dialling := ⟨r.transport, r.host, none, .ofSeconds r.timeout⟩
    match site.network.dial site.files dialling with
    | (.error e, network) => (.error (.connection e), { site with network })
    | (.ok client, network) =>
      let (outcome, client) :=
        Mbox.importAll Client.responder r.user r.password r.mailbox (Mbox.messages content) client
      let network := network.note (some (Switchboard.sent client.connection))
      (outcome.map (fun _ => ()) |>.mapError .mbox, { site with network })

/-- Carries out a request: what it prints or what kept it from being carried out, and the site. -/
def perform (i : Invocation) (site : Site Switchboard) :
    Except ProgramFault String × Site Switchboard :=
  match i.request with
  | .run r =>
    match openRoster site.files i.profileFile with
    | .error e => (.error e, site)
    | .ok roster =>
      let net := Switchboard.network r.bundle (.ofSeconds r.timeout)
      let (outcome, site) := survey net roster r site
      (outcome.map fun _ => "", site)
  | .profiles =>
    let lines (r : Roster) := String.join (r.profiles.map fun p => p.line ++ "\n")
    ((openRoster site.files i.profileFile).map lines, site)
  | .extractMails directory =>
    let (outcome, files) := TestVector.extractAll site.files directory
    (outcome.map (fun _ => "") |>.mapError .preparation, { site with files })
  | .convertToCrlf file =>
    match convertToCrlf site.files file with
    | .error e => (.error (.preparation e), site)
    | .ok files => (.ok "", { site with files })
  | .importMbox r =>
    let (outcome, site) := importMbox r site
    (outcome.map fun _ => "", site)

inductive Ending where
  | success (output : String)
  /-- With the first line of what went wrong. -/
  | failure (message : String)
  | usage
  deriving DecidableEq, Repr

def Ending.code : Ending → UInt8
  | .success _ => 0
  | .failure _ => 1
  | .usage => 2

def firstLine (s : String) : String :=
  let line := s.toList.takeWhile (· != '\n')
  String.ofList
    (if s.toList.contains '\n' && line.getLast? == some '\r' then line.dropLast else line)

/-- The first line of what is printed of a fault, where lines for its cause may follow the
message. -/
def ProgramFault.heading (e : ProgramFault) : String :=
  firstLine (if e.hasCause then e.message ++ "\n" else e.message)

def program (env : Environment) (args : List String) (site : Site Switchboard) :
    Ending × Site Switchboard :=
  match Invocation.ofArguments? env args with
  | none => (.usage, site)
  | some i =>
    match perform i site with
    | (.ok output, site) => (.success output, site)
    | (.error e, site) => (.failure e.heading, site)

end ImapProbe
