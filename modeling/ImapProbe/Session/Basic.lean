import ImapProbe.Session.Examination

/-!
# Sessions

A session logs in, makes its mailbox anew and selects it, examines the messages of a corpus in
order, and takes leave. Taking leave changes no outcome: a mailbox that was selected is closed,
and the user is always logged out.
-/

namespace ImapProbe

inductive MailboxAction where
  | create
  | select
  deriving DecidableEq, Repr

def MailboxAction.text : MailboxAction → String
  | .create => "create"
  | .select => "select"

/-- What ends a session before its messages are examined to the last. -/
inductive SessionFault where
  | unreachable (host : String) (port : Nat) (cause : Fault)
  | loginRefused (completion : Completion)
  | mailboxRefused (action : MailboxAction) (name : String) (completion : Completion)
  | connectionLost (cause : Fault)
  deriving DecidableEq, Repr

def SessionFault.message : SessionFault → String
  | .unreachable host port cause =>
    "unable to connect to " ++ host ++ ":" ++ toString port ++ ": " ++ cause.message
  | .loginRefused completion => "login refused: " ++ completion.line
  | .mailboxRefused action name completion =>
    "unable to " ++ action.text ++ " mailbox " ++ name ++ ": " ++ completion.line
  | .connectionLost cause => "connection lost: " ++ cause.message

/-- What became of a corpus. -/
structure Report where
  profile : String
  messages : Nat
  /-- How many of them have both artifacts. -/
  described : Nat
  failures : List Failure
  deriving DecidableEq, Repr

/-- A connection to the server of a profile, and the files. -/
structure Session (σ : Type) extends Desk σ where
  profile : Profile
  /-- Whether the mailbox of the profile was selected. -/
  selected : Bool := false

namespace Session

variable {σ : Type} (via : Responder σ)

def call (c : Command) (s : Session σ) : Except SessionFault Response × Session σ :=
  let (answer, server) := via.call c s.server
  (answer.mapError .connectionLost, { s with server })

def logIn (s : Session σ) : Except SessionFault Unit × Session σ :=
  match s.call via (.login s.profile.user s.profile.password) with
  | (.error e, s) => (.error e, s)
  | (.ok r, s) => (if r.isGranted then .ok () else .error (.loginRefused r.completion), s)

/-- Gives a command on the mailbox that must be granted. -/
def insist (action : MailboxAction) (c : Command) (s : Session σ) :
    Except SessionFault Unit × Session σ :=
  match s.call via c with
  | (.error e, s) => (.error e, s)
  | (.ok r, s) =>
    (if r.isGranted then .ok ()
      else .error (.mailboxRefused action s.profile.mailbox r.completion), s)

/-- Deletes the mailbox, which may not exist, makes it anew and selects it. -/
def renewMailbox (s : Session σ) : Except SessionFault Unit × Session σ :=
  match s.call via (.delete s.profile.mailbox) with
  | (.error e, s) => (.error e, s)
  | (.ok _, s) =>
    match s.insist via .create (.create s.profile.mailbox) with
    | (.error e, s) => (.error e, s)
    | (.ok (), s) =>
      match s.insist via .select (.select s.profile.mailbox) with
      | (.error e, s) => (.error e, s)
      | (.ok (), s) => (.ok (), { s with selected := true })

/-- Examines messages in order, the first of them at a place in the corpus; counts those that are
described. -/
def examineFrom (p : Profile) (index : Nat) (described : Nat) (losses : Losses) :
    List Path → Desk σ → Except Fault (Nat × Losses) × Desk σ
  | [], desk => (.ok (described, losses), desk)
  | message :: rest, desk =>
    match examine via p index message losses desk with
    | (.error e, _, desk) => (.error e, desk)
    | (.ok done, losses, desk) =>
      examineFrom p (index + 1) (if done then described + 1 else described) losses rest desk

def examineAll (corpus : List Path) (s : Session σ) : Except SessionFault Report × Session σ :=
  match examineFrom via s.profile 0 0 {} corpus s.toDesk with
  | (.error e, desk) => (.error (.connectionLost e), { s with toDesk := desk })
  | (.ok (described, losses), desk) =>
    (.ok ⟨s.profile.id, corpus.length, described, losses.failures⟩, { s with toDesk := desk })

/-- Closes the mailbox if it was selected, and logs out. -/
def takeLeave (s : Session σ) : Desk σ :=
  let server := if s.selected then (via.call .close s.server).2 else s.server
  { s.toDesk with server := (via.call .logout server).2 }

def work (corpus : List Path) (s : Session σ) : Except SessionFault Report × Session σ :=
  match s.logIn via with
  | (.error e, s) => (.error e, s)
  | (.ok (), s) =>
    match s.renewMailbox via with
    | (.error e, s) => (.error e, s)
    | (.ok (), s) => s.examineAll via corpus

end Session

def converse {σ : Type} (via : Responder σ) (p : Profile) (corpus : List Path) (desk : Desk σ) :
    Except SessionFault Report × Desk σ :=
  let (outcome, s) := ({ toDesk := desk, profile := p } : Session σ).work via corpus
  (outcome, s.takeLeave via)

end ImapProbe
