import ImapProbe.Artifact
import ImapProbe.Profile.Basic
import ImapProbe.Session.Losses
import ImapProbe.Session.Responder
import ImapProbe.Storage.FileTree

/-!
# The examination of one message

A message is read, appended to the mailbox and fetched back once for each description, and each
answer is written beside the message. The first step that fails ends it: a fault of the connection
ends the whole session, any other problem makes the message a loss.
-/

namespace ImapProbe

/-- Where a session works: the server at the other end and the files. -/
structure Desk (σ : Type) where
  server : σ
  files : FileTree

/-- What a message can give up at while the connection holds. -/
inductive Problem where
  | refused (completion : Completion)
  | noData (d : Description)
  | io (cause : IoFault)
  deriving DecidableEq, Repr

def Problem.text (step : Step) : Problem → String
  | .refused completion => step.text ++ " refused: " ++ completion.line
  | .noData d => "no parenthesized data in the " ++ d.extension ++ " response"
  | .io cause => step.text ++ " failed: " ++ cause.text

inductive ExaminationFault where
  | problem (step : Step) (p : Problem)
  | connection (cause : Fault)
  deriving DecidableEq, Repr

/-- Where the artifact of a message is written: `m.eml`, `.x` and a body give `m.x.body`. -/
def artifactFile (message : Path) (suffix : String) (d : Description) : Path :=
  message.withName ((message.stem?.getD []) ++ suffix.toList ++ '.' :: d.extension.toList)

section

variable {σ : Type} (via : Responder σ)

/-- Gives a command to the server; a refusal is a problem of the message. -/
def demand (c : Command) (step : Step) (desk : Desk σ) :
    Except ExaminationFault Response × Desk σ :=
  match via.call c desk.server with
  | (.error e, server) => (.error (.connection e), { desk with server })
  | (.ok r, server) =>
    (if r.isGranted then .ok r else .error (.problem step (.refused r.completion)),
      { desk with server })

/-- Asks for one description and writes the answer beside the message. -/
def describe (p : Profile) (message : Path) (number : UInt32) (d : Description)
    (desk : Desk σ) : Except ExaminationFault Unit × Desk σ :=
  let digits := toString number.toNat
  match demand via (.fetch (digits ++ ":" ++ digits) d.items) (.fetch d) desk with
  | (.error e, desk) => (.error e, desk)
  | (.ok r, desk) =>
    let octets := artifact (r.parts "FETCH")
    if octets.isEmpty then (.error (.problem (.fetch d) (.noData d)), desk)
    else match desk.files.write (artifactFile message p.suffix d) octets with
      | .error e => (.error (.problem (.write d) (.io e)), desk)
      | .ok files => (.ok (), { desk with files })

def describeAll (p : Profile) (message : Path) (number : UInt32) :
    List Description → Desk σ → Except ExaminationFault Unit × Desk σ
  | [], desk => (.ok (), desk)
  | d :: rest, desk =>
    match describe via p message number d desk with
    | (.error e, desk) => (.error e, desk)
    | (.ok (), desk) => describeAll p message number rest desk

def attempt (p : Profile) (index : Nat) (message : Path) (losses : Losses) (desk : Desk σ) :
    Except ExaminationFault Unit × Desk σ :=
  match desk.files.read message with
  | .error e => (.error (.problem .read (.io e)), desk)
  | .ok content =>
    match demand via (.append p.mailbox content) .append desk with
    | (.error e, desk) => (.error e, desk)
    | (.ok _, desk) => describeAll via p message (losses.predict index) Description.all desk

/-- Examines a message: true when both artifacts were written, false when it gave up and is a loss,
a fault when the connection failed. -/
def examine (p : Profile) (index : Nat) (message : Path) (losses : Losses) (desk : Desk σ) :
    Except Fault Bool × Losses × Desk σ :=
  match attempt via p index message losses desk with
  | (.ok (), desk) => (.ok true, losses, desk)
  | (.error (.connection e), desk) => (.error e, losses, desk)
  | (.error (.problem step problem), desk) =>
    (.ok false, losses.add ⟨message, index, step, problem.text step⟩, desk)

end

end ImapProbe
