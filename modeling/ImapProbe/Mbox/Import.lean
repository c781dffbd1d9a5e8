import ImapProbe.Session.Responder

/-!
# Importing a mailbox file

The messages are appended to a mailbox one after another, each once; a message that is refused is
not counted. A refused login or mailbox and any fault of the connection end the import, except
that the logout at its end may fail.
-/

namespace ImapProbe.Mbox

inductive ImportFault where
  | loginRefused (completion : Completion)
  | mailboxRefused (name : String) (completion : Completion)
  | connection (cause : Fault)
  deriving DecidableEq, Repr

def ImportFault.message : ImportFault → String
  | .loginRefused completion => "login refused: " ++ completion.line
  | .mailboxRefused name completion => "unable to select " ++ name ++ ": " ++ completion.line
  | .connection cause => cause.message

variable {σ : Type} (via : Responder σ)

/-- Appends messages and counts those that are accepted. -/
def appendAll (mailbox : String) (accepted : Nat) :
    List Bytes → σ → Except ImportFault Nat × σ
  | [], s => (.ok accepted, s)
  | message :: rest, s =>
    match via.call (.append mailbox message) s with
    | (.error e, s) => (.error (.connection e), s)
    | (.ok r, s) => appendAll mailbox (if r.isGranted then accepted + 1 else accepted) rest s

/-- Logs in, selects the mailbox, appends all messages and logs out. -/
def importAll (user password mailbox : String) (messages : List Bytes) (s : σ) :
    Except ImportFault Nat × σ :=
  match via.call (.login user password) s with
  | (.error e, s) => (.error (.connection e), s)
  | (.ok r, s) =>
    if !r.isGranted then (.error (.loginRefused r.completion), s)
    else match via.call (.select mailbox) s with
      | (.error e, s) => (.error (.connection e), s)
      | (.ok r, s) =>
        if !r.isGranted then (.error (.mailboxRefused mailbox r.completion), s)
        else match appendAll via mailbox 0 messages s with
          | (.error e, s) => (.error e, s)
          | (.ok accepted, s) => (.ok accepted, (via.call .logout s).2)

end ImapProbe.Mbox
