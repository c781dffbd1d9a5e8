import ImapProbe.Base64
import ImapProbe.Text.Duration
import ImapProbe.Text.Quoted

/-!
# What can go wrong on a connection or a file

Each fault is a cause; `text` and `message` word it. A command that cannot be encoded is told from
all others, as it leaves the connection as it was (`Fault.isEncoding`).
-/

namespace ImapProbe

inductive IoFault where
  | noSuchFile
  | notDirectory
  | isDirectory
  | nameTooLong
  | tooManyLinks
  | connectionRefused
  | connectionReset
  | connectionAborted
  | unexpectedEnd
  | brokenPipe
  | nulInName
  | notUtf8
  | handshakeEnd
  | notTls
  | openSection (kind : String)
  | illegalSection (line : String)
  | base64 (cause : Base64Fault)
  | other (text : String)
  deriving DecidableEq, Repr

def IoFault.text : IoFault → String
  | .noSuchFile => "No such file or directory (os error 2)"
  | .notDirectory => "Not a directory (os error 20)"
  | .isDirectory => "Is a directory (os error 21)"
  | .nameTooLong => "File name too long (os error 36)"
  | .tooManyLinks => "Too many levels of symbolic links (os error 40)"
  | .connectionRefused => "Connection refused (os error 111)"
  | .connectionReset => "connection reset"
  | .connectionAborted => "connection aborted"
  | .unexpectedEnd => "unexpected end of file"
  | .brokenPipe => "broken pipe"
  | .nulInName => "file name contained an unexpected NUL byte"
  | .notUtf8 => "stream did not contain valid UTF-8"
  | .handshakeEnd => "tls handshake eof"
  | .notTls => "received corrupt message of type InvalidContentType"
  | .openSection kind => "section end " ++ quoted kind ++ " missing"
  | .illegalSection line => "illegal section start: " ++ quoted line
  | .base64 cause => cause.text
  | .other text => text

inductive CertificateFault where
  | badEncoding
  /-- The signed part names another algorithm than the signature has. -/
  | otherAlgorithm
  /-- A critical extension that is not known. -/
  | unknownExtension
  | repeatedExtension
  deriving DecidableEq, Repr

def CertificateFault.text : CertificateFault → String
  | .badEncoding => "BadEncoding"
  | .otherAlgorithm => "Other(OtherError(SignatureAlgorithmMismatch))"
  | .unknownExtension => "Other(OtherError(UnsupportedCriticalExtension))"
  | .repeatedExtension => "Other(OtherError(ExtensionValueInvalid))"

inductive TlsFault where
  | certificate (cause : CertificateFault)
  | general (text : String)
  deriving DecidableEq, Repr

def TlsFault.text : TlsFault → String
  | .certificate cause => "invalid peer certificate: " ++ cause.text
  | .general text => "unexpected error: " ++ text

/-- The arguments of commands that are named when they hold an octet no form of them can carry. -/
inductive ArgumentName where
  | username
  | password
  | mailbox
  | data
  deriving DecidableEq, Repr

def ArgumentName.text : ArgumentName → String
  | .username => "Username"
  | .password => "Password"
  | .mailbox => "Mailbox"
  | .data => "Data"

inductive EncodingFault where
  | sequenceSet
  | emptyTag
  | octet (byte : UInt8) (offset : Nat)
  | argument (name : ArgumentName) (byte : UInt8) (offset : Nat)
  | unsupportedItem (name : String)
  | noItem (items : String)
  | other (text : String)
  deriving DecidableEq, Repr

/-- A value that failed validation, with what was wrong with it. -/
def EncodingFault.invalid (kind : String) : String :=
  "ValidationError \x7b kind: " ++ kind ++ " \x7d"

def EncodingFault.octetText (byte : UInt8) (offset : Nat) : String :=
  invalid ("InvalidByteAt \x7b byte: " ++ toString byte.toNat ++ ", at: " ++ toString offset
    ++ " \x7d")

def EncodingFault.text : EncodingFault → String
  | .sequenceSet => invalid "Invalid"
  | .emptyTag => invalid "Empty"
  | .octet byte offset => octetText byte offset
  | .argument name byte offset => name.text ++ "(" ++ octetText byte offset ++ ")"
  | .unsupportedItem name => "unsupported fetch item `" ++ name ++ "`"
  | .noItem items => "no fetch item in `" ++ items ++ "`"
  | .other text => text

inductive Malformation where
  /-- More octets than the limit, which is given. -/
  | oversized (limit : Nat)
  | strayContinuation (tag : String)
  | foreignTag (got expected : String)
  /-- A line of no known form, or a reason in words. -/
  | line (text : String)
  deriving DecidableEq, Repr

def Malformation.text : Malformation → String
  | .oversized limit => "server message bigger than " ++ toString limit ++ " bytes"
  | .strayContinuation tag =>
    "continuation request while no literal is pending for " ++ tag
  | .foreignTag got expected =>
    "got completion for tag " ++ got ++ " while waiting for " ++ expected
  | .line text => text

inductive Fault where
  | io (cause : IoFault)
  | tls (cause : TlsFault)
  | serverName (host : String)
  | greeting (text : String)
  | bye (text : String)
  | encoding (cause : EncodingFault)
  | malformed (cause : Malformation)
  | closed
  | timeout (limit : Duration)
  deriving DecidableEq, Repr

namespace Fault

def message : Fault → String
  | .io cause => cause.text
  | .tls cause => cause.text
  | .serverName host => "invalid server name `" ++ host ++ "`"
  | .greeting text => "server did not greet us properly: " ++ text
  | .bye text => "server ended the session: " ++ text
  | .encoding cause => "unable to encode command: " ++ cause.text
  | .malformed cause => "malformed server response: " ++ cause.text
  | .closed => "connection closed by server"
  | .timeout limit => "no answer from server after " ++ limit.text

/-- The command was never sent: it has no form on the wire. -/
def isEncoding : Fault → Bool
  | .encoding _ => true
  | _ => false

end Fault

end ImapProbe
