/-!
# Server profiles

A profile says how to reach one server, as whom, in which mailbox to work and how to label what
the server answers. An adjustment takes the place of some of these values.
-/

namespace ImapProbe

inductive Transport where
  /-- In the clear, by custom on port 143. -/
  | plain
  /-- TLS from the first octet, by custom on port 993. -/
  | tls
  deriving DecidableEq, Repr

def Transport.text : Transport → String
  | .plain => "plain"
  | .tls => "tls"

structure Profile where
  id : String
  transport : Transport
  host : String
  port : Nat
  user : String
  password : String
  /-- Deleted and made anew by each run. -/
  mailbox : String
  /-- Stands between the stem of a message and the extension of an artifact. -/
  suffix : String
  deriving DecidableEq, Repr

/-- Values that take precedence over those of any profile. -/
structure Adjustment where
  host : Option String := none
  port : Option Nat := none
  user : Option String := none
  password : Option String := none
  mailbox : Option String := none
  transport : Option Transport := none
  deriving DecidableEq, Repr

def Profile.adjust (p : Profile) (a : Adjustment) : Profile :=
  { p with
    host := a.host.getD p.host
    port := a.port.getD p.port
    user := a.user.getD p.user
    password := a.password.getD p.password
    mailbox := a.mailbox.getD p.mailbox
    transport := a.transport.getD p.transport }

def Profile.line (p : Profile) : String :=
  p.id ++ "\t" ++ p.transport.text ++ "://" ++ p.host ++ ":" ++ toString p.port
    ++ "\tuser=" ++ p.user ++ "\tmailbox=" ++ p.mailbox ++ "\tsuffix=" ++ p.suffix

end ImapProbe
