import ImapProbe.Client.Basic
import ImapProbe.Network.Certificate
import ImapProbe.Network.ServerName
import ImapProbe.Session.Visit

/-!
# Switchboards

A switchboard connects each call, whatever its address, to the next of some servers that say their
piece at once and hang up. None of them speaks TLS, so a call that starts TLS fails after the first
message of the client, and before it if the certificates or the name of the server are at fault.
-/

namespace ImapProbe

structure Dialling where
  transport : Transport
  host : String
  /-- Certificates to check that of the server against; with none, any will do. -/
  bundle : Option Path
  timeout : Duration

structure Switchboard where
  /-- What the servers to come say. -/
  waiting : List Bytes
  /-- What the client sent over each connection that was made; nothing where it started TLS. -/
  made : List (Option Bytes) := []
  deriving DecidableEq, Repr

namespace Switchboard

def sent (k : Connection) : Bytes :=
  k.log.flatMap fun
    | .sent octets => octets
    | .received _ => []

def note (s : Switchboard) (octets : Option Bytes) : Switchboard :=
  { s with made := s.made ++ [octets] }

/-- What stops a TLS session before its first message. -/
def tlsFault? (files : FileTree) (d : Dialling) : Option Fault :=
  let bundle : Except Fault Unit :=
    match d.bundle with
    | none => .ok ()
    | some path =>
      match files.read path with
      | .error e => .error (.io e)
      | .ok content => Certificate.checkAll (Bundle.certificates content)
  match bundle with
  | .error e => some e
  | .ok () => if ServerName.isValid d.host then none else some (.serverName d.host)

def dial (files : FileTree) (d : Dialling) (s : Switchboard) : Except Fault Client × Switchboard :=
  if d.host.toList.contains (Char.ofNat 0) then (.error (.io .nulInName), s)
  else match s.waiting with
    | [] => (.error (.io .connectionRefused), s)
    | piece :: waiting =>
      let s := { s with waiting }
      match d.transport with
      | .plain =>
        match Client.greet { script := [.chunk piece], timeout := d.timeout } with
        | (.error e, connection) => (.error e, s.note (some (sent connection)))
        | (.ok client, _) => (.ok client, s)
      | .tls =>
        match tlsFault? files d with
        | some e => (.error e, s.note (some []))
        | none => (.error (.io (if piece.isEmpty then .handshakeEnd else .notTls)), s.note none)

def network (bundle : Option Path) (timeout : Duration) : Network Switchboard Client where
  responder := Client.responder
  connect p files s := dial files ⟨p.transport, p.host, bundle, timeout⟩ s
  hangUp client s := s.note (some (sent client.connection))

end Switchboard

end ImapProbe
