import ImapProbe.Bytes

/-!
# Commands

What a client may ask of a server.
-/

namespace ImapProbe

inductive Command where
  | login (user password : String)
  | select (mailbox : String)
  | create (mailbox : String)
  | delete (mailbox : String)
  | append (mailbox : String) (message : Bytes)
  /-- The numbers of the messages, and the list of items. -/
  | fetch (messages items : String)
  | close
  | logout
  deriving DecidableEq, Repr

def Command.name : Command → String
  | .login .. => "LOGIN"
  | .select _ => "SELECT"
  | .create _ => "CREATE"
  | .delete _ => "DELETE"
  | .append .. => "APPEND"
  | .fetch .. => "FETCH"
  | .close => "CLOSE"
  | .logout => "LOGOUT"

end ImapProbe
