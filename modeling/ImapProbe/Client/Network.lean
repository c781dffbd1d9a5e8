import ImapProbe.Client.Basic
import ImapProbe.Session.Visit

/-!
# Networks of one connection

A connection that is there from the start stands for a network. It is used once; what is left of it
is the state of the network at the end.
-/

namespace ImapProbe

def Network.ofConnection : Network Connection Client where
  responder := Client.responder
  connect _ _ k := Client.greet k
  hangUp c _ := c.connection

end ImapProbe
