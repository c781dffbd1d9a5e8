import ImapProbe.Response

/-!
# Artifacts

An artifact is what a server said of a message, with the form it chose on the wire folded away: a
literal follows the line that announced it after a line ending. It starts at the first parenthesis.
-/

namespace ImapProbe

/-- The octets of parts in a row. -/
def folded (parts : List Part) : Bytes :=
  parts.flatMap fun
    | .line octets => octets
    | .literal announcement octets => announcement ++ Bytes.crlf ++ octets

/-- The folded octets from the first opening parenthesis on; none when there is none. -/
def artifact (parts : List Part) : Bytes := (folded parts).dropWhile (· != 40)

end ImapProbe
