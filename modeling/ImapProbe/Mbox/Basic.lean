import ImapProbe.Text.Utf8

/-!
# Mailbox files

A mailbox file holds messages one after another. A line that begins with `From ` and a space
opens each; what precedes the first is no message. The empty line before the next opening line
belongs to the file, so one empty line at the end of a message is left out.
-/

namespace ImapProbe.Mbox

def opening : Bytes := utf8 "From "

/-- A message without the empty line at its end. -/
def trim (message : Bytes) : Bytes :=
  if (Bytes.crlf ++ Bytes.crlf).isSuffixOf message then message.take (message.length - 2)
  else if [Bytes.lf, Bytes.lf].isSuffixOf message then message.take (message.length - 1)
  else message

/-- The messages that are opened among some lines, and the one that was open before them. -/
def parted : Option Bytes → List Bytes → List Bytes
  | current, [] => (current.map trim).toList
  | current, line :: lines =>
    if opening.isPrefixOf line then (current.map trim).toList ++ parted (some []) lines
    else parted (current.map (· ++ line)) lines

def messages (file : Bytes) : List Bytes := parted none (Bytes.lines file)

end ImapProbe.Mbox
