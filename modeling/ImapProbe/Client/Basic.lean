import ImapProbe.Client.Connection
import ImapProbe.Command.Form
import ImapProbe.Session.Responder
import ImapProbe.Wire.Reading

/-!
# Clients

A client gives each command a tag of its own, writes it, and reads messages up to the completion
under that tag; the data it meets are part of the answer. Before each literal it waits until the
server asks for it; a server that completes the command instead gets nothing more of it. What a
command that failed left unread is what the next one reads. The journal of a client tells what it
did, in order.
-/

namespace ImapProbe

open Wire

inductive Deed where
  /-- It put octets into the queue of its connection. -/
  | wrote (octets : Bytes)
  /-- It flushed the queue, and these octets were sent. -/
  | flushed (octets : Bytes)
  /-- It asked its connection for octets. -/
  | pulled (found : Except Fault Bytes)
  /-- It took a message, or learned that one was refused. -/
  | took (found : Except Malformation Message)
  deriving Repr

structure Client where
  connection : Connection
  assembler : Assembler
  issued : Nat := 0
  journal : List Deed := []
  deriving Repr

namespace Client

def note (d : Deed) (c : Client) : Client := { c with journal := c.journal ++ [d] }

@[simp] theorem connection_note (d : Deed) (c : Client) : (c.note d).connection = c.connection :=
  rfl

@[simp] theorem assembler_note (d : Deed) (c : Client) : (c.note d).assembler = c.assembler := rfl

@[simp] theorem issued_note (d : Deed) (c : Client) : (c.note d).issued = c.issued := rfl

@[simp] theorem journal_note (d : Deed) (c : Client) : (c.note d).journal = c.journal ++ [d] := rfl

def write (octets : Bytes) (c : Client) : Client :=
  { c with connection := c.connection.write octets }.note (.wrote octets)

def flush (c : Client) : Except Fault Unit × Client :=
  let (done, connection) := c.connection.flush
  (done, { c with connection }.note (.flushed c.connection.accepted))

/-- A message with more octets is refused. -/
def greatestMessage : Nat := 64 * 1024 * 1024

/-- Bounds what is still to be read. -/
def bound (c : Client) : Nat := 2 * c.connection.bound + c.assembler.cutter.effort

/-- Reads up to the end of one message. -/
def nextMessage (c : Client) : Except Fault Message × Client :=
  match c.assembler.next with
  | (some (.ok m), assembler) => (.ok m, { c with assembler }.note (.took (.ok m)))
  | (some (.error e), assembler) =>
    (.error (.malformed e), { c with assembler }.note (.took (.error e)))
  | (none, assembler) =>
    match _h : c.connection.pull with
    | (.error e, connection) =>
      (.error e, { c with assembler, connection }.note (.pulled (.error e)))
    | (.ok octets, connection) =>
      nextMessage ({ c with assembler := assembler.feed octets, connection }.note
        (.pulled (.ok octets)))
termination_by c.connection.bound
decreasing_by
  have := Connection.bound_pull _h
  simp only [connection_note]
  omega

theorem bound_nextMessage (c : Client) {m : Message} (h : c.nextMessage.1 = .ok m) :
    c.nextMessage.2.bound < c.bound := by
  fun_induction nextMessage c with
  | case1 c m assembler hn =>
    have := (Assembler.effort_next c.assembler).1 (by rw [hn]; rfl)
    rw [hn] at this
    simp only [bound, connection_note, assembler_note] at this ⊢
    omega
  | case2 => simp at h
  | case3 => simp at h
  | case4 c assembler hn octets connection hp ih =>
    have he := (Assembler.effort_next c.assembler).2 (by rw [hn])
    have hb := Connection.bound_pull hp
    have := ih h
    rw [hn] at he
    simp only [bound, connection_note, assembler_note, Assembler.feed, Cutter.effort_feed]
      at he this ⊢
    omega

def nextReading (c : Client) : Except Fault Reading × Client :=
  match c.nextMessage with
  | (.error e, c) => (.error e, c)
  | (.ok m, c) => (m.read.mapError .malformed, c)

theorem bound_nextReading {c c' : Client} {r : Reading} (h : c.nextReading = (.ok r, c')) :
    c'.bound < c.bound := by
  unfold nextReading at h
  split at h
  · simp at h
  · rename_i m c'' hm
    have := bound_nextMessage c (m := m) (by rw [hm])
    simp only [Prod.mk.injEq] at h
    rw [hm] at this
    rw [← h.2]
    exact this

/-- A message that brings no data. -/
inductive Stop where
  | goAhead
  | completed (tag : String) (completion : Completion)
  deriving DecidableEq, Repr

/-- The lines of parts, without their literals. -/
def linesText (parts : List Part) : String :=
  String.join (parts.map fun
    | .line octets => lossy octets
    | .literal announcement _ => lossy announcement)

/-- Reads data up to a message that brings none. A server that says BYE ends the session, unless the
client asked for that. -/
def gather (leaving : Bool) (data : List ServerData) (c : Client) :
    Except Fault (List ServerData × Stop) × Client :=
  match _h : c.nextReading with
  | (.error e, c) => (.error e, c)
  | (.ok .goAhead, c) => (.ok (data, .goAhead), c)
  | (.ok (.completed tag completion), c) => (.ok (data, .completed tag completion), c)
  | (.ok (.data d), c') =>
    if d.name = "BYE" ∧ !leaving then (.error (.bye (linesText d.parts)), c')
    else gather leaving (data ++ [d]) c'
termination_by c.bound
decreasing_by exact bound_nextReading _h

/-- The answer that a completion makes, if it is for the given tag. -/
def settle (tag got : String) (completion : Completion) (data : List ServerData) :
    Except Fault Response :=
  if got = tag then .ok ⟨completion, data⟩
  else .error (.malformed (.foreignTag got tag))

/-- Writes the fragments of a command, each literal when the server asks for it, and reads the
answer. -/
def carryOut (tag : String) (leaving : Bool) :
    List Fragment → List ServerData → Client → Except Fault Response × Client
  | [], data, c =>
    match c.flush with
    | (.error e, c) => (.error e, c)
    | (.ok (), c) =>
      match gather leaving data c with
      | (.error e, c) => (.error e, c)
      | (.ok (_, .goAhead), c) => (.error (.malformed (.strayContinuation tag)), c)
      | (.ok (data, .completed got completion), c) => (settle tag got completion data, c)
  | .line octets :: rest, data, c => carryOut tag leaving rest data (c.write octets)
  | .literal octets :: rest, data, c =>
    match c.flush with
    | (.error e, c) => (.error e, c)
    | (.ok (), c) =>
      match gather leaving data c with
      | (.error e, c) => (.error e, c)
      | (.ok (data, .goAhead), c) => carryOut tag leaving rest data (c.write octets)
      | (.ok (data, .completed got completion), c) => (settle tag got completion data, c)

/-- The tag of the `n`-th command, counted from zero: its number has four digits at least. -/
def tag (n : Nat) : String :=
  let digits := Nat.toDigits 10 (n + 1)
  "A" ++ String.ofList (List.replicate (4 - digits.length) '0' ++ digits)

/-- Gives a command and reads the answer. A command with no form uses no tag. -/
def call (command : Command) (c : Client) : Except Fault Response × Client :=
  match command.pieces with
  | .error e => (.error (.encoding e), c)
  | .ok pieces =>
    let tag := tag c.issued
    carryOut tag (command == .logout) (Command.written tag pieces) []
      { c with issued := c.issued + 1 }

def responder : Responder Client := ⟨call⟩

/-- Reads the greeting that opens a session. On a failure the connection is what is left. -/
def greet (connection : Connection) : Except Fault Client × Connection :=
  match nextMessage { connection, assembler := { limit := greatestMessage } } with
  | (.error e, c) => (.error e, c.connection)
  | (.ok m, c) => (m.welcome.map fun _ => c, c.connection)

end Client

end ImapProbe
