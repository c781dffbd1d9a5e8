import ImapProbe.Proofs.Client.Conduct
import ImapProbe.Proofs.Client.Hearing

/-!
# Turns of a client

A client that was greeted takes turns, one for each command, whatever came of those before. All of
them keep one invariant (`Reached`): the journal of the client tells how it came from the start of
the connection to where it is, and nothing waits in its queue that the peer might still take. The
deeds of the turns, in a row, are what the journal has more than before (`turns_reached`).
-/

namespace ImapProbe

open Wire

/-- A command that a client was given, with the client before and after. -/
structure Turn where
  command : Command
  before : Client
  answer : Except Fault Response
  after : Client

namespace Client

/-- The turns a client takes when it is given commands one after another. -/
def turns : List Command → Client → List Turn
  | [], _ => []
  | command :: rest, c =>
    let (answer, c') := c.call command
    ⟨command, c, answer, c'⟩ :: turns rest c'

/-- A client that has done nothing on its connection. -/
def start (k : Connection) : Client :=
  { connection := k, assembler := { limit := greatestMessage } }

end Client

namespace Turn

def deeds (t : Turn) : List Deed := t.after.journal.drop t.before.journal.length

def tag (t : Turn) : String := Client.tag t.before.issued

/-- The fragments of the command, none when it has no form. -/
def fragments (t : Turn) : List Fragment :=
  match t.command.pieces with
  | .ok pieces => Command.written t.tag pieces
  | .error _ => []

/-- The messages consumed during a turn. -/
def share (t : Turn) : List (Except Malformation Message) := Journal.taken t.deeds

end Turn

theorem Did.reissue {c c' : Client} {j : List Deed} (h : Did c j c') (n : Nat) :
    Did { c with issued := n } j { c' with issued := n } :=
  ⟨h.journal, rfl, h.queue, h.log, h.budget, h.script, h.frames⟩

namespace Client

structure Reached (k : Connection) (c : Client) : Prop where
  settled : Settled c
  did : Did { start k with issued := c.issued } c.journal c

section Runs

variable {k k' : Connection} {c c' : Client}

theorem nextMessage_reached {r : Except Fault Message} (h : (start k).nextMessage = (r, c))
    (hk : k.queued = []) : Reached k c := by
  obtain ⟨j, hd, hs, -⟩ := nextMessage_did h
  have hj : c.journal = j := hd.journal
  exact ⟨.inl (hs.1.trans hk), hj ▸ hd.reissue _⟩

/-- A greeting that is refused leaves no client, and any other leaves the one that read it. -/
theorem greet_ok (h : greet k = (.ok c, k')) :
    ∃ m, (start k).nextMessage = (.ok m, c) := by
  unfold greet at h
  rcases hm : (start k).nextMessage with ⟨e | m, c₁⟩ <;> rw [start] at hm <;> rw [hm] at h <;>
    simp only [Prod.mk.injEq] at h
  · simp at h
  · rcases hw : m.welcome with e | words <;> rw [hw] at h <;> simp [Except.map] at h
    exact ⟨m, by rw [h.1]⟩

theorem greet_reached (h : greet k = (.ok c, k')) (hk : k.queued = []) :
    Reached k c ∧ SameOutput (start k) c ∧ c.issued = 0
      ∧ ∃ greeting, Journal.taken c.journal = [.ok greeting] := by
  obtain ⟨m, hm⟩ := greet_ok h
  obtain ⟨j, hd, hs, hf⟩ := nextMessage_did hm
  have hj : c.journal = j := hd.journal
  exact ⟨nextMessage_reached hm hk, hs, hd.issued, m, hj ▸ hf.taken_ok⟩

/-- A greeting that lets a session start does so, however it arrives. -/
theorem greet_hears {u : Utterance} (words : String) {chunks : List Bytes} {rest : List Event}
    {stream : Bytes} (hu : u.octets.length ≤ greatestMessage) (hw : u.message.welcome = .ok words)
    (hscript : k.script = chunks.map .chunk ++ rest)
    (hstream : chunks.flatten = u.octets ++ stream) :
    ∃ chunks' c k', greet k = (.ok c, k') ∧ Ahead c chunks' rest stream := by
  have h : Ahead (start k) chunks rest (u.octets ++ stream) := ⟨hscript, by rw [hstream]; rfl⟩
  obtain ⟨chunks', c, hm, h'⟩ := nextMessage_hears hu chunks (start k) h
  rw [start] at hm
  exact ⟨chunks', c, _, by simp only [greet, hm, hw]; rfl, h'⟩

def hello : Utterance where
  literals := []
  last := ⟨utf8 "* OK hi", .crlf, by decide, by decide⟩
  plain := Announcing.not_announces (by rfl : _ = .other) (by simp)

theorem greet_hello {script : List Event} {timeout : Duration} {budget : Option Nat}
    {stream : Bytes} (chunks : List Bytes) {rest : List Event}
    (hscript : script = chunks.map .chunk ++ rest)
    (hstream : chunks.flatten = hello.octets ++ stream) :
    ∃ chunks' c k', greet { script, timeout, budget } = (.ok c, k') ∧ Ahead c chunks' rest stream :=
  greet_hears "hi" (by decide) (by rfl) hscript hstream

theorem greeted_of_map {α : Type} {k : Connection} {f : Client → α} {a : α}
    (h : (greet k).1.toOption.map f = some a) : ∃ c k', greet k = (.ok c, k') ∧ f c = a := by
  rcases hg : greet k with ⟨e | c, k'⟩ <;> rw [hg] at h
  · simp [Except.toOption] at h
  · exact ⟨c, k', rfl, Option.some.inj h⟩

theorem call_of_turns {command : Command} {rest : List Command} {c : Client}
    {r : Except Fault Response} {rs : List (Except Fault Response)}
    (h : (turns (command :: rest) c).map (·.answer) = r :: rs) :
    ∃ c', c.call command = (r, c') ∧ (turns rest c').map (·.answer) = rs := by
  rcases hc : c.call command with ⟨answer, c'⟩
  rw [turns, hc, List.map_cons] at h
  obtain ⟨rfl, hrest⟩ := List.cons.inj h
  exact ⟨c', rfl, hrest⟩

theorem call_issued {command : Command} {r : Except Fault Response}
    (h : c.call command = (r, c')) :
    c.issued ≤ c'.issued ∧ (command.pieces.isOk → c.issued < c'.issued) := by
  rcases call_did h with ⟨e, hp, -, rfl⟩ | ⟨pieces, j, -, hd, -⟩
  · exact ⟨Nat.le_refl _, by simp [hp, Except.isOk, Except.toBool]⟩
  · have hi : c'.issued = c.issued + 1 := hd.issued
    exact ⟨by omega, fun _ => by omega⟩

theorem Reached.call {command : Command} {r : Except Fault Response} (hc : Reached k c)
    (h : c.call command = (r, c')) : Reached k c' ∧ ∃ j, c'.journal = c.journal ++ j := by
  rcases call_did h with ⟨e, -, -, rfl⟩ | ⟨pieces, j, -, hd, hs, -⟩
  · exact ⟨hc, [], (List.append_nil _).symm⟩
  · refine ⟨⟨hs, ?_⟩, j, hd.journal⟩
    rw [hd.journal, hd.issued]
    exact (hc.did.reissue (c.issued + 1)).trans hd

theorem turns_reached :
    ∀ (commands : List Command) (c : Client), Reached k c →
      (∀ t ∈ turns commands c,
        Reached k t.before ∧ t.before.call t.command = (t.answer, t.after))
        ∧ ∃ c', Reached k c' ∧ c'.journal = c.journal ++ (turns commands c).flatMap Turn.deeds
  | [], c, hc => ⟨by simp [turns], c, hc, by simp [turns]⟩
  | command :: rest, c, hc => by
    rcases h : c.call command with ⟨r, c₁⟩
    obtain ⟨hc₁, j, hj⟩ := hc.call h
    obtain ⟨hall, c', hc', hj'⟩ := turns_reached rest c₁ hc₁
    rw [turns, h]
    refine ⟨?_, c', hc', ?_⟩
    · rintro t (_ | ⟨_, hs⟩)
      · exact ⟨hc, h⟩
      · exact hall t hs
    · rw [hj', hj, List.append_assoc, List.flatMap_cons]
      simp [Turn.deeds, hj]

/-- The messages a script brings, and the refusals of those above the limit. -/
def framed (script : List Event) : List (Except Malformation Message) :=
  ((Assembler.idle greatestMessage {}).feed (arriving script)).results.1

/-- What was consumed is what was framed first. -/
theorem Reached.taken_prefix (hc : Reached k c) : Journal.taken c.journal <+: framed k.script := by
  rw [framed, show arriving k.script = _ from hc.did.script]
  exact ⟨_, (congrArg Prod.fst (hc.did.frames _).results).symm⟩

/-- A turn with a command that has no form does nothing; any other carries it out. -/
theorem turn_did {t : Turn} (h : t.before.call t.command = (t.answer, t.after)) :
    (∃ e, t.command.pieces = .error e ∧ t.answer = .error (.encoding e) ∧ t.deeds = [])
      ∨ t.command.pieces.isOk ∧ Did { t.before with issued := t.before.issued + 1 } t.deeds t.after
        ∧ Conducted t.tag (t.command == .logout) t.fragments [] t.before.connection.queued t.deeds
          t.answer := by
  rcases call_did h with ⟨e, hp, hr, hsame⟩ | ⟨pieces, j, hp, hd, -, hc⟩
  · exact .inl ⟨e, hp, hr, by simp [Turn.deeds, hsame]⟩
  · have hj : t.deeds = j := by simp [Turn.deeds, hd.journal]
    refine .inr ⟨by rw [hp]; rfl, hj ▸ hd, ?_⟩
    rw [hj, Turn.fragments, hp]
    exact hc

theorem turn_conducted {t : Turn} (hform : t.command.pieces.isOk)
    (h : t.before.call t.command = (t.answer, t.after)) :
    Did { t.before with issued := t.before.issued + 1 } t.deeds t.after
      ∧ Conducted t.tag (t.command == .logout) t.fragments [] t.before.connection.queued t.deeds
        t.answer := by
  rcases turn_did h with ⟨e, hp, -⟩ | ⟨-, hdid⟩
  · simp [hp, Except.isOk, Except.toBool] at hform
  · exact hdid

end Runs

end Client

end ImapProbe
