import ImapProbe.Artifact
import ImapProbe.Proofs.Argument

/-!
# Descriptions as they are sent

A server may send a string of a description between quotes or as a literal. Both forms can be read
back, but an artifact keeps the form as well as the string, so two ways of sending one description
make one artifact only where they are the same (`artifact_sent_iff`).
-/

namespace ImapProbe

/-- A part of a description: octets that stand for themselves, or a string. -/
inductive Phrase where
  | plain (octets : Bytes)
  | string (octets : Bytes)
  deriving DecidableEq, Repr

/-- A phrase in the form in which it is sent. -/
inductive Sending where
  | plain (octets : Bytes)
  | quoted (octets : Bytes)
  | literal (octets : Bytes)
  deriving DecidableEq, Repr

namespace Sending

def phrase : Sending → Phrase
  | .plain octets => .plain octets
  | .quoted octets | .literal octets => .string octets

/-- A literal stands behind the announcement of its size, on a line of its own. -/
def octets : Sending → Bytes
  | .plain octets => octets
  | .quoted octets => Command.quote octets
  | .literal octets => Command.announcement octets.length ++ octets

/-- The parts of phrases that go on after `line`. -/
def partsFrom (line : Bytes) : List Sending → List Part
  | [] => [.line line]
  | .plain octets :: rest => partsFrom (line ++ octets) rest
  | .quoted octets :: rest => partsFrom (line ++ Command.quote octets) rest
  | .literal octets :: rest =>
    .literal (line ++ utf8 ("\x7b" ++ toString octets.length ++ "\x7d")) octets
      :: partsFrom [] rest

def parts (sent : List Sending) : List Part := partsFrom [] sent

theorem folded_partsFrom :
    ∀ (sent : List Sending) (line : Bytes),
      folded (partsFrom line sent) = line ++ sent.flatMap octets
  | [], line => by simp [partsFrom, folded]
  | .plain octets :: rest, line => by
    rw [partsFrom, folded_partsFrom rest, List.flatMap_cons, List.append_assoc]
    rfl
  | .quoted octets :: rest, line => by
    rw [partsFrom, folded_partsFrom rest, List.flatMap_cons, List.append_assoc]
    rfl
  | .literal octets :: rest, line => by
    have ih := folded_partsFrom rest []
    rw [folded] at ih
    rw [partsFrom, folded, List.flatMap_cons, ih, List.flatMap_cons, Sending.octets,
      Command.announcement]
    simp only [List.append_assoc, List.nil_append]

/-- The first octet tells a quoted string from a literal. -/
theorem quoted_ne_literal (string string' rest rest' : Bytes) :
    (quoted string).octets ++ rest ≠ (literal string').octets ++ rest' := by
  rw [Sending.octets, Sending.octets, Grammar.announcement_eq, Command.quote]
  simp

/-- The octets of a description tell in which forms its strings were sent. -/
theorem eq_of_octets : ∀ {sent sent' : List Sending}, sent'.map phrase = sent.map phrase →
    sent'.flatMap octets = sent.flatMap octets → sent' = sent
  | [], [], _, _ => rfl
  | s :: sent, s' :: sent', hsame, h => by
    rw [List.map_cons, List.map_cons, List.cons.injEq] at hsame
    rw [List.flatMap_cons, List.flatMap_cons] at h
    obtain ⟨hphrase, hsame⟩ := hsame
    have heq : s' = s := by
      cases s <;> cases s' <;> simp only [phrase, Phrase.plain.injEq, Phrase.string.injEq,
        reduceCtorEq] at hphrase
      case quoted.literal => exact absurd h.symm (quoted_ne_literal _ _ _ _)
      case literal.quoted => exact absurd h (quoted_ne_literal _ _ _ _)
      all_goals rw [hphrase]
    subst heq
    rw [eq_of_octets hsame (List.append_cancel_left h)]

/-- The artifact of a description that begins with a parenthesis is the description as it was sent,
so two ways of sending it make one artifact only where they are the same, however many of its
strings are moved into literals and wherever these stand. -/
theorem artifact_sent_iff (front rest : Bytes) (hfront : 40 ∉ front) (sent sent' : List Sending)
    (hsame : sent'.map phrase = sent.map phrase) :
    let made (sent : List Sending) := artifact (parts (.plain (front ++ 40 :: rest) :: sent))
    made sent = 40 :: rest ++ sent.flatMap octets ∧ (made sent' = made sent ↔ sent' = sent) := by
  intro made
  have hmade : ∀ sent, made sent = 40 :: rest ++ sent.flatMap octets := fun sent => by
    have hskip : ∀ b ∈ front, (b != 40) = true := fun b hb =>
      bne_iff_ne.2 fun heq => hfront (heq ▸ hb)
    simp only [made, artifact, parts, folded_partsFrom, List.nil_append, List.flatMap_cons,
      Sending.octets, List.append_assoc]
    rw [List.dropWhile_append_of_pos hskip]
    rfl
  refine ⟨hmade sent, fun h => eq_of_octets hsame ?_, fun h => by rw [h]⟩
  rwa [hmade, hmade, List.append_cancel_left_eq] at h

/-- The subtype of a body, between quotes or as a literal. -/
theorem artifact_sent_subtype :
    let front := utf8 "1 FETCH "
    let rest := utf8 "BODY (\"text\" "
    let sent : List Sending :=
      [.quoted (utf8 "plain"), .plain (utf8 " NIL "), .literal (utf8 "7bit")]
    let sent' : List Sending :=
      [.literal (utf8 "plain"), .plain (utf8 " NIL "), .quoted (utf8 "7bit")]
    artifact (parts (.plain (front ++ 40 :: rest) :: sent'))
      ≠ artifact (parts (.plain (front ++ 40 :: rest) :: sent)) := by
  intro front rest sent sent'
  have hne : sent' ≠ sent := by decide
  exact fun h => hne ((artifact_sent_iff front rest (by decide) sent sent' (by decide)).2.1 h)

end Sending

/-- The string `plain`, moved into a literal: its announcement stands in the artifact in place of
its quotes. -/
theorem artifact_moved :
    let front : Sending := .plain (utf8 "1 FETCH (BODY (\"text\" ")
    let rest : Sending := .plain (utf8 " NIL NIL NIL \"7bit\" 9 1))")
    let inside : List Sending := [front, .quoted (utf8 "plain"), rest]
    let moved : List Sending := [front, .literal (utf8 "plain"), rest]
    moved.map Sending.phrase = inside.map Sending.phrase
      ∧ artifact (Sending.parts inside)
        = utf8 "(BODY (\"text\" \"plain\" NIL NIL NIL \"7bit\" 9 1))"
      ∧ artifact (Sending.parts moved)
        = utf8 "(BODY (\"text\" \x7b5\x7d\r\nplain NIL NIL NIL \"7bit\" 9 1))"
      ∧ artifact (Sending.parts moved) ≠ artifact (Sending.parts inside) := by
  decide +kernel

end ImapProbe
