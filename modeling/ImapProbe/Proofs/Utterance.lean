import ImapProbe.Proofs.Announcement
import ImapProbe.Proofs.Framing

/-!
# What a server says

An utterance is what a server sends as one message: lines that announce literals, each followed by
its literal, and a last line that announces nothing. An assembler between messages gives exactly
the message of the utterance it is fed (`next_utterance`), so a stream of utterances is framed
utterance by utterance (`gives_utterances`).
-/

namespace ImapProbe.Wire

/-- How a line ends on the wire. -/
inductive Ending where
  | lf
  | crlf
  deriving DecidableEq, Repr

/-- What stands between the text of a line and its line feed. -/
def Ending.carriage : Ending → Bytes
  | .lf => []
  | .crlf => [Bytes.cr]

/-- One line: its text holds no line feed, nor a carriage return that is part of its ending. -/
structure Line where
  text : Bytes
  ending : Ending
  whole : Bytes.lf ∉ text
  proper : ending = .lf → text.getLast? ≠ some Bytes.cr

namespace Line

/-- The line less its line feed. -/
def body (l : Line) : Bytes := l.text ++ l.ending.carriage

def octets (l : Line) : Bytes := l.body ++ [Bytes.lf]

theorem octets_append (l : Line) (rest : Bytes) :
    l.octets ++ rest = l.body ++ Bytes.lf :: rest := by
  simp [octets]

theorem announced_body (l : Line) (n : Nat) :
    announced? l.body = some n ↔ Announces l.text n := by
  rw [← Announcing.foldl_closed, announced?, body, List.foldl_append]
  have hs := Announcing.spells_foldl l.text [] .other trivial
  have hcr : Bytes.cr ≠ 123 := by decide
  rcases h : l.text.foldl Announcing.next .other <;> rw [h] at hs <;>
    rcases he : l.ending <;> simp [Ending.carriage, Announcing.next, Announcing.size?, hcr]
  case returned.lf announced =>
    obtain ⟨before, ht, -⟩ := hs
    exact absurd (by simpa using congrArg List.getLast? ht) (l.proper he)

theorem chomp_octets (l : Line) : chomp l.octets = l.text := by
  rcases he : l.ending
  · have := l.proper he
    simp [chomp, octets, body, he, Ending.carriage, this]
  · simp [chomp, octets, body, he, Ending.carriage]

theorem lf_notMem_body (l : Line) : Bytes.lf ∉ l.body := by
  rw [body, List.mem_append]
  rintro (h | h)
  · exact l.whole h
  · rcases he : l.ending <;> simp [he, Ending.carriage, Bytes.lf, Bytes.cr] at h

end Line

/-- A literal, with the line that announces it. -/
structure Literal where
  line : Line
  octets : Bytes
  announced : Announces line.text octets.length

structure Utterance where
  literals : List Literal
  last : Line
  plain : ∀ n, ¬ Announces last.text n

theorem Cutter.next_line (l : Line) (rest : Bytes) :
    ({ unread := l.octets ++ rest } : Cutter).next
      = (some (.line l.octets), ⟨afterLine l.body, [], rest⟩) := by
  have hb : ∀ b ∈ l.body, (b != Bytes.lf) = true := fun b hb =>
    bne_iff_ne.mpr fun he => l.lf_notMem_body (he ▸ hb)
  simp only [next, l.octets_append, List.takeWhile_append_of_pos hb,
    List.dropWhile_append_of_pos hb]
  simp [Line.octets]

theorem Cutter.next_literal (octets rest : Bytes) :
    (⟨.literal octets.length, [], octets ++ rest⟩ : Cutter).next
      = (some (.literal octets), { unread := rest }) := by
  simp [next]

theorem Cutter.afterLine_announces {l : Line} {n : Nat} (h : Announces l.text n) :
    afterLine l.body = .literal n := by
  rw [afterLine, (l.announced_body n).mpr h]

theorem Cutter.afterLine_plain {l : Line} (h : ∀ n, ¬ Announces l.text n) :
    afterLine l.body = .line := by
  rw [afterLine]
  rcases ha : announced? l.body with _ | n
  · rfl
  · exact absurd ((l.announced_body n).mp ha) (h n)

namespace Utterance

def octets (u : Utterance) : Bytes :=
  (u.literals.flatMap fun l => l.line.octets ++ l.octets) ++ u.last.octets

def parts (u : Utterance) : List Part :=
  (u.literals.map fun l => .literal l.line.text l.octets) ++ [.line u.last.text]

def message (u : Utterance) : Message := ⟨u.parts, u.octets⟩

@[simp] theorem octets_cons (l : Literal) (literals : List Literal) (last : Line)
    (h : ∀ n, ¬ Announces last.text n) :
    octets ⟨l :: literals, last, h⟩
      = l.line.octets ++ (l.octets ++ octets ⟨literals, last, h⟩) := by
  simp [octets]

@[simp] theorem parts_cons (l : Literal) (literals : List Literal) (last : Line)
    (h : ∀ n, ¬ Announces last.text n) :
    parts ⟨l :: literals, last, h⟩
      = .literal l.line.text l.octets :: parts ⟨literals, last, h⟩ := by
  simp [parts]

/-- What framing makes of an utterance. -/
def result (limit : Nat) (u : Utterance) : Except Malformation Message :=
  if u.octets.length ≤ limit then .ok u.message else .error (.oversized limit)

end Utterance

namespace Assembler

open Utterance

/-- What is left of an utterance ends the message that was begun. -/
theorem next_rest {last : Line} (h : ∀ n, ¬ Announces last.text n) (rest : Bytes) :
    ∀ (literals : List Literal) (a : Assembler),
      a.cutter = { unread := octets ⟨literals, last, h⟩ ++ rest } →
      a.next = (some ({ a with
          received := a.received ++ octets ⟨literals, last, h⟩
          parts := a.parts ++ Utterance.parts ⟨literals, last, h⟩ } : Assembler).complete,
        idle a.limit { unread := rest })
  | [], a, hc => by
    have hn := Cutter.next_line last rest
    rw [Cutter.afterLine_plain h] at hn
    rw [next_of_last (a := a) (by rw [hc]; exact hn) (by simp [add]; rfl)]
    simp [complete, octets, Utterance.parts, Fragment.octets, last.chomp_octets]
  | l :: literals, a, hc => by
    have hline := Cutter.next_line l.line (l.octets ++ octets ⟨literals, last, h⟩ ++ rest)
    have hlit := Cutter.next_literal l.octets (octets ⟨literals, last, h⟩ ++ rest)
    rw [Cutter.afterLine_announces l.announced] at hline
    rw [octets_cons, List.append_assoc] at hc
    rw [next_of_more (a := a) (by rw [hc]; exact hline) (by simp [add]; rfl),
      next_of_more hlit (by simp [add]; rfl),
      next_rest h rest literals _ rfl]
    simp [complete, Fragment.octets, l.line.chomp_octets]

theorem next_utterance (limit : Nat) (u : Utterance) (rest : Bytes) :
    (idle limit { unread := u.octets ++ rest }).next
      = (some (u.result limit), idle limit { unread := rest }) :=
  next_rest u.plain rest u.literals (idle limit { unread := u.octets ++ rest }) rfl

/-- An assembler that gave one result for each utterance stands behind the last of them. -/
theorem gives_utterances {limit : Nat} {rest : Bytes} {a : Assembler} :
    ∀ {us : List Utterance} {rs : List (Except Malformation Message)},
      Gives (idle limit { unread := us.flatMap octets ++ rest }) rs a → rs.length = us.length →
      rs = us.map (result limit) ∧ a.next = (idle limit { unread := rest }).next
  | [], [], .here h, _ => ⟨rfl, h.symm⟩
  | u :: us, r :: rs, .result h g, hlen => by
    rw [List.flatMap_cons, List.append_assoc, next_utterance] at h
    obtain ⟨hr, rfl⟩ := Prod.mk.inj h
    obtain ⟨hrs, hnext⟩ := gives_utterances g (by simpa using hlen)
    exact ⟨by rw [List.map_cons, ← hrs, Option.some.inj hr], hnext⟩

end Assembler

end ImapProbe.Wire
