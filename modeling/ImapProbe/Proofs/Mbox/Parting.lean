import ImapProbe.Mbox.Basic
import ImapProbe.Proofs.Lines
import Mathlib.Data.List.Forall2

/-!
# The messages of a mailbox file

The lines of a file are those before the first that opens a message, and for each line that does,
the lines behind it up to the next. Each of these runs is one message, less an empty line at its end
(`parted_sections`). So a file that is written message by message is read back as it was written
(`messages_parted`).
-/

namespace ImapProbe.Mbox

open Bytes

/-- A message is what is left of a run of lines without the empty line at its end. -/
inductive Trimmed : Bytes → Bytes → Prop
  | crlf (text : Bytes) : Trimmed (text ++ crlf ++ crlf) (text ++ crlf)
  | lf (text : Bytes) : Trimmed (text ++ [lf] ++ [lf]) (text ++ [lf])
  | whole {run : Bytes} : ¬ crlf ++ crlf <:+ run → ¬ [lf, lf] <:+ run → Trimmed run run

theorem trim_crlf (text : Bytes) : trim (text ++ crlf ++ crlf) = text ++ crlf := by
  have h : crlf ++ crlf <:+ text ++ crlf ++ crlf := ⟨text, by rw [List.append_assoc]⟩
  rw [trim, if_pos (List.isSuffixOf_iff_suffix.2 h)]
  exact List.take_left' (by simp [crlf])

theorem trim_lf (text : Bytes) : trim (text ++ [lf] ++ [lf]) = text ++ [lf] := by
  have h : [lf, lf] <:+ text ++ [lf] ++ [lf] := ⟨text, by simp⟩
  have hcrlf : ¬ crlf ++ crlf <:+ text ++ [lf] ++ [lf] := by
    rintro ⟨front, hfront⟩
    have := congrArg List.reverse hfront
    simp [crlf, cr, lf] at this
  rw [trim, if_neg (mt List.isSuffixOf_iff_suffix.1 hcrlf),
    if_pos (List.isSuffixOf_iff_suffix.2 h)]
  exact List.take_left' (by simp)

theorem trimmed_trim (run : Bytes) : Trimmed run (trim run) := by
  by_cases hcrlf : crlf ++ crlf <:+ run
  · obtain ⟨text, rfl⟩ := hcrlf
    rw [← List.append_assoc, trim_crlf]
    exact .crlf text
  by_cases hlf : [lf, lf] <:+ run
  · obtain ⟨text, rfl⟩ := hlf
    rw [show text ++ [lf, lf] = text ++ [lf] ++ [lf] by simp, trim_lf]
    exact .lf text
  rw [trim, if_neg (mt List.isSuffixOf_iff_suffix.1 hcrlf),
    if_neg (mt List.isSuffixOf_iff_suffix.1 hlf)]
  exact .whole hcrlf hlf

/-- A line that opens a message, and the lines behind it up to the next that does. -/
structure Section where
  head : Bytes
  body : List Bytes
  opens : opening <+: head
  unopened : ∀ l ∈ body, ¬ opening <+: l

namespace Section

def lines (s : Section) : List Bytes := s.head :: s.body

def run (s : Section) : Bytes := s.body.flatten

end Section

section Parting

variable {current : Option Bytes} {ls rest : List Bytes}

theorem parted_unopened (h : ∀ l ∈ ls, ¬ opening <+: l) :
    parted current (ls ++ rest) = parted (current.map (· ++ ls.flatten)) rest := by
  induction ls generalizing current with
  | nil => simp
  | cons l ls ih =>
    obtain ⟨hl, hls⟩ := List.forall_mem_cons.1 h
    rw [List.cons_append, parted, if_neg (mt List.isPrefixOf_iff_prefix.1 hl), ih hls]
    simp [Function.comp_def]

/-- Each section closes the message that was open, and opens its own. -/
theorem parted_sections (sections : List Section) :
    parted current (sections.flatMap Section.lines)
      = (current.map trim).toList ++ sections.map fun s => trim s.run := by
  induction sections generalizing current with
  | nil => simp [parted]
  | cons s sections ih =>
    rw [List.flatMap_cons, Section.lines, List.cons_append, parted,
      if_pos (List.isPrefixOf_iff_prefix.2 s.opens), parted_unopened s.unopened, ih]
    rfl

theorem exists_sections (ls : List Bytes) :
    ∃ (before : List Bytes) (sections : List Section),
      ls = before ++ sections.flatMap Section.lines ∧ ∀ l ∈ before, ¬ opening <+: l := by
  induction ls with
  | nil => exact ⟨[], [], rfl, by simp⟩
  | cons l ls ih =>
    obtain ⟨before, sections, rfl, hbefore⟩ := ih
    by_cases hl : opening <+: l
    · exact ⟨[], ⟨l, before, hl, hbefore⟩ :: sections, rfl, by simp⟩
    · exact ⟨l :: before, sections, rfl, List.forall_mem_cons.2 ⟨hl, hbefore⟩⟩

theorem messages_of_lines {file : Bytes} (before : List Bytes) {sections : List Section}
    (h : Bytes.lines file = before ++ sections.flatMap Section.lines)
    (hbefore : ∀ l ∈ before, ¬ opening <+: l) :
    messages file = sections.map fun s => trim s.run := by
  rw [messages, h, parted_unopened hbefore, Option.map_none, parted_sections]
  rfl

end Parting

/-- A message as it is written to a file: behind a line that opens it, and before an empty line,
which may end as the message does. -/
structure Letter where
  /-- What stands behind the word that opens the message. -/
  sender : Bytes
  message : Bytes
  empty : Bytes
  sender_whole : lf ∉ sender
  ended : [lf] <:+ message
  unopened : ¬ BeginsLine opening message
  empty_eq : empty = [lf] ∨ empty = crlf ∧ crlf <:+ message

namespace Letter

variable (l : Letter)

def octets : Bytes := opening ++ l.sender ++ [lf] ++ l.message ++ l.empty

theorem lines_empty (rest : Bytes) :
    Bytes.lines (l.empty ++ rest) = l.empty :: Bytes.lines rest := by
  rcases l.empty_eq with h | ⟨h, -⟩ <;> rw [h]
  · exact lines_line (by decide : lf ∉ []) rest
  · exact lines_line (by decide : lf ∉ [cr]) rest

theorem not_opening_empty : ¬ opening <+: l.empty := by
  rcases l.empty_eq with h | ⟨h, -⟩ <;> rw [h] <;> decide

/-- The lines of a letter. -/
def entry : Section where
  head := opening ++ l.sender ++ [lf]
  body := Bytes.lines l.message ++ [l.empty]
  opens := ⟨l.sender ++ [lf], by simp⟩
  unopened := by
    intro line hline hopens
    rcases List.mem_append.1 hline with hm | hm
    · exact l.unopened (begins_of_mem_lines hm hopens)
    · exact l.not_opening_empty (List.mem_singleton.1 hm ▸ hopens)

theorem lines_octets (rest : Bytes) :
    Bytes.lines (l.octets ++ rest) = l.entry.lines ++ Bytes.lines rest := by
  have hhead : lf ∉ opening ++ l.sender := by
    rw [List.mem_append, not_or]
    exact ⟨by decide, l.sender_whole⟩
  obtain ⟨text, htext⟩ := l.ended
  calc Bytes.lines (l.octets ++ rest)
      = Bytes.lines (opening ++ l.sender ++ lf :: (l.message ++ (l.empty ++ rest))) := by
        simp [octets]
    _ = l.entry.head :: Bytes.lines (l.message ++ (l.empty ++ rest)) := lines_line hhead _
    _ = l.entry.head :: (Bytes.lines l.message ++ (l.empty :: Bytes.lines rest)) := by
        rw [← htext, List.append_assoc, List.singleton_append, lines_append, lines_empty]
    _ = l.entry.lines ++ Bytes.lines rest := by simp [entry, Section.lines]

/-- The empty line behind the message is left out, and no other. -/
theorem trim_entry : trim l.entry.run = l.message := by
  rw [Section.run, entry, List.flatten_append, flatten_lines, List.flatten_singleton]
  rcases l.empty_eq with h | ⟨h, text, htext⟩ <;> rw [h]
  · obtain ⟨text, htext⟩ := l.ended
    rw [← htext, trim_lf]
  · rw [← htext, trim_crlf]

theorem lines_letters (letters : List Letter) :
    Bytes.lines (letters.flatMap octets) = (letters.map entry).flatMap Section.lines := by
  induction letters with
  | nil => rfl
  | cons l letters ih =>
    rw [List.flatMap_cons, lines_octets, ih]
    rfl

end Letter

/-- The lines of a file are those before the first that opens a message, and one run behind each
that does; the runs, each less the empty line at its end, are the messages, in order. So letters
that are written one after another are read back as their messages. -/
theorem messages_parted :
    (∀ file : Bytes, ∃ (before : List Bytes) (sections : List Section),
      file = (before ++ sections.flatMap Section.lines).flatten
        ∧ Ruled (before ++ sections.flatMap Section.lines)
        ∧ (∀ l ∈ before, ¬ opening <+: l)
        ∧ List.Forall₂ (fun s message => Trimmed s.run message) sections (messages file))
      ∧ ∀ letters : List Letter, messages (letters.flatMap Letter.octets)
        = letters.map Letter.message := by
  refine ⟨fun file => ?_, fun letters => ?_⟩
  · obtain ⟨before, sections, hlines, hbefore⟩ := exists_sections (Bytes.lines file)
    refine ⟨before, sections, ?_, ?_, hbefore, ?_⟩
    · rw [← hlines, flatten_lines]
    · exact hlines ▸ ruled_lines file
    · rw [messages_of_lines before hlines hbefore, List.forall₂_map_right_iff]
      exact List.forall₂_same.2 fun s _ => trimmed_trim s.run
  · rw [messages_of_lines [] (Letter.lines_letters letters) (by simp), List.map_map]
    exact List.map_congr_left fun l _ => l.trim_entry

/-- A letter that quotes an opening line and ends in an empty line of its own. -/
def quoting : Letter where
  sender := utf8 "a@example.com Mon Jan 1 00:00:00 2024"
  message := utf8 ">From b\n From c\n\n"
  empty := [lf]
  sender_whole := by decide
  ended := by decide
  unopened := by decide +kernel
  empty_eq := .inl rfl

/-- A letter with carriage returns that holds nothing but an empty line. -/
def returning : Letter where
  sender := utf8 "\r"
  message := crlf
  empty := crlf
  sender_whole := by decide
  ended := by decide
  unopened := by decide
  empty_eq := .inr ⟨rfl, by decide⟩

theorem messages_parted_letters :
    messages (utf8 "From a@example.com Mon Jan 1 00:00:00 2024\n>From b\n From c\n\n\n"
        ++ utf8 "From \r\n\r\n\r\n")
      = [utf8 ">From b\n From c\n\n", utf8 "\r\n"] := by
  have hfile : [quoting, returning].flatMap Letter.octets
      = utf8 "From a@example.com Mon Jan 1 00:00:00 2024\n>From b\n From c\n\n\n"
        ++ utf8 "From \r\n\r\n\r\n" := by decide +kernel
  rw [← hfile]
  exact messages_parted.2 [quoting, returning]

end ImapProbe.Mbox
