import ImapProbe.Proofs.Reading
import ImapProbe.Proofs.Restoration

/-!
# Lines that close a command

A line of a tag, a status and the words of the server is framed as one message and read as what it
was made of, and in the other direction a message is read as a completion only where its first line
is such a line (`read_closing`).
-/

namespace ImapProbe.Wire

theorem le_of_isTagOctet {b : UInt8} (h : isTagOctet b) : b ≤ 0x7F := by
  simp only [isTagOctet, isBareOctet, isAtomOctet, Bool.and_eq_true, Bool.or_eq_true,
    decide_eq_true_eq, beq_iff_eq] at h
  rcases h.1 with ⟨⟨-, hle⟩, -⟩ | rfl
  · exact UInt8.le_trans hle (by decide)
  · decide

theorem le_of_isTextOctet {b : UInt8} (h : isTextOctet b) : b ≤ 0x7F := by
  simp only [isTextOctet, Bool.and_eq_true, decide_eq_true_eq] at h
  exact h.1.1.2

/-- A space stands in no announcement, so what a line announces stands behind its last space. -/
theorem announces_behind_space {front text : Bytes} {n : Nat} :
    Announces (front ++ Bytes.space :: text) n ↔ Announces text n := by
  have hspace : ∀ s : Announcing, s.next Bytes.space = .other := by
    intro s
    cases s <;> rfl
  rw [← Announcing.foldl_closed, ← Announcing.foldl_closed, List.foldl_append, List.foldl_cons,
    hspace]

/-- A tag, a status in any letter case and the words of the server, which begin with no code and
announce no literal. -/
structure Closing where
  tag : Bytes
  word : Bytes
  status : Status
  text : Bytes
  tag_ne_nil : tag ≠ []
  isTagOctet : ∀ b ∈ tag, isTagOctet b
  spells : word.map Bytes.capital = utf8 status.text
  text_ne_nil : text ≠ []
  isTextOctet : ∀ b ∈ text, isTextOctet b
  no_code : text.head? ≠ some 91
  plain : ∀ n, ¬ Announces text n

namespace Closing

variable (c : Closing)

/-- The line, with a space between each two of them. -/
def octets : Bytes := c.tag ++ Bytes.space :: (c.word ++ Bytes.space :: c.text)

theorem space_notMem_tag : Bytes.space ∉ c.tag := fun h => by
  exact absurd (c.isTagOctet _ h) (by decide)

theorem capital_word_mem {b : UInt8} (h : b ∈ c.word) : Bytes.capital b ∈ utf8 c.status.text :=
  c.spells ▸ List.mem_map_of_mem h

theorem space_notMem_word : Bytes.space ∉ c.word := fun h => by
  have := c.capital_word_mem h
  revert this
  cases c.status <;> decide

theorem length_word : c.word.length = (utf8 c.status.text).length := by
  rw [← c.spells, List.length_map]

/-- No octet of it ends a line. -/
theorem ne_of_mem_octets {b : UInt8} (h : b ∈ c.octets) : b ≠ Bytes.lf ∧ b ≠ Bytes.cr := by
  simp only [octets, List.mem_append, List.mem_cons] at h
  rcases h with h | rfl | h | rfl | h
  · have := c.isTagOctet b h
    constructor <;> rintro rfl <;> exact absurd this (by decide)
  · decide
  · have := c.capital_word_mem h
    constructor <;> rintro rfl <;> revert this <;> cases c.status <;> decide
  · decide
  · have := c.isTextOctet b h
    constructor <;> rintro rfl <;> exact absurd this (by decide)

theorem not_announces (n : Nat) : ¬ Announces c.octets n := by
  rw [octets, announces_behind_space, announces_behind_space]
  exact c.plain n

def utterance (ending : Ending) : Utterance where
  literals := []
  last := {
    text := c.octets
    ending
    whole := fun h => (c.ne_of_mem_octets h).1 rfl
    proper := fun _ h => (c.ne_of_mem_octets (List.mem_of_getLast? h)).2 rfl }
  plain := c.not_announces

theorem octets_utterance (ending : Ending) :
    (c.utterance ending).octets = c.octets ++ ending.octets := by
  simp [utterance, Utterance.octets, Line.octets, Line.body, Ending.octets]

/-- Of the three words for a status, the line has that of its own. -/
theorem opensWith_eq (s : Status) :
    opensWith (Bytes.space :: (utf8 s.text ++ [Bytes.space]))
      (Bytes.space :: (c.word ++ Bytes.space :: c.text)) = decide (s = c.status) := by
  have hmap : (Bytes.space :: (c.word ++ Bytes.space :: c.text)).map Bytes.capital
      = Bytes.space :: (utf8 c.status.text ++ Bytes.space :: c.text.map Bytes.capital) := by
    rw [List.map_cons, List.map_append, List.map_cons, c.spells]
    rfl
  rw [opensWith, hmap]
  cases s <;> cases c.status <;> rfl

theorem isStatusText : isStatusText c.text := by
  have htext : isText c.text := by
    simp only [isText, Bool.and_eq_true, Bool.not_eq_true', List.isEmpty_eq_false_iff]
    exact ⟨c.text_ne_nil, List.all_eq_true.2 c.isTextOctet⟩
  unfold Wire.isStatusText
  split
  case h_1 line heq => exact absurd (by rw [heq]; rfl) c.no_code
  case h_2 => exact htext

theorem bearing?_eq (s : Status) :
    bearing? c.tag (Bytes.space :: (c.word ++ Bytes.space :: c.text)) s
      = if s = c.status then some (c.tag, s) else none := by
  have hdrop : (Bytes.space :: (c.word ++ Bytes.space :: c.text)).drop
      (Bytes.space :: (utf8 c.status.text ++ [Bytes.space])).length = c.text := by
    simp [← c.length_word]
  simp only [bearing?, c.opensWith_eq]
  by_cases hs : s = c.status
  · rw [hs, hdrop, c.isStatusText]
    simp
  · simp [hs]

theorem completion?_octets : completion? c.octets = some (c.tag, c.status) := by
  have hstop : ∀ b, (Bytes.space :: (c.word ++ Bytes.space :: c.text)).head? = some b →
      Wire.isTagOctet b = false := by
    rintro b ⟨⟩
    decide
  obtain ⟨htake, hdrop⟩ := takeWhile_eq c.isTagOctet hstop
  rw [completion?_eq, octets, htake, hdrop, List.isEmpty_eq_false_iff.2 c.tag_ne_nil]
  simp only [c.bearing?_eq]
  cases c.status <;> rfl

theorem not_prefix (front : UInt8) (hfront : Wire.isTagOctet front = false) (rest : Bytes) :
    ¬ front :: rest <+: c.octets := by
  rintro ⟨behind, h⟩
  obtain ⟨b, tag, htag⟩ := List.exists_cons_of_ne_nil c.tag_ne_nil
  rw [octets, htag] at h
  have hb := c.isTagOctet b (htag ▸ List.mem_cons_self)
  rw [← (List.cons.inj h).1, hfront] at hb
  exact absurd hb (by decide)

/-- The line is read as what it was made of. -/
theorem read_utterance (ending : Ending) :
    (c.utterance ending).message.read
      = .ok (.completed (lossy c.tag) ⟨c.status, lossy c.text⟩) := by
  have hopening : (c.utterance ending).message.opening = c.octets := rfl
  have hread := (c.utterance ending).message.read_line
    (hopening ▸ c.not_prefix 43 (by decide) []) (hopening ▸ c.not_prefix 42 (by decide) [32])
  rw [hopening, c.completion?_octets] at hread
  rw [hread, octets, serverWords_eq c.space_notMem_tag c.space_notMem_word]

end Closing

/-- A line that closes a command, whatever the letter case of its status and whichever way it ends,
is framed as one message, which is refused only above the limit and is read as the very tag, status
and words of the line. In the other direction a message that is read as a completion, wherever it
comes from, has for its first line the tag, a space, the status in some letter case, a space, and
the words as they were sent. -/
theorem read_closing :
    (∀ (c : Closing) (ending : Ending), ∃ m tag words,
      (∀ limit rest, (Assembler.idle limit { unread := c.octets ++ ending.octets ++ rest }).next
        = (some (if (c.octets ++ ending.octets).length ≤ limit then .ok m
            else .error (.oversized limit)), Assembler.idle limit { unread := rest }))
        ∧ m.read = .ok (.completed tag ⟨c.status, words⟩)
        ∧ utf8 tag = c.tag ∧ utf8 words = c.text)
      ∧ ∀ (m : Message) tag d, m.read = .ok (.completed tag d) →
        ∃ word text, m.opening = utf8 tag ++ Bytes.space :: (word ++ Bytes.space :: text)
          ∧ word.map Bytes.capital = utf8 d.status.text ∧ lossy text = d.text := by
  refine ⟨fun c ending => ⟨(c.utterance ending).message, lossy c.tag, lossy c.text,
    fun limit rest => ?_, c.read_utterance ending, ?_, ?_⟩, fun m tag d h => ?_⟩
  · rw [← c.octets_utterance]
    exact Assembler.next_utterance limit (c.utterance ending) rest
  · exact utf8_lossy_ascii fun b hb => le_of_isTagOctet (c.isTagOctet b hb)
  · exact utf8_lossy_ascii fun b hb => le_of_isTextOctet (c.isTextOctet b hb)
  · obtain ⟨label, word, text, hline, -, hlabel, hword, rfl, htext⟩ := m.closes_of_read h
    rw [utf8_lossy_ascii fun b hb => le_of_isTagOctet (hlabel b hb)]
    exact ⟨word, text, hline, hword, htext⟩

/-- A refusal whose words begin with a space, hold brackets and end in what is nearly an
announcement. -/
def refusal : Closing where
  tag := utf8 "A1]"
  word := utf8 "nO"
  status := .no
  text := utf8 " [x]  \x7b3"
  tag_ne_nil := by decide
  isTagOctet := by decide +kernel
  spells := by decide
  text_ne_nil := by decide
  isTextOctet := by decide +kernel
  no_code := by decide
  plain := Announcing.not_announces (by rfl : _ = .digits 3) (by simp)

/-- The refusal in one stream with the line behind it: what it is read as, and from that its first
line again. -/
theorem read_closing_refusal :
    ∃ m tag words, (Assembler.idle 40 { unread := utf8 "A1] nO  [x]  \x7b3\nA2 OK" }).next
        = (some (.ok m), Assembler.idle 40 { unread := utf8 "A2 OK" })
      ∧ m.read = .ok (.completed tag ⟨.no, words⟩)
      ∧ utf8 tag = utf8 "A1]" ∧ utf8 words = utf8 " [x]  \x7b3"
      ∧ ∃ word text, m.opening = utf8 tag ++ Bytes.space :: (word ++ Bytes.space :: text)
        ∧ word.map Bytes.capital = utf8 "NO" ∧ lossy text = words := by
  obtain ⟨hsent, hcame⟩ := read_closing
  obtain ⟨m, tag, words, hnext, hread, htag, hwords⟩ := hsent refusal .lf
  exact ⟨m, tag, words, hnext 40 (utf8 "A2 OK"), hread, htag, hwords, hcame m tag _ hread⟩

end ImapProbe.Wire
