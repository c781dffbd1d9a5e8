import ImapProbe.Proofs.Argument
import ImapProbe.Proofs.Utf8

/-!
# Messages and their one reading

A message is read by the first octets of its first line (`read_forms`): a plus sign asks the client
to go on, an asterisk and a space stand before data, and any other line closes a command or is
malformed. Data that are put behind the asterisk again are the parts of the message
(`putBefore_dropFirst`); their name is the word that the line names (`name_of_word`), and empty
where it names none (`name_of_no_word`).
-/

namespace ImapProbe.Wire

/-- Octets put before the first line of parts. -/
def putBefore (octets : Bytes) : List Part → List Part
  | .line line :: rest => .line (octets ++ line) :: rest
  | .literal announcement literal :: rest => .literal (octets ++ announcement) literal :: rest
  | [] => []

/-- A line begins with a word of letters and hyphens, which goes no further. -/
def BeginsWith (word line : Bytes) : Prop :=
  word ≠ [] ∧ (∀ b ∈ word, isNameOctet b)
    ∧ ∃ rest, line = word ++ rest ∧ ∀ b, rest.head? = some b → isNameOctet b = false

/-- A line begins with a number, and behind one space with a word. -/
def NumbersWith (word line : Bytes) : Prop :=
  ∃ digits rest, digits ≠ [] ∧ (∀ b ∈ digits, Bytes.isDigit b)
    ∧ line = digits ++ Bytes.space :: rest ∧ BeginsWith word rest

section Names

variable {name word line : Bytes}

theorem BeginsWith.names (h : BeginsWith word line) : Names (word.map Bytes.capital) line := by
  obtain ⟨-, hword, rest, rfl, hrest⟩ := h
  exact ⟨[], word, rest, rfl, .inl rfl, hword, hrest, rfl⟩

theorem NumbersWith.names (h : NumbersWith word line) : Names (word.map Bytes.capital) line := by
  obtain ⟨digits, -, hne, hdigits, rfl, -, hword, rest, rfl, hrest⟩ := h
  exact ⟨digits ++ [Bytes.space], word, rest, by simp, .inr ⟨digits, hne, hdigits, rfl⟩, hword,
    hrest, rfl⟩

theorem Names.exists_word (h : Names name line) (hn : name ≠ []) :
    ∃ word, word.map Bytes.capital = name ∧ (NumbersWith word line ∨ BeginsWith word line) := by
  obtain ⟨number, word, rest, rfl, hnumber, hword, hrest, rfl⟩ := h
  have hbegins : BeginsWith word (word ++ rest) :=
    ⟨fun he => hn (by rw [he]; rfl), hword, rest, rfl, hrest⟩
  refine ⟨word, rfl, ?_⟩
  rcases hnumber with rfl | ⟨digits, hne, hdigits, rfl⟩
  · exact .inr hbegins
  · exact .inl ⟨digits, word ++ rest, hne, hdigits, by simp, hbegins⟩

/-- The octets of ASCII octets read as text. -/
theorem utf8_lossy_ascii {w : Bytes} (h : ∀ b ∈ w, b ≤ 0x7F) : utf8 (lossy w) = w := by
  have hc : ∀ c ∈ (lossy w).toList, c.toNat ≤ 0x7F := by
    rw [lossy_ascii h, String.toList_ofList]
    intro c hc
    obtain ⟨b, hb, rfl⟩ := List.mem_map.1 hc
    exact forall_ascii (fun b => (Char.ofNat b.toNat).toNat ≤ 0x7F) (by decide) b (h b hb)
  rw [utf8_ascii hc, octets_lossy h]

/-- The name of data is the word that its line names, in capitals. -/
theorem name_of_word (h : NumbersWith word line ∨ BeginsWith word line) :
    utf8 (((dataName? line).map (·.1)).getD "") = word.map Bytes.capital := by
  have hne : word ≠ [] := by
    rcases h with ⟨_, _, -, -, -, hne, -⟩ | ⟨hne, -⟩ <;> exact hne
  have hnames : Names (word.map Bytes.capital) line := h.elim NumbersWith.names BeginsWith.names
  rw [names_iff (by simpa using hne)] at hnames
  have hascii : ∀ b ∈ (nameWord line).map Bytes.capital, b ≤ 0x7F :=
    map_capital_ascii fun b hb => isNameOctet_ascii (nameWord_isNameOctet b hb)
  rw [dataName_eq, utf8_lossy_ascii hascii, hnames]

theorem name_of_no_word (h : ∀ word, ¬(NumbersWith word line ∨ BeginsWith word line)) :
    ((dataName? line).map (·.1)).getD "" = "" := by
  have hnone : nameWord line = [] := by
    refine Decidable.byContradiction fun hne => ?_
    have hnames : Names ((nameWord line).map Bytes.capital) line :=
      (names_iff (by simpa using hne)).2 rfl
    obtain ⟨word, -, hword⟩ := hnames.exists_word (by simpa using hne)
    exact h word hword
  rw [dataName_eq, hnone]
  rfl

end Names

section Completions

variable {tag word line : Bytes} {status : Status}

theorem capital_eq_space : ∀ {b : UInt8}, Bytes.capital b = Bytes.space → b = Bytes.space := by
  intro b hb
  unfold Bytes.capital at hb
  split at hb
  case isTrue hl =>
    simp only [Bytes.isLower, Bytes.space, Bool.and_eq_true, decide_eq_true_eq,
      UInt8.le_iff_toNat_le] at hl hb
    have hsub : (b - 32).toNat = 32 := by rw [hb]; rfl
    rw [UInt8.toNat_sub_of_le _ _ (UInt8.le_iff_toNat_le.2 (Nat.le_trans (by decide) hl.1))]
      at hsub
    have h97 : UInt8.toNat 97 = 97 := rfl
    have h32 : UInt8.toNat 32 = 32 := rfl
    omega
  case isFalse => exact hb

/-- A status stands between two spaces, in any letter case. -/
theorem exists_of_opensWith (h : opensWith (Bytes.space :: (word ++ [Bytes.space])) line) :
    ∃ word' text, line = Bytes.space :: (word' ++ Bytes.space :: text)
      ∧ word'.map Bytes.capital = word.map Bytes.capital := by
  obtain ⟨rest, hrest⟩ := List.isPrefixOf_iff_prefix.1 h
  simp only [List.map_cons, List.map_append, List.map_nil, List.cons_append, List.append_assoc,
    List.nil_append] at hrest
  obtain ⟨b, behind, rfl, hb, hbehind⟩ := List.map_eq_cons_iff.1 hrest.symm
  obtain ⟨word', behind', rfl, hword, hbehind'⟩ := List.map_eq_append_iff.1 hbehind
  obtain ⟨b', text, rfl, hb', -⟩ := List.map_eq_cons_iff.1 hbehind'
  exact ⟨word', text, by rw [capital_eq_space hb, capital_eq_space hb'], hword⟩

/-- A line closes a command: a tag, a status in any letter case and the words of the server, with a
space between each two of them. -/
def Closes (tag : String) (c : Completion) (line : Bytes) : Prop :=
  ∃ label word text, line = label ++ Bytes.space :: (word ++ Bytes.space :: text)
    ∧ label ≠ [] ∧ (∀ b ∈ label, isTagOctet b) ∧ word.map Bytes.capital = utf8 c.status.text
    ∧ lossy label = tag ∧ lossy text = c.text

theorem orElse_cases {α : Type} {x y : Option α} {a : α} (h : (x <|> y) = some a) :
    x = some a ∨ y = some a := by
  cases x with
  | none => exact .inr h
  | some _ => exact .inl h

/-- The tag and a status, if the rest of the line is that status and its text. -/
def bearing? (tag rest : Bytes) (s : Status) : Option (Bytes × Status) :=
  let word := Bytes.space :: (utf8 s.text ++ [Bytes.space])
  if opensWith word rest && isStatusText (rest.drop word.length) then some (tag, s) else none

/-- Each status is tried in turn. -/
theorem completion?_eq (line : Bytes) :
    completion? line
      = let bearing := bearing? (line.takeWhile isTagOctet) (line.dropWhile isTagOctet)
        if (line.takeWhile isTagOctet).isEmpty then none
        else bearing .ok <|> bearing .no <|> bearing .bad := rfl

theorem bearing?_some {label rest : Bytes} {s : Status}
    (h : bearing? label rest s = some (tag, status)) : label = tag ∧ s = status
      ∧ opensWith (Bytes.space :: (utf8 status.text ++ [Bytes.space])) rest := by
  unfold bearing? at h
  simp only at h
  split at h <;> cases h
  exact ⟨rfl, rfl, (Bool.and_eq_true_iff.1 ‹_›).1⟩

theorem completion?_some (h : completion? line = some (tag, status)) :
    tag = line.takeWhile isTagOctet ∧ tag ≠ []
      ∧ opensWith (Bytes.space :: (utf8 status.text ++ [Bytes.space]))
        (line.dropWhile isTagOctet) := by
  rw [completion?_eq] at h
  simp only at h
  split at h
  case isTrue => cases h
  case isFalse hne =>
  obtain ⟨s, hs⟩ : ∃ s, bearing? (line.takeWhile isTagOctet) (line.dropWhile isTagOctet) s
      = some (tag, status) := by
    rcases orElse_cases h with h | h
    · exact ⟨_, h⟩
    · rcases orElse_cases h with h | h <;> exact ⟨_, h⟩
  obtain ⟨ht, rfl, ho⟩ := bearing?_some hs
  exact ⟨ht.symm, fun he => hne (by rw [ht, he]; rfl), ho⟩

theorem serverWords_eq {label text : Bytes} (hl : Bytes.space ∉ label) (hw : Bytes.space ∉ word) :
    serverWords (label ++ Bytes.space :: (word ++ Bytes.space :: text)) = lossy text := by
  have hstop : ∀ {octets rest : Bytes}, Bytes.space ∉ octets →
      (octets ++ Bytes.space :: rest).dropWhile (· != Bytes.space) = Bytes.space :: rest := by
    intro octets rest ho
    refine (takeWhile_eq (fun b hb => ?_) (by simp)).2
    exact bne_iff_ne.2 fun he => ho (he ▸ hb)
  rw [serverWords, hstop hl, List.drop_succ_cons, List.drop_zero, hstop hw, List.drop_succ_cons,
    List.drop_zero]

/-- A completion is read off a line that closes a command. -/
theorem closes_of_completion? (h : completion? line = some (tag, status)) :
    Closes (lossy tag) ⟨status, serverWords line⟩ line := by
  obtain ⟨ht, hne, ho⟩ := completion?_some h
  have htag : ∀ b ∈ tag, isTagOctet b := fun b hb =>
    List.all_eq_true.1 List.all_takeWhile b (ht ▸ hb)
  obtain ⟨word, text, hrest, hword⟩ := exists_of_opensWith ho
  have hstatus : (utf8 status.text).map Bytes.capital = utf8 status.text := by
    cases status <;> rfl
  have hline : line = tag ++ Bytes.space :: (word ++ Bytes.space :: text) := by
    rw [ht, ← hrest, List.takeWhile_append_dropWhile]
  have hl : Bytes.space ∉ tag := fun hb => absurd (htag _ hb) (by decide)
  have hw : Bytes.space ∉ word := by
    intro hb
    have hmem : Bytes.space ∈ utf8 status.text := by
      rw [← hstatus, ← hword]
      exact List.mem_map.2 ⟨Bytes.space, hb, rfl⟩
    revert hmem
    cases status <;> decide
  refine ⟨tag, word, text, hline, hne, htag, hword.trans hstatus, rfl, ?_⟩
  rw [hline, serverWords_eq hl hw]

end Completions

theorem putBefore_dropFirst {octets line : Bytes} {m : Message} (h : m.opening = octets ++ line) :
    octets = [] ∨ putBefore octets (dropFirst octets.length m.parts) = m.parts := by
  obtain ⟨parts, _⟩ := m
  rcases parts with _ | ⟨⟨first⟩ | ⟨announcement, literal⟩, rest⟩ <;>
    simp only [Message.opening] at h
  · exact .inl (List.append_eq_nil_iff.1 h.symm).1
  · right
    rw [h, dropFirst, putBefore, List.drop_left]
  · right
    rw [h, dropFirst, putBefore, List.drop_left]

namespace Message

variable (m : Message)

theorem read_goAhead (h : utf8 "+" <+: m.opening) : m.read = .ok .goAhead :=
  if_pos (List.isPrefixOf_iff_prefix.2 h)

theorem not_prefix_of_data {line : Bytes} : ¬utf8 "+" <+: utf8 "* " ++ line := by
  rintro ⟨rest, h⟩
  exact absurd (List.cons.inj h).1 (by decide)

theorem read_data {line : Bytes} (h : m.opening = utf8 "* " ++ line) :
    m.read = .ok (.data ⟨((dataName? line).map (·.1)).getD "", dropFirst 2 m.parts⟩) := by
  unfold read
  simp only
  rw [if_neg, if_pos, h]
  · rfl
  · rw [h]
    exact List.isPrefixOf_iff_prefix.2 ⟨line, rfl⟩
  · rw [h, List.isPrefixOf_iff_prefix]
    exact not_prefix_of_data

/-- Any other line is read for the end of a command. -/
theorem read_line (hg : ¬utf8 "+" <+: m.opening) (hd : ¬utf8 "* " <+: m.opening) :
    m.read = match completion? m.opening with
      | some (tag, status) => .ok (.completed (lossy tag) ⟨status, serverWords m.opening⟩)
      | none => .error (.line (lossy m.opening)) := by
  rw [← List.isPrefixOf_iff_prefix] at hg hd
  exact (if_neg hg).trans (if_neg hd)

theorem read_other (hg : ¬utf8 "+" <+: m.opening) (hd : ¬utf8 "* " <+: m.opening) :
    (∃ tag c, m.read = .ok (.completed tag c) ∧ Closes tag c m.opening)
      ∨ m.read = .error (.line (lossy m.opening)) := by
  rw [m.read_line hg hd]
  rcases hc : completion? m.opening with _ | ⟨tag, status⟩
  · exact .inr rfl
  · exact .inl ⟨_, _, rfl, closes_of_completion? hc⟩

/-- A completion is read off no other line. -/
theorem closes_of_read {tag : String} {c : Completion} (h : m.read = .ok (.completed tag c)) :
    Closes tag c m.opening := by
  have hg : ¬utf8 "+" <+: m.opening := fun hg => by cases h.symm.trans (m.read_goAhead hg)
  have hd : ¬utf8 "* " <+: m.opening := by
    rintro ⟨line, hline⟩
    cases h.symm.trans (m.read_data hline.symm)
  rcases m.read_other hg hd with ⟨_, _, ho, hc⟩ | ho <;> cases h.symm.trans ho
  exact hc

/-- A message has one reading, and it loses nothing: a plus sign at its front asks the client to go
on; an asterisk and a space stand before data, which keep all parts and are named by the word of
their line; any other line closes a command, or is malformed and told whole. -/
theorem read_forms :
    (m.read = .ok .goAhead ↔ utf8 "+" <+: m.opening)
      ∧ ((∃ d, m.read = .ok (.data d)) ↔ utf8 "* " <+: m.opening)
      ∧ (∀ line, m.opening = utf8 "* " ++ line → ∃ d, m.read = .ok (.data d)
        ∧ putBefore (utf8 "* ") d.parts = m.parts
        ∧ (∀ word, NumbersWith word line ∨ BeginsWith word line →
          utf8 d.name = word.map Bytes.capital)
        ∧ ((∀ word, ¬(NumbersWith word line ∨ BeginsWith word line)) → d.name = ""))
      ∧ (¬utf8 "+" <+: m.opening → ¬utf8 "* " <+: m.opening →
        (∃ tag c, m.read = .ok (.completed tag c) ∧ Closes tag c m.opening)
          ∨ m.read = .error (.line (lossy m.opening)))
      ∧ ∀ text, m.opening = utf8 text → lossy m.opening = text := by
  have hdata : utf8 "* " <+: m.opening → ∃ d, m.read = .ok (.data d) := by
    rintro ⟨line, hline⟩
    exact ⟨_, m.read_data hline.symm⟩
  refine ⟨⟨fun h => ?_, m.read_goAhead⟩, ⟨fun ⟨d, h⟩ => ?_, hdata⟩, ?_, m.read_other, ?_⟩
  · refine Decidable.byContradiction fun hg => ?_
    by_cases hd : utf8 "* " <+: m.opening
    · obtain ⟨d, hd⟩ := hdata hd
      cases h.symm.trans hd
    · rcases m.read_other hg hd with ⟨_, _, ho, -⟩ | ho <;> cases h.symm.trans ho
  · refine Decidable.byContradiction fun hd => ?_
    by_cases hg : utf8 "+" <+: m.opening
    · cases h.symm.trans (m.read_goAhead hg)
    · rcases m.read_other hg hd with ⟨_, _, ho, -⟩ | ho <;> cases h.symm.trans ho
  · intro line hline
    refine ⟨_, m.read_data hline, ?_, fun _ => name_of_word, name_of_no_word⟩
    exact (putBefore_dropFirst hline).resolve_left (by decide)
  · intro text htext
    rw [htext, lossy_utf8]

end Message

end ImapProbe.Wire
