import ImapProbe.Command.Form
import ImapProbe.Proofs.Announcement
import ImapProbe.Proofs.DataName
import ImapProbe.Proofs.Utf8

/-!
# Arguments

The reader of an argument finds its form by its first octet: a text between double quotes, a literal
behind its announcement, or an atom. Octets without NUL that are written as an argument are read as
they were given, and the reader stops where the argument ends (`argument_carries`); the name of a
mailbox is read as the client has it (`mailbox_carries`).
-/

namespace ImapProbe

open Wire

section Ascii

theorem utf8_ascii {s : String} (h : ∀ c ∈ s.toList, c.toNat ≤ 0x7F) :
    utf8 s = s.toList.map fun c => UInt8.ofNat c.toNat := by
  have hone : ∀ c ∈ s.toList, String.utf8EncodeChar c = [UInt8.ofNat c.toNat] := fun c hc =>
    if_pos (h c hc)
  rw [utf8, List.map_eq_flatMap, List.flatMap, List.flatMap, List.map_congr_left hone]

/-- Digits of a number. -/
structure Decimal (digits : Bytes) (n : Nat) : Prop where
  ne_nil : digits ≠ []
  isDigit : ∀ b ∈ digits, Bytes.isDigit b
  decimal_eq : decimal digits = n

theorem utf8_toString (n : Nat) :
    utf8 (toString n) = (Nat.toDigits 10 n).map fun c => UInt8.ofNat c.toNat := by
  have hn : (toString n).toList = Nat.toDigits 10 n := by
    simp [Nat.toString_eq_repr, Nat.repr_eq_ofList_toDigits]
  rw [utf8_ascii, hn]
  intro c hc
  rw [hn] at hc
  have hd := Nat.isDigit_of_mem_toDigits (by decide) (by decide) hc
  simp only [Char.isDigit, Bool.and_eq_true, decide_eq_true_eq] at hd
  exact Nat.le_trans (UInt32.le_iff_toNat_le.1 hd.2) (by decide)

theorem decimal_toString (n : Nat) : Decimal (utf8 (toString n)) n := by
  have hdigit : ∀ m < 10, Bytes.isDigit (UInt8.ofNat (Nat.digitChar m).toNat)
      ∧ addDigit 0 (UInt8.ofNat (Nat.digitChar m).toNat) = m := by decide
  rw [utf8_toString]
  induction n using Nat.strongRecOn with
  | ind n ih =>
    by_cases h : n < 10
    · obtain ⟨hd, hv⟩ := hdigit n h
      rw [Nat.toDigits_of_lt_base h]
      exact ⟨by simp, by simpa using hd, hv⟩
    · obtain ⟨-, hd, hv⟩ := ih (n / 10) (by omega)
      obtain ⟨hd', hv'⟩ := hdigit (n % 10) (by omega)
      rw [Nat.toDigits_of_base_le (by decide) (by omega), List.map_append]
      refine ⟨by simp, ?_, ?_⟩
      · rw [List.forall_mem_append]
        exact ⟨hd, by simpa using hd'⟩
      · rw [decimal, List.foldl_append, ← decimal, hv]
        simp only [addDigit] at hv' ⊢
        simp only [List.map_cons, List.map_nil, List.foldl_cons, List.foldl_nil, addDigit]
        omega

end Ascii

namespace Grammar

/-- The rest of a text between double quotes, and what follows it. -/
def quoted? : Bytes → Option (Bytes × Bytes)
  | [] => none
  | b :: bs =>
    if b = 34 then some ([], bs)
    else if b = 92 then
      match bs with
      | [] => none
      | c :: rest =>
        if c = 34 ∨ c = 92 then (quoted? rest).map fun r => (c :: r.1, r.2) else none
    else if isTextOctet b then (quoted? bs).map fun r => (b :: r.1, r.2)
    else none

/-- A number and what follows it. -/
def number? (bs : Bytes) : Option (Nat × Bytes) :=
  let digits := bs.takeWhile Bytes.isDigit
  if digits.isEmpty then none else some (decimal digits, bs.dropWhile Bytes.isDigit)

/-- The rest of a literal, behind its opening brace, and what follows it. -/
def literal? (bs : Bytes) : Option (Bytes × Bytes) :=
  match number? bs with
  | some (n, 125 :: 13 :: 10 :: rest) =>
    if n ≤ rest.length then some (rest.take n, rest.drop n) else none
  | _ => none

def atom? (bs : Bytes) : Option (Bytes × Bytes) :=
  let word := bs.takeWhile isBareOctet
  if word.isEmpty then none else some (word, bs.dropWhile isBareOctet)

def string? : Bytes → Option (Bytes × Bytes)
  | 34 :: bs => quoted? bs
  | 123 :: bs => literal? bs
  | bs => atom? bs

/-- A message, which is a literal always. -/
def message? : Bytes → Option (Bytes × Bytes)
  | 123 :: bs => literal? bs
  | _ => none

/-- INBOX, in whatever letter case it is given. -/
def mailboxName? (bs : Bytes) : Option (Bytes × Bytes) :=
  (string? bs).map fun r =>
    (if r.1.map Bytes.capital = utf8 "INBOX" then utf8 "INBOX" else r.1, r.2)

/-- Nothing of an atom or a number follows. -/
def Stops (rest : Bytes) : Prop := ∀ b, rest.head? = some b → isBareOctet b = false

section Reading

variable {octets digits rest : Bytes} {n : Nat}

theorem isBareOctet_of_isDigit (b : UInt8) (hb : Bytes.isDigit b) : isBareOctet b := by
  have hascii : b ≤ 0x7F := by
    simp only [Bytes.isDigit, Bool.and_eq_true, decide_eq_true_eq] at hb
    exact UInt8.le_trans hb.2 (by decide)
  exact forall_ascii (fun b => Bytes.isDigit b → isBareOctet b) (by decide) b hascii hb

theorem isBareOctet_of_isLetter (b : UInt8) (hb : Bytes.isLetter b) : isBareOctet b := by
  have hascii : b ≤ 0x7F := isNameOctet_ascii (by rw [isNameOctet, hb, Bool.true_or])
  exact forall_ascii (fun b => Bytes.isLetter b → isBareOctet b) (by decide) b hascii hb

theorem stops_cons {b : UInt8} (h : isBareOctet b = false) : Stops (b :: rest) := by
  intro c hc
  rwa [← Option.some.inj hc]

/-- What an atom may hold does not stand where it stops. -/
theorem Stops.head_not {p : UInt8 → Bool} (hr : Stops rest) (hp : ∀ b, p b → isBareOctet b) :
    ∀ b, rest.head? = some b → p b = false := by
  intro b hb
  rcases hpb : p b with _ | _
  · rfl
  · have hbare := hp b hpb
    rw [hr b hb] at hbare
    exact absurd hbare (by decide)

theorem quoted?_plain {b : UInt8} (hb : isTextOctet b) (h34 : b ≠ 34) (h92 : b ≠ 92)
    (bs : Bytes) : quoted? (b :: bs) = (quoted? bs).map fun r => (b :: r.1, r.2) := by
  rw [quoted?.eq_def]
  simp only [if_neg h34, if_neg h92, if_pos hb]

theorem quoted?_close (bs : Bytes) : quoted? (34 :: bs) = some ([], bs) := by
  rw [quoted?.eq_def]
  rfl

theorem quoted?_escape {b : UInt8} (hb : b = 34 ∨ b = 92) (bs : Bytes) :
    quoted? (92 :: b :: bs) = (quoted? bs).map fun r => (b :: r.1, r.2) := by
  rw [quoted?.eq_def]
  simp [hb]

theorem quoted?_escaped (rest : Bytes) : ∀ {octets : Bytes}, (∀ b ∈ octets, isTextOctet b) →
    quoted? ((octets.flatMap fun b => if b = 34 ∨ b = 92 then [92, b] else [b]) ++ 34 :: rest)
      = some (octets, rest)
  | [], _ => quoted?_close rest
  | b :: octets, h => by
    obtain ⟨hb, h⟩ := List.forall_mem_cons.1 h
    have ih := quoted?_escaped rest h
    rw [List.flatMap_cons, List.append_assoc]
    by_cases hesc : b = 34 ∨ b = 92
    · rw [if_pos hesc, List.cons_append, List.singleton_append, quoted?_escape hesc, ih]
      rfl
    · rw [if_neg hesc, List.singleton_append,
        quoted?_plain hb (fun h => hesc (.inl h)) (fun h => hesc (.inr h)), ih]
      rfl

theorem number?_decimal (hd : Decimal digits n)
    (hr : ∀ b, rest.head? = some b → Bytes.isDigit b = false) :
    number? (digits ++ rest) = some (n, rest) := by
  obtain ⟨ht, hrest⟩ := takeWhile_eq hd.isDigit hr
  simp only [number?, ht, hrest, hd.decimal_eq, List.isEmpty_eq_false_iff.2 hd.ne_nil]
  rfl

theorem string?_quote (h : ∀ b ∈ octets, isTextOctet b) :
    string? (Command.quote octets ++ rest) = some (octets, rest) := by
  have hq := quoted?_escaped rest h
  simpa [Command.quote, string?] using hq

theorem announcement_eq (size : Nat) : Command.announcement size
    = 123 :: (utf8 (toString size) ++ [125]) ++ Bytes.crlf := by
  have hopen : utf8 "\x7b" = [123] := by decide
  have hclose : utf8 "\x7d" = [125] := by decide
  rw [Command.announcement, utf8_append, utf8_append, hopen, hclose]
  rfl

theorem message?_literal (octets rest : Bytes) :
    message? (Command.announcement octets.length ++ octets ++ rest) = some (octets, rest)
      ∧ string? (Command.announcement octets.length ++ octets ++ rest) = some (octets, rest) := by
  have hann : Command.announcement octets.length ++ octets ++ rest
      = 123 :: (utf8 (toString octets.length) ++ 125 :: 13 :: 10 :: (octets ++ rest)) := by
    rw [announcement_eq]
    simp [Bytes.crlf, Bytes.cr, Bytes.lf]
  have hstop : ∀ b, (125 :: 13 :: 10 :: (octets ++ rest)).head? = some b →
      Bytes.isDigit b = false := by simp [Bytes.isDigit]
  have hnumber := number?_decimal (decimal_toString octets.length) hstop
  have hliteral : literal? (utf8 (toString octets.length) ++ 125 :: 13 :: 10 :: (octets ++ rest))
      = some (octets, rest) := by
    rw [literal?, hnumber]
    simp
  rw [hann]
  exact ⟨hliteral, hliteral⟩

theorem string?_bare (hne : octets ≠ []) (hb : ∀ b ∈ octets, isBareOctet b) (hr : Stops rest) :
    string? (octets ++ rest) = some (octets, rest) := by
  obtain ⟨ht, hrest⟩ := takeWhile_eq hb hr
  have hatom : atom? (octets ++ rest) = some (octets, rest) := by
    simp only [atom?, ht, hrest, List.isEmpty_eq_false_iff.2 hne]
    rfl
  obtain ⟨b, octets, rfl⟩ := List.exists_cons_of_ne_nil hne
  have hbare : isBareOctet b := hb b List.mem_cons_self
  rw [List.cons_append] at hatom ⊢
  rw [string?, hatom] <;> intro bs he <;> obtain ⟨rfl, -⟩ := List.cons.inj he <;>
    exact absurd hbare (by decide)

end Reading

end Grammar

namespace Command

open Grammar

/-- The octets of a piece, those of a literal behind its announcement. -/
def Piece.octets : Piece → Bytes
  | .text octets => octets
  | .literal octets => announcement octets.length ++ octets

/-- Octets of which none ends a line or opens an announcement. -/
def Unbroken (octets : Bytes) : Prop := ∀ b ∈ octets, b ≠ Bytes.cr ∧ b ≠ Bytes.lf ∧ b ≠ 123

instance (octets : Bytes) : Decidable (Unbroken octets) :=
  List.decidableBAll (fun b => b ≠ Bytes.cr ∧ b ≠ Bytes.lf ∧ b ≠ 123) octets

/-- Text that ends no line, and at the end of which no announcement is open. -/
def Piece.IsPlain : Piece → Prop
  | .text octets =>
    Bytes.cr ∉ octets ∧ Bytes.lf ∉ octets ∧ (123 ∉ octets ∨ octets.getLast? = some 34)
  | .literal _ => True

/-- A piece carries a value: the reader gets it back, and stops where the piece ends. -/
structure Piece.Carries {α : Type} (piece : Piece) (read : Bytes → Option (α × Bytes))
    (value : α) : Prop where
  plain : piece.IsPlain
  read_octets : ∀ rest, Stops rest → read (piece.octets ++ rest) = some (value, rest)

section Unbroken

variable {octets octets' : Bytes}

theorem Unbroken.append (h : Unbroken octets) (h' : Unbroken octets') :
    Unbroken (octets ++ octets') :=
  List.forall_mem_append.2 ⟨h, h'⟩

theorem Unbroken.plain (h : Unbroken octets) : (Piece.text octets).IsPlain :=
  ⟨fun hm => (h _ hm).1 rfl, fun hm => (h _ hm).2.1 rfl, .inl fun hm => (h _ hm).2.2 rfl⟩

theorem unbroken_of_bare (h : ∀ b ∈ octets, isBareOctet b) : Unbroken octets := by
  intro b hb
  have hbare := h b hb
  refine ⟨?_, ?_, ?_⟩ <;> rintro rfl <;> exact absurd hbare (by decide)

theorem unbroken_toString (n : Nat) : Unbroken (utf8 (toString n)) :=
  unbroken_of_bare fun b hb => isBareOctet_of_isDigit b ((decimal_toString n).isDigit b hb)

end Unbroken

section Arguments

variable {octets : Bytes}

theorem bare_carries (hne : octets ≠ []) (h : ∀ b ∈ octets, isBareOctet b) :
    (Piece.text octets).Carries string? octets where
  plain := (unbroken_of_bare h).plain
  read_octets _ := string?_bare hne h

theorem mem_quote {b : UInt8} (h : b ∈ quote octets) : b = 34 ∨ b = 92 ∨ b ∈ octets := by
  simp only [quote, List.cons_append, List.mem_cons, List.mem_append, List.mem_flatMap,
    List.not_mem_nil, or_false] at h
  rcases h with rfl | ⟨c, hc, hb⟩ | rfl
  · exact .inl rfl
  · split at hb <;> simp only [List.mem_cons, List.not_mem_nil, or_false] at hb
    · rcases hb with rfl | rfl
      · exact .inr (.inl rfl)
      · exact .inr (.inr hc)
    · exact .inr (.inr (hb ▸ hc))
  · exact .inl rfl

theorem quote_carries (h : ∀ b ∈ octets, isTextOctet b) :
    (Piece.text (quote octets)).Carries string? octets where
  plain := by
    have htext : ∀ b ∈ quote octets, isTextOctet b := fun b hb => by
      rcases mem_quote hb with rfl | rfl | hb
      · decide
      · decide
      · exact h b hb
    refine ⟨fun hm => absurd (htext _ hm) (by decide), fun hm => absurd (htext _ hm) (by decide),
      .inr ?_⟩
    rw [quote, List.getLast?_concat]
  read_octets _ _ := string?_quote h

theorem literal_carries (octets : Bytes) : (Piece.literal octets).Carries string? octets where
  plain := trivial
  read_octets rest _ := (message?_literal octets rest).2

theorem nulOffset?_eq_none (h : 0 ∉ octets) : nulOffset? octets = none := by
  rw [nulOffset?, List.findIdx?_eq_none_iff]
  exact fun b hb => beq_eq_false_iff_ne.2 fun h0 => h (h0 ▸ hb)

/-- Whatever octets without NUL are written, the reader gets them. -/
theorem argument_carries (h : 0 ∉ octets) :
    ∃ piece, argument octets = .ok piece ∧ piece.Carries string? octets := by
  rw [argument]
  split
  · rename_i hb
    simp only [Bool.and_eq_true, Bool.not_eq_true', List.isEmpty_eq_false_iff,
      List.all_eq_true] at hb
    exact ⟨_, rfl, bare_carries hb.1 hb.2⟩
  split
  · rename_i ht
    exact ⟨_, rfl, quote_carries (List.all_eq_true.1 ht)⟩
  · rw [nulOffset?_eq_none h]
    exact ⟨_, rfl, literal_carries octets⟩

theorem message_carries (h : 0 ∉ octets) :
    message octets = .ok (.literal octets) ∧ (Piece.literal octets).Carries message? octets := by
  rw [message, nulOffset?_eq_none h]
  exact ⟨rfl, trivial, fun rest _ => (message?_literal octets rest).1⟩

end Arguments

section Mailboxes

theorem ascii_of_capital {b : UInt8} (h : Bytes.capital b ≤ 0x7F) : b ≤ 0x7F := by
  unfold Bytes.capital at h
  split at h
  · rename_i hlower
    simp only [Bytes.isLower, Bool.and_eq_true, decide_eq_true_eq] at hlower
    exact UInt8.le_trans hlower.2 (by decide)
  · exact h

/-- A text is INBOX but for its letter case where its octets are. -/
theorem capitals_eq_inbox {mailbox : String}
    (h : (utf8 mailbox).map Bytes.capital = utf8 "INBOX") : capitals mailbox = "INBOX" := by
  have hascii : ∀ b ∈ utf8 mailbox, b ≤ 0x7F := fun b hb => by
    have hinbox : (utf8 "INBOX").all (fun c => decide (c ≤ 0x7F)) = true := by decide
    have hmem : Bytes.capital b ∈ utf8 "INBOX" := h ▸ List.mem_map_of_mem hb
    exact ascii_of_capital (of_decide_eq_true (List.all_eq_true.1 hinbox _ hmem))
  rw [← lossy_utf8 mailbox, capitals_lossy hascii, h]
  rfl

/-- The name of a mailbox reaches the reader, INBOX in any letter case as INBOX. -/
theorem mailbox_carries {mailbox : String} (h : 0 ∉ utf8 mailbox) :
    ∃ piece, argument (mailboxName mailbox) = .ok piece
      ∧ piece.Carries mailboxName? (mailboxName mailbox) := by
  have hname : 0 ∉ mailboxName mailbox
      ∧ ((mailboxName mailbox).map Bytes.capital = utf8 "INBOX" →
        utf8 "INBOX" = mailboxName mailbox) := by
    unfold mailboxName
    split
    · exact ⟨by decide, fun _ => rfl⟩
    · rename_i hother
      exact ⟨h, fun he => absurd (capitals_eq_inbox he) hother⟩
  obtain ⟨piece, hp, hc⟩ := argument_carries hname.1
  refine ⟨piece, hp, hc.plain, fun rest hr => ?_⟩
  rw [mailboxName?, hc.read_octets rest hr, Option.map_some, ite_eq_right_iff.2 hname.2]

end Mailboxes

end Command

end ImapProbe
