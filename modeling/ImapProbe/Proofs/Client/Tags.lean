import ImapProbe.Proofs.Client.Sending
import ImapProbe.Proofs.Forms
import ImapProbe.Proofs.Request

/-!
# Tags of the commands that are sent

A client draws its tags from a counter, one for each command that has a form, so the commands that
are sent have the tags `A0001`, `A0002` and so on, whatever came of them (`turns_tagged`). Each of
these may stand as a tag (`checkTag_tag`). A command without a form leaves the client as it was,
and a run less that command is the same run (`turns_eraseIdx`).
-/

namespace ImapProbe

open Wire

/-- A tag is the letter A and a number in decimal, of four digits at least; it has a zero in front
only where it would have fewer. -/
def TagOf (n : Nat) (tag : String) : Prop :=
  ∃ digits, tag.toList = 'A' :: digits ∧ (∀ d ∈ digits, d.isDigit)
    ∧ Nat.ofDigitChars 10 digits 0 = n ∧ 4 ≤ digits.length
    ∧ (4 < digits.length → digits.head? ≠ some '0')

/-- The number that stands in a tag. -/
def tagNumber (tag : String) : Nat := Nat.ofDigitChars 10 (tag.toList.drop 1) 0

theorem TagOf.tagNumber_eq {n : Nat} {tag : String} : TagOf n tag → tagNumber tag = n
  | ⟨digits, htag, _, hn, _⟩ => by rw [tagNumber, htag, List.drop_one, List.tail_cons, hn]

namespace Client

section Tags

variable (n : Nat)

theorem tagOf_tag : TagOf (n + 1) (tag n) := by
  have hdigit : ∀ d ∈ Nat.toDigits 10 (n + 1), d.isDigit := fun d hd =>
    Nat.isDigit_of_mem_toDigits (by decide) (by decide) hd
  refine ⟨List.replicate (4 - (Nat.toDigits 10 (n + 1)).length) '0' ++ Nat.toDigits 10 (n + 1),
    by simp [tag], ?_, ?_, ?_, ?_⟩
  · intro d hd
    rcases List.mem_append.1 hd with hd | hd
    · rw [List.eq_of_mem_replicate hd]
      decide
    · exact hdigit d hd
  · simp only [Nat.ofDigitChars_append, Nat.ofDigitChars_replicate_zero, Nat.mul_zero,
      Nat.ofDigitChars_ten_toDigits]
  · rw [List.length_append, List.length_replicate]
    omega
  · intro hlen
    rw [List.length_append, List.length_replicate] at hlen
    rw [show 4 - (Nat.toDigits 10 (n + 1)).length = 0 by omega]
    exact head?_toDigits (Nat.le_add_left 1 n)

theorem isTagOctet_tag : ∀ b ∈ utf8 (tag n), isTagOctet b := by
  obtain ⟨digits, htag, hdigits, -⟩ := tagOf_tag n
  have hascii : ∀ c ∈ (tag n).toList, c.toNat ≤ 0x7F ∧ isTagOctet (UInt8.ofNat c.toNat) := by
    rw [htag]
    refine List.forall_mem_cons.2 ⟨by decide, fun d hd => ?_⟩
    have hd := hdigits d hd
    have hle : d.toNat ≤ 57 ∧ 48 ≤ d.toNat := by
      simp only [Char.isDigit, Bool.and_eq_true, decide_eq_true_eq] at hd
      exact ⟨UInt32.le_iff_toNat_le.1 hd.2, UInt32.le_iff_toNat_le.1 hd.1⟩
    have hall : ∀ m < 58, 48 ≤ m → isTagOctet (UInt8.ofNat m) := by decide
    exact ⟨by omega, hall d.toNat (by omega) hle.2⟩
  rw [utf8_ascii fun c hc => (hascii c hc).1]
  rintro b hb
  obtain ⟨c, hc, rfl⟩ := List.mem_map.1 hb
  exact (hascii c hc).2

/-- No tag is refused. -/
theorem checkTag_tag : Command.checkTag (tag n) = .ok () := by
  refine Command.checkTag_ok (fun h => ?_) (isTagOctet_tag n)
  obtain ⟨digits, htag, -⟩ := tagOf_tag n
  have hlen := congrArg List.length h
  simp only [utf8, htag, List.flatMap_cons, List.length_append] at hlen
  exact absurd (Nat.add_eq_zero_iff.1 hlen).1 (by decide)

/-- So a command goes under a tag wherever it has a form at all. -/
theorem write_tag (command : Command) :
    command.write (tag n) = command.pieces.map (Command.written (tag n)) := by
  rw [Command.write, checkTag_tag]
  rcases command.pieces with e | pieces <;> rfl

end Tags

section Faults

variable {c c' : Client} {e : Fault}

theorem isEncoding_of_pull {k k' : Connection} (h : k.pull = (.error e, k')) :
    e.isEncoding = false := by
  fun_induction Connection.pull k with
  | case1 | case2 | case3 => exact Except.error.inj (Prod.mk.inj h).1 ▸ rfl
  | case4 timeout budget queued log rest ih => exact ih h
  | case5 => simp at h

theorem isEncoding_of_nextMessage (h : c.nextMessage = (.error e, c')) :
    e.isEncoding = false := by
  fun_induction nextMessage c with
  | case1 => simp at h
  | case2 => exact Except.error.inj (Prod.mk.inj h).1 ▸ rfl
  | case3 c a ha e' k hk => exact Except.error.inj (Prod.mk.inj h).1 ▸ isEncoding_of_pull hk
  | case4 c a ha octets k hk ih => exact ih h

theorem isEncoding_of_nextReading (h : c.nextReading = (.error e, c')) :
    e.isEncoding = false := by
  unfold nextReading at h
  rcases hm : c.nextMessage with ⟨e' | m, c₁⟩ <;> rw [hm] at h <;> obtain ⟨h, -⟩ := Prod.mk.inj h
  · exact Except.error.inj h ▸ isEncoding_of_nextMessage hm
  · rcases hr : m.read with e' | reading <;> rw [hr] at h
    · exact Except.error.inj h ▸ rfl
    · exact nomatch h

theorem isEncoding_of_gather {leaving : Bool} {data : List ServerData}
    (h : gather leaving data c = (.error e, c')) : e.isEncoding = false := by
  fun_induction gather leaving data c with
  | case1 data c e' c₁ hn => exact Except.error.inj (Prod.mk.inj h).1 ▸ isEncoding_of_nextReading hn
  | case2 | case3 => simp at h
  | case4 => exact Except.error.inj (Prod.mk.inj h).1 ▸ rfl
  | case5 data c d c₁ hn hbye ih => exact ih h

theorem isEncoding_of_settle {tag got : String} {completion : Completion} {data : List ServerData}
    (h : settle tag got completion data = .error e) : e.isEncoding = false := by
  unfold settle at h
  split at h
  · simp at h
  · exact Except.error.inj h ▸ rfl

/-- A command that was written fails for other reasons than its form. -/
theorem isEncoding_of_carryOut {tag : String} {leaving : Bool} {fragments : List Fragment}
    {data : List ServerData} (h : carryOut tag leaving fragments data c = (.error e, c')) :
    e.isEncoding = false := by
  fun_induction carryOut tag leaving fragments data c with
  | case1 data c e' c₁ hf | case6 octets rest data c e' c₁ hf =>
    rw [← Except.error.inj (Prod.mk.inj h).1, (flush_failed hf).1]
    rfl
  | case2 data c c₁ hf e' c₂ hg | case7 octets rest data c c₁ hf e' c₂ hg =>
    exact Except.error.inj (Prod.mk.inj h).1 ▸ isEncoding_of_gather hg
  | case3 => exact Except.error.inj (Prod.mk.inj h).1 ▸ rfl
  | case4 | case9 => exact isEncoding_of_settle (Prod.mk.inj h).1
  | case5 octets rest data c ih | case8 octets rest data c c₁ hf data' c₂ hg ih => exact ih h

end Faults

theorem Conducted.line_first {tag : String} {leaving : Bool} {octets queue : Bytes}
    {rest : List Fragment} {data : List ServerData} {j : List Deed} {r : Except Fault Response}
    (h : Conducted tag leaving (.line octets :: rest) data queue j r) :
    ∃ deeds, j = .wrote octets :: deeds := by
  cases h with
  | line hrest => exact ⟨_, rfl⟩
  | broken hp | failed hp | answered hp => simp [Pending] at hp

end Client

namespace Turn

open Client

/-- The command was not sent, as it has no form. -/
def isUnsent (t : Turn) : Bool :=
  match t.answer with
  | .error e => e.isEncoding
  | .ok _ => false

/-- The command has a form under this tag, and nothing but that is written and sent, the tag
first. -/
structure SentUnder (tag : String) (t : Turn) : Prop where
  form : t.command.write tag = .ok t.fragments
  writes : Journal.writes t.deeds <+: t.fragments.map Fragment.octets
  sent : Journal.sent t.deeds <+: (t.fragments.map Fragment.octets).flatten
  opening : ∃ octets deeds, t.deeds = .wrote (utf8 (tag ++ " ") ++ octets) :: deeds

theorem isUnsent_eq {t : Turn} (h : t.before.call t.command = (t.answer, t.after)) :
    t.isUnsent = !t.command.pieces.isOk := by
  rcases hp : t.command.pieces with e | pieces <;> rw [call, hp] at h
  · rw [isUnsent, ← (Prod.mk.inj h).1]
    rfl
  · rcases ha : t.answer with e | r <;> rw [isUnsent, ha]
    · exact isEncoding_of_carryOut (ha ▸ h)
    · rfl

/-- The first line of a command begins with its tag. -/
theorem written_opening (tag : String) (pieces : List Command.Piece) :
    ∃ octets rest, Command.written tag pieces = .line (utf8 (tag ++ " ") ++ octets) :: rest := by
  suffices h : ∀ line, ∃ octets rest,
      Command.writtenFrom line pieces = .line (line ++ octets) :: rest from h _
  induction pieces with
  | nil => exact fun line => ⟨_, _, rfl⟩
  | cons piece pieces ih =>
    intro line
    rcases piece with octets | octets
    · obtain ⟨octets', rest, h⟩ := ih (line ++ octets)
      exact ⟨octets ++ octets', rest, by rw [Command.writtenFrom, h, List.append_assoc]⟩
    · exact ⟨_, _, rfl⟩

theorem sentUnder {k : Connection} {t : Turn} (hk : k.queued = []) (hb : Reached k t.before)
    (h : t.before.call t.command = (t.answer, t.after)) (hsent : t.isUnsent = false) :
    t.SentUnder t.tag := by
  have hform : t.command.pieces.isOk := by simpa [isUnsent_eq h] using hsent
  have hpaced := paced hk hb hform h
  obtain ⟨-, hc⟩ := turn_conducted hform h
  rcases hp : t.command.pieces with e | pieces
  · simp [hp, Except.isOk, Except.toBool] at hform
  have hfragments : t.fragments = Command.written t.tag pieces := by rw [fragments, hp]
  refine ⟨by rw [hfragments, tag, write_tag, hp]; rfl, hpaced.writes, hpaced.sent, ?_⟩
  obtain ⟨octets, rest, hw⟩ := written_opening t.tag pieces
  rw [hfragments, hw] at hc
  exact ⟨octets, hc.line_first⟩

theorem after_of_isUnsent {t : Turn} (h : t.before.call t.command = (t.answer, t.after))
    (hunsent : t.isUnsent) : t.after = t.before := by
  rw [isUnsent_eq h] at hunsent
  rcases hp : t.command.pieces with e | pieces
  · rw [call, hp] at h
    exact (Prod.mk.inj h).2.symm
  · simp [hp, Except.isOk, Except.toBool] at hunsent

theorem issued_of_not_isUnsent {t : Turn} (h : t.before.call t.command = (t.answer, t.after))
    (hsent : t.isUnsent = false) : t.after.issued = t.before.issued + 1 := by
  rw [isUnsent_eq h] at hsent
  rcases call_did h with ⟨e, hp, -⟩ | ⟨pieces, j, -, hd, -⟩
  · simp [hp, Except.isOk, Except.toBool] at hsent
  · exact hd.issued

end Turn

namespace Client

/-- The turns in which a command was sent. -/
def sentTurns (commands : List Command) (c : Client) : List Turn :=
  (turns commands c).filter fun t => !t.isUnsent

theorem turn_cons (command : Command) (rest : List Command) (c : Client) :
    ∃ t : Turn, t.command = command ∧ t.before = c ∧ c.call command = (t.answer, t.after)
      ∧ turns (command :: rest) c = t :: turns rest t.after :=
  ⟨⟨command, c, (c.call command).1, (c.call command).2⟩, rfl, rfl, rfl, rfl⟩

/-- The commands that are sent draw one number after another. -/
theorem issued_sentTurns :
    ∀ (commands : List Command) (c : Client),
      (sentTurns commands c).map (·.before.issued)
        = List.range' c.issued (sentTurns commands c).length
  | [], _ => rfl
  | command :: rest, c => by
    obtain ⟨t, rfl, rfl, hcall, ht⟩ := turn_cons command rest c
    have ih := issued_sentTurns rest t.after
    rcases hu : t.isUnsent
    · rw [Turn.issued_of_not_isUnsent hcall hu] at ih
      simpa [sentTurns, ht, hu, List.range'_succ] using ih
    · rw [Turn.after_of_isUnsent hcall hu] at ih
      simpa [sentTurns, ht, hu, Turn.after_of_isUnsent hcall hu] using ih

theorem tags_sentTurns (commands : List Command) (c : Client) :
    (sentTurns commands c).map Turn.tag
      = (List.range' c.issued (sentTurns commands c).length).map tag := by
  rw [← issued_sentTurns commands c, List.map_map]
  rfl

theorem issued_le_length : ∀ (commands : List Command) (c : Client),
    ∀ t ∈ turns commands c, t.after.issued ≤ c.issued + commands.length
  | [], _, t, ht => by simp [turns] at ht
  | command :: rest, c, t, ht => by
    obtain ⟨t', rfl, rfl, hcall, hcons⟩ := turn_cons command rest c
    have hstep : t'.after.issued ≤ t'.before.issued + 1 := by
      rcases hu : t'.isUnsent
      · rw [Turn.issued_of_not_isUnsent hcall hu]
      · rw [Turn.after_of_isUnsent hcall hu]
        exact Nat.le_succ _
    rw [hcons] at ht
    rw [List.length_cons]
    rcases List.mem_cons.1 ht with rfl | ht
    · omega
    · have := issued_le_length rest t'.after t ht
      omega

/-- Without a command that has no form every other command goes as it went, from the same client to
the same client. -/
theorem turns_eraseIdx :
    ∀ (commands : List Command) (c : Client) (i : Nat) (t : Turn),
      (turns commands c)[i]? = some t → t.isUnsent →
      turns (commands.eraseIdx i) c = (turns commands c).eraseIdx i
  | [], _, _, _, h, _ => by simp [turns] at h
  | command :: rest, c, 0, t, h, hu => by
    obtain ⟨t', rfl, rfl, hcall, ht⟩ := turn_cons command rest c
    rw [ht] at h ⊢
    obtain rfl : t' = t := by simpa using h
    rw [List.eraseIdx_cons_zero, List.eraseIdx_cons_zero, Turn.after_of_isUnsent hcall hu]
  | command :: rest, c, i + 1, t, h, hu => by
    obtain ⟨t', rfl, rfl, hcall, ht⟩ := turn_cons command rest c
    rw [ht] at h ⊢
    have ih := turns_eraseIdx rest t'.after i t (by simpa using h) hu
    rw [List.eraseIdx_cons_succ, List.eraseIdx_cons_succ, ← ih, turns, hcall]

section Runs

variable {script : List Event} {timeout : Duration} {budget : Option Nat} {c : Client}
  {k : Connection}

/-- The commands of a run that are sent go under the tags `A0001`, `A0002` and so on, each of which
may stand as a tag; a command that has no form writes nothing, reads nothing and uses no tag, and
the run less that command is the same. -/
theorem turns_tagged (h : greet { script, timeout, budget } = (.ok c, k))
    (commands : List Command) (hcount : commands.length < UInt32.size - 1) :
    (∀ n t, (sentTurns commands c)[n]? = some t →
        TagOf (n + 1) t.tag ∧ Command.checkTag t.tag = .ok () ∧ t.SentUnder t.tag)
      ∧ ((sentTurns commands c).map Turn.tag).Nodup
      ∧ ((sentTurns commands c).map fun t => tagNumber t.tag).Pairwise (· < ·)
      ∧ (∀ t ∈ turns commands c, t.after.issued + 1 < UInt32.size
        ∧ (t.isUnsent → t.after = t.before ∧ t.deeds = []))
      ∧ ∀ i t, (turns commands c)[i]? = some t → t.isUnsent →
        turns (commands.eraseIdx i) c = (turns commands c).eraseIdx i := by
  obtain ⟨hc, -, hissued, -⟩ := greet_reached h rfl
  obtain ⟨hall, -⟩ := turns_reached commands c hc
  have hdrawn := issued_sentTurns commands c
  rw [hissued] at hdrawn
  refine ⟨fun n t ht => ?_, ?_, ?_, fun t ht => ⟨?_, fun hu => ?_⟩, turns_eraseIdx commands c⟩
  · have hn : t.before.issued = n := by
      have hlt := (List.getElem?_eq_some_iff.1 ht).1
      have heq := congrArg (·[n]?) hdrawn
      simpa [ht, List.getElem?_range' hlt] using heq
    obtain ⟨hmem, hu⟩ := List.mem_filter.1 (List.mem_of_getElem? ht)
    obtain ⟨hb, hcall⟩ := hall t hmem
    refine ⟨?_, checkTag_tag _, Turn.sentUnder rfl hb hcall (by simpa using hu)⟩
    rw [Turn.tag, hn]
    exact tagOf_tag n
  · rw [tags_sentTurns]
    exact List.pairwise_map.2 ((List.nodup_range' 1).imp fun hne heq => hne (tag_injective heq))
  · have hnumbers : (sentTurns commands c).map (fun t => tagNumber t.tag)
        = (List.range' 0 (sentTurns commands c).length).map (· + 1) := by
      rw [← hdrawn, List.map_map]
      exact List.map_congr_left fun t _ => (tagOf_tag _).tagNumber_eq
    rw [hnumbers, List.pairwise_map]
    exact (List.pairwise_lt_range' 1).imp fun hlt => Nat.succ_lt_succ hlt
  · have := issued_le_length commands c t ht
    omega
  · have hafter := Turn.after_of_isUnsent (hall t ht).2 hu
    exact ⟨hafter, by rw [Turn.deeds, hafter, List.drop_length]⟩

/-- A message that holds NUL between two commands that can be sent. -/
theorem turns_tagged_unformed :
    let script : List Event := [.chunk hello.octets, .failure .connectionReset]
    let commands : List Command := [.close, .append "box" [97, 0], .logout]
    ∃ c k, greet { script, timeout := ⟨1⟩ } = (.ok c, k)
      ∧ commands.length < UInt32.size - 1
      ∧ (sentTurns commands c).map Turn.tag = ["A0001", "A0002"]
      ∧ ∃ t, (turns commands c)[1]? = some t ∧ t.isUnsent
        ∧ turns [.close, .logout] c = (turns commands c).eraseIdx 1 := by
  intro script commands
  obtain ⟨-, c, k, h, -⟩ : ∃ chunks c k, greet { script, timeout := ⟨1⟩ } = (.ok c, k)
      ∧ Ahead c chunks _ [] := greet_hello [hello.octets] rfl (by simp)
  have hcount : commands.length < UInt32.size - 1 := by decide
  obtain ⟨-, -, -, -, herase⟩ := turns_tagged h commands hcount
  have hform : ∀ (command : Command) (c : Client),
      (⟨command, c, (c.call command).1, (c.call command).2⟩ : Turn).isUnsent
        = !command.pieces.isOk := fun command c => Turn.isUnsent_eq rfl
  have hunsent : (Command.append "box" [97, 0]).pieces.isOk = false := by decide
  have hsent : (sentTurns commands c).length = 2 := by
    simp only [sentTurns, commands, turns, List.filter_cons, hform, hunsent]
    rfl
  let c₁ := (c.call .close).2
  let t : Turn := ⟨.append "box" [97, 0], c₁, (c₁.call (.append "box" [97, 0])).1,
    (c₁.call (.append "box" [97, 0])).2⟩
  have hu : t.isUnsent := (hform _ c₁).trans (by rw [hunsent]; rfl)
  refine ⟨c, k, h, hcount, ?_, t, rfl, hu, herase 1 t rfl hu⟩
  rw [tags_sentTurns, (greet_reached h rfl).2.2.1, hsent]
  decide

end Runs

end Client

end ImapProbe
