import ImapProbe.Command.Form
import ImapProbe.Proofs.Session.Course

/-!
# Commands with a form

Whether a command can be written depends on few things: the arguments of LOGIN, the name of the
mailbox, and, for a message, whether NUL is in it (`pieces_append`). A description can always be
asked for, under any number but zero (`pieces_request`).
-/

namespace ImapProbe

theorem cut_of_notMem {separator : Char} :
    ∀ {cs : List Char}, separator ∉ cs → cut separator cs = [cs]
  | [], _ => rfl
  | c :: cs, h => by
    obtain ⟨hc, hcs⟩ := not_or.1 (mt List.mem_cons.2 h)
    rw [cut, if_neg (Ne.symm hc), cut_of_notMem hcs]

theorem exists_cut (separator : Char) (cs : List Char) :
    ∃ first parts, cut separator cs = first :: parts := by
  rcases h : cut separator cs with _ | ⟨first, parts⟩
  · have := length_cut separator cs
    simp [h] at this
  · exact ⟨first, parts, rfl⟩

/-- A separator cuts a text in two, whatever separators are around it. -/
theorem cut_append {separator : Char} (rest : List Char) :
    ∀ cs : List Char,
      cut separator (cs ++ separator :: rest) = cut separator cs ++ cut separator rest
  | [] => by simp [cut]
  | c :: cs => by
    rw [List.cons_append, cut, cut, cut_append rest cs]
    split
    · rfl
    · obtain ⟨first, parts, hparts⟩ := exists_cut separator cs
      rw [hparts]
      rfl

theorem cut_append_cons {separator : Char} (rest : List Char) {cs : List Char}
    (h : separator ∉ cs) : cut separator (cs ++ separator :: rest) = cs :: cut separator rest := by
  rw [cut_append, cut_of_notMem h, List.singleton_append]

/-- A number other than zero is written without a zero in front. -/
theorem head?_toDigits {n : Nat} (hn : 1 ≤ n) : (Nat.toDigits 10 n).head? ≠ some '0' := by
  induction n using Nat.strongRecOn with
  | ind n ih =>
    by_cases h : n < 10
    · have hdigit : ∀ m < 10, 1 ≤ m → Nat.digitChar m ≠ '0' := by decide
      rw [Nat.toDigits_of_lt_base h, List.head?_cons]
      exact fun h0 => hdigit n h hn (Option.some.inj h0)
    · have ih := ih (n / 10) (by omega) (by omega)
      rw [Nat.toDigits_of_base_le (by decide) (by omega)]
      rcases hd : Nat.toDigits 10 (n / 10) with _ | ⟨c, cs⟩
      · exact absurd hd Nat.toDigits_ne_nil
      · rw [hd] at ih
        exact ih

theorem toDigits_notMem {n : Nat} {c : Char} (hc : c.isDigit = false) : c ∉ Nat.toDigits 10 n :=
  fun hm => by simp [Nat.isDigit_of_mem_toDigits (by decide) (by decide) hm] at hc

theorem Bound.read?_toDigits {n : Nat} (hn : 1 ≤ n) (hlt : n < UInt32.size) :
    Bound.read? (Nat.toDigits 10 n) = some (.number n) := by
  have hstar : Nat.toDigits 10 n ≠ ['*'] := fun h => by
    have := Nat.isDigit_of_mem_toDigits (b := 10) (n := n) (c := '*') (by decide) (by decide)
      (by simp [h])
    simp at this
  have hplus : (Nat.toDigits 10 n).head? ≠ some '+' := fun h => by
    exact toDigits_notMem (by decide) (List.mem_of_head? h)
  have hall : (Nat.toDigits 10 n).all Char.isDigit = true := by
    rw [List.all_eq_true]
    exact fun c hc => Nat.isDigit_of_mem_toDigits (by decide) (by decide) hc
  simp only [read?, if_neg hstar, if_neg (head?_toDigits hn), if_neg hplus,
    Nat.ofDigitChars_ten_toDigits, hall]
  simp [hn, hlt, Nat.toDigits_ne_nil]

/-- The set of one number is read as it was written. -/
theorem SequenceSet.read?_onlyNumber {n : Nat} (hn : 1 ≤ n) (hlt : n < UInt32.size) :
    SequenceSet.read? (onlyNumber n) = some ⟨[.between (.number n) (.number n)]⟩ := by
  have htext : (onlyNumber n).toList = Nat.toDigits 10 n ++ ':' :: Nat.toDigits 10 n := by
    simp [onlyNumber, Nat.toString_eq_repr, Nat.repr_eq_ofList_toDigits]
  have hcomma : ',' ∉ Nat.toDigits 10 n ++ ':' :: Nat.toDigits 10 n := by
    simp only [List.mem_append, List.mem_cons, not_or]
    exact ⟨toDigits_notMem (by decide), by decide, toDigits_notMem (by decide)⟩
  have hrange : Range.read? (Nat.toDigits 10 n ++ ':' :: Nat.toDigits 10 n)
      = some (.between (.number n) (.number n)) := by
    rw [Range.read?, cut_append_cons _ (toDigits_notMem (by decide)),
      cut_of_notMem (toDigits_notMem (by decide))]
    simp only [Bound.read?_toDigits hn hlt]
    rfl
  rw [SequenceSet.read?, htext, cut_of_notMem hcomma]
  simp [hrange]

namespace Command

/-- A description can be asked for, under any number but zero. -/
theorem pieces_request {n : UInt32} (hn : 1 ≤ n.toNat) (d : Description) :
    (d.request n).pieces.isOk := by
  have hitems : ∃ items, Item.ofList d.items = .ok items := by
    cases d
    · exact ⟨[.body], by rfl⟩
    · exact ⟨[.bodyStructure], by rfl⟩
  obtain ⟨items, hitems⟩ := hitems
  simp only [Description.request, pieces, hitems, SequenceSet.read?_onlyNumber hn n.toNat_lt]
  rfl

/-- Whether a command on a mailbox has a form does not depend on the command. -/
theorem isOk_onMailbox (name mailbox : String) :
    (onMailbox name mailbox).isOk = (argument (mailboxName mailbox)).isOk := by
  simp only [onMailbox]
  rcases argument (mailboxName mailbox) with offset | piece <;> rfl

/-- On a mailbox that can be named, a message has a form unless NUL is in it. -/
theorem pieces_append {mailbox : String} (h : (argument (mailboxName mailbox)).isOk)
    (content : Bytes) :
    (0 ∉ content ∧ (Command.append mailbox content).pieces.isOk)
      ∨ ∃ offset, nulOffset? content = some offset
        ∧ (Command.append mailbox content).pieces = .error (.argument .data 0 offset) := by
  rcases hm : argument (mailboxName mailbox) with _ | piece
  · rw [hm] at h
    simp [Except.isOk, Except.toBool] at h
  · rcases ho : nulOffset? content with _ | offset
    · refine .inl ⟨fun h0 => ?_, ?_⟩
      · have := List.findIdx?_eq_none_iff.1 ho 0 h0
        simp at this
      · simp only [pieces, message, ho, hm]
        rfl
    · refine .inr ⟨offset, rfl, ?_⟩
      simp only [pieces, message, ho, hm]
      rfl

end Command

end ImapProbe
