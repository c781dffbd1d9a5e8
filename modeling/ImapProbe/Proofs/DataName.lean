import ImapProbe.Wire.Reading

/-!
# Names of data

The name of data is found behind an optional number and a space, as the longest run of letters and
hyphens there, and is read in capitals (`dataName_eq`); so it is a given name where the line names
that in some letter case (`dataName_eq_iff`).
-/

namespace ImapProbe.Wire

def isNameOctet (b : UInt8) : Bool := Bytes.isLetter b || b == 45

/-- A line begins with a name, in any letter case, behind an optional number and a space; no octet
of a name follows. -/
def Names (name line : Bytes) : Prop :=
  ∃ number word rest, line = number ++ word ++ rest
    ∧ (number = [] ∨ ∃ digits, digits ≠ [] ∧ (∀ b ∈ digits, Bytes.isDigit b)
      ∧ number = digits ++ [Bytes.space])
    ∧ (∀ b ∈ word, isNameOctet b) ∧ (∀ b, rest.head? = some b → isNameOctet b = false)
    ∧ word.map Bytes.capital = name

/-- The line less its number and the space behind that. -/
def afterNumber (line : Bytes) : Bytes :=
  match (line.takeWhile Bytes.isDigit).isEmpty, line.dropWhile Bytes.isDigit with
  | false, 32 :: rest => rest
  | _, _ => line

/-- The name in a line, in the letter case it has there. -/
def nameWord (line : Bytes) : Bytes := (afterNumber line).takeWhile isNameOctet

section Ascii

theorem pieces_ascii :
    ∀ {w : Bytes}, (∀ b ∈ w, b ≤ 0x7F) →
      Utf8.pieces .start w = w.map fun b => some (Char.ofNat b.toNat)
  | [], _ => rfl
  | b :: w, h => by
    rw [Utf8.pieces, Utf8.State.next, Utf8.first, if_pos (h b (List.mem_cons_self ..))]
    simp only
    rw [pieces_ascii fun b' hb => h b' (List.mem_cons_of_mem _ hb)]
    rfl

theorem lossy_ascii {w : Bytes} (h : ∀ b ∈ w, b ≤ 0x7F) :
    lossy w = String.ofList (w.map fun b => Char.ofNat b.toNat) := by
  rw [lossy, pieces_ascii h, List.map_map]
  rfl

theorem forall_ascii (P : UInt8 → Prop) (h : ∀ n : Fin 128, P (UInt8.ofNat n)) :
    ∀ b ≤ 0x7F, P b := fun b hb => by
  have hlt : b.toNat < 128 := Nat.lt_succ_of_le (UInt8.le_iff_toNat_le.mp hb)
  simpa using h ⟨b.toNat, hlt⟩

theorem toUpper_ascii : ∀ b : UInt8, b ≤ 0x7F →
    (Char.ofNat b.toNat).toUpper = Char.ofNat (Bytes.capital b).toNat :=
  forall_ascii _ (by decide)

theorem capital_ascii : ∀ b : UInt8, b ≤ 0x7F → Bytes.capital b ≤ 0x7F :=
  forall_ascii _ (by decide)

theorem ofNat_toNat_ascii : ∀ b : UInt8, b ≤ 0x7F →
    UInt8.ofNat (Char.ofNat b.toNat).toNat = b :=
  forall_ascii _ (by decide)

theorem map_capital_ascii {w : Bytes} (h : ∀ b ∈ w, b ≤ 0x7F) :
    ∀ b ∈ w.map Bytes.capital, b ≤ 0x7F := by
  intro b hb
  obtain ⟨b', hb', rfl⟩ := List.mem_map.mp hb
  exact capital_ascii b' (h b' hb')

theorem capitals_lossy {w : Bytes} (h : ∀ b ∈ w, b ≤ 0x7F) :
    capitals (lossy w) = lossy (w.map Bytes.capital) := by
  rw [lossy_ascii h, lossy_ascii (map_capital_ascii h), capitals, String.toList_ofList,
    List.map_map, List.map_map]
  congr 1
  exact List.map_congr_left fun b hb => toUpper_ascii b (h b hb)

/-- Lossy text of ASCII octets loses nothing. -/
theorem octets_lossy {w : Bytes} (h : ∀ b ∈ w, b ≤ 0x7F) :
    (lossy w).toList.map (fun c => UInt8.ofNat c.toNat) = w := by
  rw [lossy_ascii h, String.toList_ofList, List.map_map]
  conv => rhs; rw [← List.map_id w]
  exact List.map_congr_left fun b hb => ofNat_toNat_ascii b (h b hb)

theorem lossy_inj {w v : Bytes} (hw : ∀ b ∈ w, b ≤ 0x7F) (hv : ∀ b ∈ v, b ≤ 0x7F) :
    lossy w = lossy v ↔ w = v := by
  refine ⟨fun h => ?_, congrArg lossy⟩
  rw [← octets_lossy hw, ← octets_lossy hv, h]

theorem isNameOctet_ascii {b : UInt8} (h : isNameOctet b) : b ≤ 0x7F := by
  simp only [isNameOctet, Bytes.isLetter, Bytes.isUpper, Bytes.isLower, Bool.or_eq_true,
    Bool.and_eq_true, decide_eq_true_eq, beq_iff_eq, UInt8.le_iff_toNat_le] at h ⊢
  rcases h with (h | h) | rfl
  · exact Nat.le_trans h.2 (by decide)
  · exact Nat.le_trans h.2 (by decide)
  · decide

end Ascii

theorem nameWord_isNameOctet {line : Bytes} : ∀ b ∈ nameWord line, isNameOctet b :=
  fun b hb => List.all_eq_true.mp List.all_takeWhile b hb

theorem isNameOctet_of_isDigit {b : UInt8} (h : Bytes.isDigit b) : isNameOctet b = false := by
  have hb : b ≤ 0x7F := by
    simp only [Bytes.isDigit, Bool.and_eq_true, decide_eq_true_eq, UInt8.le_iff_toNat_le] at h
    exact UInt8.le_iff_toNat_le.mpr (Nat.le_trans h.2 (by decide))
  exact forall_ascii (fun b => Bytes.isDigit b → isNameOctet b = false) (by decide) b hb h

theorem name?_none {line : Bytes} (h : line.takeWhile isNameOctet = []) : name? line = none := by
  show (if (line.takeWhile isNameOctet).isEmpty then none else _) = none
  rw [h]
  rfl

theorem name?_some {line : Bytes} (h : line.takeWhile isNameOctet ≠ []) :
    ∃ rest, name? line = some (lossy ((line.takeWhile isNameOctet).map Bytes.capital), rest) := by
  have hw : ∀ b ∈ line.takeWhile isNameOctet, b ≤ 0x7F := fun b hb =>
    isNameOctet_ascii (List.all_eq_true.mp List.all_takeWhile b hb)
  refine ⟨line.dropWhile isNameOctet, ?_⟩
  rw [← capitals_lossy hw]
  exact if_neg fun he => h (List.isEmpty_iff.mp he)

theorem name_eq (line : Bytes) :
    ((name? line).map (·.1)).getD ""
      = lossy ((line.takeWhile isNameOctet).map Bytes.capital) := by
  by_cases h : line.takeWhile isNameOctet = []
  · rw [name?_none h, h]
    rfl
  · obtain ⟨rest, hr⟩ := name?_some h
    rw [hr]
    rfl

theorem afterNumber_eq {line rest : Bytes} (hn : line.takeWhile Bytes.isDigit ≠ [])
    (hd : line.dropWhile Bytes.isDigit = 32 :: rest) : afterNumber line = rest := by
  rw [afterNumber, List.isEmpty_eq_false_iff.mpr hn, hd]
  rfl

/-- A number counts only with a space behind it. -/
theorem dataName?_cases (line : Bytes) :
    (∃ rest, line.takeWhile Bytes.isDigit ≠ [] ∧ line.dropWhile Bytes.isDigit = Bytes.space :: rest
      ∧ afterNumber line = rest ∧ dataName? line = (name? rest <|> name? line))
    ∨ afterNumber line = line ∧ dataName? line = name? line := by
  rcases hn : line.takeWhile Bytes.isDigit with _ | ⟨d, digits⟩ <;>
    rcases hd : line.dropWhile Bytes.isDigit with _ | ⟨b, rest⟩
  case cons.cons =>
    by_cases hb : b = 32
    · exact .inl ⟨rest, by simp, by rw [hb]; rfl, by simp [afterNumber, hn, hd, hb],
        by simp [dataName?, hn, hd, hb]⟩
    · exact .inr ⟨by simp [afterNumber, hn, hd, hb], by simp [dataName?, hn, hd, hb]⟩
  all_goals exact .inr ⟨by simp [afterNumber, hn, hd], by simp [dataName?, hn, hd]⟩

/-- The name is that of the one word: a line that begins with a number has none to fall back on. -/
theorem dataName_eq (line : Bytes) :
    ((dataName? line).map (·.1)).getD "" = lossy ((nameWord line).map Bytes.capital) := by
  rw [nameWord]
  rcases dataName?_cases line with ⟨rest, hn, hd, ha, he⟩ | ⟨ha, he⟩ <;> rw [ha, he]
  · have hline : line.takeWhile isNameOctet = [] := by
      rcases line with _ | ⟨d, line⟩
      · rfl
      · have hdig : Bytes.isDigit d := by
          by_cases hdig : Bytes.isDigit d <;> simp_all
        rw [List.takeWhile_cons, isNameOctet_of_isDigit hdig]
        rfl
    by_cases h : rest.takeWhile isNameOctet = []
    · rw [name?_none h, name?_none hline, h]
      rfl
    · obtain ⟨rest', hr⟩ := name?_some h
      rw [hr]
      rfl
  · exact name_eq line

theorem takeWhile_eq {p : UInt8 → Bool} {w rest : Bytes} (hw : ∀ b ∈ w, p b)
    (hr : ∀ b, rest.head? = some b → p b = false) :
    (w ++ rest).takeWhile p = w ∧ (w ++ rest).dropWhile p = rest := by
  rw [List.takeWhile_append_of_pos hw, List.dropWhile_append_of_pos hw]
  rcases rest with _ | ⟨b, rest⟩
  · simp
  · simp [hr b rfl]

theorem names_iff {name line : Bytes} (hn : name ≠ []) :
    Names name line ↔ (nameWord line).map Bytes.capital = name := by
  constructor
  · rintro ⟨number, word, rest, rfl, rfl | ⟨digits, hne, hd, rfl⟩, hw, hr, rfl⟩
    · rcases word with _ | ⟨b, word⟩
      · exact absurd rfl hn
      have hb : Bytes.isDigit b = false := by
        rcases hb : Bytes.isDigit b with _ | _
        · rfl
        · simp [isNameOctet_of_isDigit hb] at hw
      have ha : afterNumber ([] ++ b :: word ++ rest) = b :: word ++ rest := by
        simp [afterNumber, hb]
      rw [nameWord, ha, (takeWhile_eq hw hr).1]
    · have hstop : ∀ b, (32 :: (word ++ rest)).head? = some b → Bytes.isDigit b = false := by
        simp [Bytes.isDigit]
      obtain ⟨ht, hd⟩ := takeWhile_eq hd hstop
      have ha : afterNumber (digits ++ 32 :: (word ++ rest)) = word ++ rest :=
        afterNumber_eq (by rw [ht]; exact hne) hd
      rw [show digits ++ [Bytes.space] ++ word ++ rest = digits ++ 32 :: (word ++ rest) by
        simp [Bytes.space], nameWord, ha, (takeWhile_eq hw hr).1]
  · intro h
    have hword : nameWord line ++ (afterNumber line).dropWhile isNameOctet = afterNumber line :=
      List.takeWhile_append_dropWhile
    have hhead : ∀ b, ((afterNumber line).dropWhile isNameOctet).head? = some b →
        isNameOctet b = false := fun b hb => by
      have := List.head?_dropWhile_not isNameOctet (afterNumber line)
      rwa [hb] at this
    rcases dataName?_cases line with ⟨rest, hn, hd, ha, -⟩ | ⟨ha, -⟩ <;> rw [ha] at hword hhead
    · refine ⟨line.takeWhile Bytes.isDigit ++ [Bytes.space], nameWord line, _, ?_,
        .inr ⟨_, hn, ?_, rfl⟩, nameWord_isNameOctet, hhead, h⟩
      · rw [List.append_assoc, hword, List.append_assoc, List.singleton_append, ← hd,
          List.takeWhile_append_dropWhile]
      · exact fun b hb => List.all_eq_true.mp List.all_takeWhile b hb
    · exact ⟨[], nameWord line, _, by simpa using hword.symm, .inl rfl, nameWord_isNameOctet, hhead,
        h⟩

/-- The name of data is a given one where the line names that. -/
theorem dataName_eq_iff {name line : Bytes} (hn : name ≠ []) (ha : ∀ b ∈ name, b ≤ 0x7F) :
    ((dataName? line).map (·.1)).getD "" = lossy name ↔ Names name line := by
  rw [dataName_eq, names_iff hn, lossy_inj (map_capital_ascii fun b hb =>
    isNameOctet_ascii (nameWord_isNameOctet b hb)) ha]

end ImapProbe.Wire
