import ImapProbe.Wire.Fragment

/-!
# Announcements

The machine that reads a line knows after each octet what the text so far ends in (`Spells`), so
it stands behind an announcement where a text ends in one, and nowhere else (`foldl_closed`).
-/

namespace ImapProbe.Wire

def addDigit (n : Nat) (b : UInt8) : Nat := n * 10 + (b.toNat - 48)

/-- The number that digits make. -/
def decimal (digits : Bytes) : Nat := digits.foldl addDigit 0

/-- Digits of a number that has 32 bits. -/
structure Numeral (digits : Bytes) (n : Nat) : Prop where
  ne_nil : digits ≠ []
  isDigit : ∀ b ∈ digits, Bytes.isDigit b
  decimal_eq : decimal digits = n
  lt : n < UInt32.size

/-- A text announces `n` octets: it ends in `{n}` or `{n+}`. -/
def Announces (text : Bytes) (n : Nat) : Prop :=
  ∃ before digits plus, text = before ++ 123 :: digits ++ plus ++ [125] ∧ Numeral digits n
    ∧ (plus = [] ∨ plus = [43])

namespace Announcing

/-- What the text read so far ends in. -/
def Spells (text : Bytes) : Announcing → Prop
  | .other => True
  | .opened => ∃ before, text = before ++ [123]
  | .digits n => ∃ before digits, text = before ++ 123 :: digits ∧ Numeral digits n
  | .plus n => ∃ before digits, text = before ++ 123 :: digits ++ [43] ∧ Numeral digits n
  | .closed n => Announces text n
  | .returned announced =>
    ∃ before, text = before ++ [Bytes.cr] ∧ ∀ n, announced = some n → Announces before n

theorem spells_next {text : Bytes} {s : Announcing} (h : Spells text s) (b : UInt8) :
    Spells (text ++ [b]) (s.next b) := by
  unfold next
  by_cases hb : b = 123
  · rw [if_pos hb]
    exact ⟨text, by rw [hb]⟩
  rw [if_neg hb]
  by_cases hc : b = Bytes.cr
  · rw [if_pos hc, hc]
    cases s <;> exact ⟨text, rfl, by rintro n ⟨⟩ <;> exact h⟩
  rw [if_neg hc]
  cases s with
  | other | closed | returned => trivial
  | opened =>
    obtain ⟨before, rfl⟩ := h
    simp only
    split
    · rename_i hd
      refine ⟨before, [b], by simp, by simp, by simpa using hd, by simp [decimal, addDigit], ?_⟩
      have := b.toNat_lt
      simp only [UInt32.size]
      omega
    · trivial
  | digits n =>
    obtain ⟨before, digits, rfl, hn⟩ := h
    simp only
    split
    · rename_i hd
      split
      · rename_i hlt
        refine ⟨before, digits ++ [b], by simp, by simp, ?_, ?_, hlt⟩
        · intro d hmem
          rcases List.mem_append.mp hmem with hmem | hmem
          · exact hn.isDigit d hmem
          · rw [List.mem_singleton.mp hmem]
            exact hd
        · simp [decimal, addDigit, ← hn.decimal_eq]
      · trivial
    · split
      · rename_i hplus
        exact ⟨before, digits, by rw [hplus], hn⟩
      · split
        · rename_i hclose
          exact ⟨before, digits, [], by simp [hclose], hn, .inl rfl⟩
        · trivial
  | plus n =>
    obtain ⟨before, digits, rfl, hn⟩ := h
    simp only
    split
    · rename_i hclose
      exact ⟨before, digits, [43], by rw [hclose], hn, .inr rfl⟩
    · trivial

theorem spells_foldl :
    ∀ (line text : Bytes) (s : Announcing), Spells text s →
      Spells (text ++ line) (line.foldl next s)
  | [], text, s, h => by simpa using h
  | b :: line, text, s, h => by
    have := spells_foldl line _ _ (spells_next h b)
    rwa [List.append_assoc] at this

theorem ne_of_isDigit {b : UInt8} (h : Bytes.isDigit b) : b ≠ 123 ∧ b ≠ Bytes.cr := by
  constructor <;> rintro rfl <;> simp [Bytes.isDigit, Bytes.cr] at h

theorem next_opened {b : UInt8} (h : Bytes.isDigit b) :
    opened.next b = .digits (addDigit 0 b) := by
  obtain ⟨h₁, h₂⟩ := ne_of_isDigit h
  simp only [next, if_neg h₁, if_neg h₂, if_pos h, addDigit, Nat.zero_mul, Nat.zero_add]

theorem next_digits {b : UInt8} (h : Bytes.isDigit b) {n : Nat}
    (hlt : addDigit n b < UInt32.size) : (Announcing.digits n).next b = .digits (addDigit n b) := by
  obtain ⟨h₁, h₂⟩ := ne_of_isDigit h
  simp only [addDigit] at hlt
  simp only [next, if_neg h₁, if_neg h₂, if_pos h, if_pos hlt, addDigit]

theorem le_foldl_addDigit : ∀ (ds : Bytes) (n : Nat), n ≤ ds.foldl addDigit n
  | [], _ => Nat.le_refl _
  | b :: ds, n => by
    have hle := le_foldl_addDigit ds (addDigit n b)
    have hn : n ≤ addDigit n b := by
      unfold addDigit
      omega
    exact Nat.le_trans hn hle

theorem foldl_digits :
    ∀ (ds : Bytes) (n : Nat), (∀ b ∈ ds, Bytes.isDigit b) → ds.foldl addDigit n < UInt32.size →
      ds.foldl next (.digits n) = .digits (ds.foldl addDigit n)
  | [], _, _, _ => rfl
  | b :: ds, n, hd, hlt => by
    have hle := le_foldl_addDigit ds (addDigit n b)
    rw [List.foldl_cons, List.foldl_cons,
      next_digits (hd b (List.mem_cons_self ..)) (Nat.lt_of_le_of_lt hle hlt)]
    exact foldl_digits ds _ (fun b' hb' => hd b' (List.mem_cons_of_mem _ hb')) hlt

/-- The machine stands behind an announcement where the text ends in one. -/
theorem foldl_closed {text : Bytes} {n : Nat} :
    text.foldl next .other = .closed n ↔ Announces text n := by
  constructor
  · intro h
    have := spells_foldl text [] .other trivial
    rwa [h] at this
  · rintro ⟨before, ds, plus, rfl, hn, hp⟩
    rcases ds with _ | ⟨d, ds⟩
    · exact absurd rfl hn.ne_nil
    have hopen : ∀ s : Announcing, s.next 123 = .opened := fun _ => rfl
    have hval : ds.foldl addDigit (addDigit 0 d) = n := hn.decimal_eq
    have hrest := foldl_digits ds (addDigit 0 d)
      (fun b hb => hn.isDigit b (List.mem_cons_of_mem _ hb)) (hval ▸ hn.lt)
    rw [hval] at hrest
    simp only [List.foldl_append, List.foldl_cons, hopen,
      next_opened (hn.isDigit d (List.mem_cons_self ..)), hrest]
    rcases hp with rfl | rfl <;> rfl

theorem not_announces {text : Bytes} {s : Announcing} (h : text.foldl next .other = s)
    (hs : ∀ n, s ≠ .closed n) (n : Nat) : ¬ Announces text n :=
  fun ha => hs n (h.symm.trans (foldl_closed.mpr ha))

end Announcing

end ImapProbe.Wire
