import ImapProbe.Text.Utf8
import Mathlib.Tactic.SplitIfs

/-!
# Text and its octets

The octets of a character are read as that character, whatever follows them (`pieces_character`).
So a text that was turned into octets is read back as it was (`lossy_utf8`). Octets are ordered as
the texts that they stand for (`utf8_lt_iff`).
-/

namespace ImapProbe

namespace Utf8

variable {k value owed : Nat} {low high : UInt8}

section Octets

variable (hk : k < 256) {b : UInt8}

include hk

theorem toNat_octet : (UInt8.ofNat k).toNat = k := by
  rw [UInt8.toNat_ofNat', Nat.mod_eq_of_lt hk]

theorem octet_le : UInt8.ofNat k ≤ b ↔ k ≤ b.toNat := by
  rw [UInt8.le_iff_toNat_le, toNat_octet hk]

theorem le_octet : b ≤ UInt8.ofNat k ↔ b.toNat ≤ k := by
  rw [UInt8.le_iff_toNat_le, toNat_octet hk]

theorem octet_lt : UInt8.ofNat k < b ↔ k < b.toNat := by
  rw [UInt8.lt_iff_toNat_lt, toNat_octet hk]

theorem octet_eq : UInt8.ofNat k = b ↔ k = b.toNat := by
  rw [← UInt8.toNat_inj, toNat_octet hk]

end Octets

section First

theorem first_one (hk : k ≤ 0x7F) : first (UInt8.ofNat k) = ([some (Char.ofNat k)], .start) := by
  have h256 : k < 256 := by omega
  have hle : UInt8.ofNat k ≤ 0x7F := (octet_le h256).2 hk
  unfold first
  rw [if_pos hle, toNat_octet h256]

theorem first_two (hk : 0xC2 ≤ k ∧ k ≤ 0xDF) :
    first (UInt8.ofNat k) = ([], .inside (k - 0xC0) 1 0x80 0xBF) := by
  have h256 : k < 256 := by omega
  unfold first
  rw [if_neg, if_neg, if_pos, toNat_octet h256] <;>
    simp only [octet_le h256, octet_lt h256, UInt8.reduceToNat] <;> omega

theorem first_three (hk : 0xE0 ≤ k ∧ k ≤ 0xEF) :
    first (UInt8.ofNat k) = ([], .inside (k - 0xE0) 2 (if k = 0xE0 then 0xA0 else 0x80)
      (if k = 0xED then 0x9F else 0xBF)) := by
  have h256 : k < 256 := by omega
  unfold first
  rw [if_neg, if_neg, if_neg, if_pos, toNat_octet h256] <;>
    simp only [octet_le h256, octet_lt h256, octet_eq h256, UInt8.reduceToNat] <;> omega

theorem first_four (hk : 0xF0 ≤ k ∧ k ≤ 0xF4) :
    first (UInt8.ofNat k) = ([], .inside (k - 0xF0) 3 (if k = 0xF0 then 0x90 else 0x80)
      (if k = 0xF4 then 0x8F else 0xBF)) := by
  have h256 : k < 256 := by omega
  unfold first
  rw [if_neg, if_neg, if_neg, if_neg, if_pos, toNat_octet h256] <;>
    simp only [octet_le h256, octet_lt h256, octet_eq h256, UInt8.reduceToNat] <;> omega

end First

section Pieces

variable (hlow : low.toNat ≤ k) (hhigh : k ≤ high.toNat) (rest : Bytes)

include hlow hhigh

theorem pieces_last :
    pieces (.inside value 1 low high) (UInt8.ofNat k :: rest)
      = some (Char.ofNat (value * 64 + (k - 0x80))) :: pieces .start rest := by
  have h256 : k < 256 := Nat.lt_of_le_of_lt hhigh high.toNat_lt
  rw [pieces, State.next, if_pos ⟨(le_octet h256).2 hlow, (octet_le h256).2 hhigh⟩,
    toNat_octet h256]
  rfl

theorem pieces_more :
    pieces (.inside value (owed + 2) low high) (UInt8.ofNat k :: rest)
      = pieces (.inside (value * 64 + (k - 0x80)) (owed + 1) 0x80 0xBF) rest := by
  have h256 : k < 256 := Nat.lt_of_le_of_lt hhigh high.toNat_lt
  rw [pieces, State.next, if_pos ⟨(le_octet h256).2 hlow, (octet_le h256).2 hhigh⟩,
    toNat_octet h256]
  rfl

end Pieces

/-- The octets of a character are read as that character; an octet behind 0xE0, 0xED, 0xF0 or 0xF4
has narrower bounds than others. -/
theorem pieces_character (c : Char) (rest : Bytes) :
    pieces .start (String.utf8EncodeChar c ++ rest) = some c :: pieces .start rest := by
  have hvalid : c.toNat < 0xD800 ∨ 0xDFFF < c.toNat ∧ c.toNat < 0x110000 := c.valid
  have hback : ∀ n, n = c.toNat → Char.ofNat n = c := by
    rintro _ rfl
    exact Char.ofNat_toNat c
  have hlow : ∀ n, (0x80 : UInt8).toNat ≤ n % 64 + 128 := fun n => Nat.le_add_left _ _
  have hhigh : ∀ n, n % 64 + 128 ≤ (0xBF : UInt8).toNat := fun n => by
    simp only [UInt8.reduceToNat]
    omega
  simp only [String.utf8EncodeChar, show c.val.toNat = c.toNat from rfl]
  generalize c.toNat = v at hvalid hback
  split <;> rename_i h1
  · rw [List.singleton_append, pieces, State.next, first_one h1, hback v rfl]
    rfl
  split <;> rename_i h2
  · simp only [List.cons_append, List.nil_append]
    rw [pieces, State.next, first_two (by omega), List.nil_append]
    simp only
    rw [pieces_last (hlow _) (hhigh _), hback]
    omega
  split
  · simp only [List.cons_append, List.nil_append]
    rw [pieces, State.next, first_three (by omega), List.nil_append]
    simp only
    rw [pieces_more, pieces_last (hlow _) (hhigh _), hback]
    · omega
    · split <;> simp only [UInt8.reduceToNat] <;> omega
    · split <;> simp only [UInt8.reduceToNat] <;> omega
  · simp only [List.cons_append, List.nil_append]
    rw [pieces, State.next, first_four (by omega), List.nil_append]
    simp only
    rw [pieces_more, pieces_more (hlow _) (hhigh _), pieces_last (hlow _) (hhigh _), hback]
    · omega
    · split <;> simp only [UInt8.reduceToNat] <;> omega
    · split <;> simp only [UInt8.reduceToNat] <;> omega

section Order

theorem octets_lt_iff {a b : Nat} (ha : a < 256) (hb : b < 256) {bs bs' : Bytes} :
    UInt8.ofNat a :: bs < UInt8.ofNat b :: bs' ↔ a < b ∨ a = b ∧ bs < bs' := by
  rw [List.cons_lt_cons_iff, octet_lt ha, octet_eq ha, toNat_octet hb]

/-- A character before another has octets before those of the other, whatever follows them: the
first octet grows with the number of octets, and within a number they are digits to base 64. -/
theorem character_lt {c d : Char} (h : c < d) (rest rest' : Bytes) :
    String.utf8EncodeChar c ++ rest < String.utf8EncodeChar d ++ rest' := by
  have hlt : c.toNat < d.toNat := h
  have hd : d.toNat < 0x110000 := by
    rcases d.valid with hd | hd
    · exact Nat.lt_trans hd (by decide)
    · exact hd.2
  simp only [String.utf8EncodeChar, show c.val.toNat = c.toNat from rfl,
    show d.val.toNat = d.toNat from rfl]
  generalize c.toNat = v at hlt
  generalize d.toNat = w at hlt hd
  have htwo : ∀ n : Nat, n / 4096 = n / 64 / 64 := fun n => by rw [Nat.div_div_eq_div_mul]
  have hthree : ∀ n : Nat, n / 262144 = n / 64 / 64 / 64 := fun n => by
    rw [Nat.div_div_eq_div_mul, Nat.div_div_eq_div_mul]
  split_ifs <;>
    simp (disch := omega) only [List.cons_append, List.nil_append, octets_lt_iff, htwo, hthree] <;>
    omega

theorem characters_lt : ∀ {cs ds : List Char}, cs < ds →
    cs.flatMap String.utf8EncodeChar < ds.flatMap String.utf8EncodeChar
  | _, [], h => absurd h (List.not_lt_nil _)
  | [], d :: ds, _ => by
    obtain ⟨b, bs, hb⟩ := List.exists_cons_of_ne_nil (String.utf8EncodeChar_ne_nil (c := d))
    rw [List.flatMap_nil, List.flatMap_cons, hb]
    exact List.nil_lt_cons _ _
  | c :: cs, d :: ds, h => by
    rw [List.flatMap_cons, List.flatMap_cons]
    rcases List.cons_lt_cons_iff.1 h with hcd | ⟨rfl, hcs⟩
    · exact character_lt hcd _ _
    · exact List.append_left_lt (characters_lt hcs)

end Order

end Utf8

/-- A text is read back from its octets. -/
theorem lossy_utf8 (s : String) : lossy (utf8 s) = s := by
  have hpieces : ∀ cs : List Char,
      Utf8.pieces .start (cs.flatMap String.utf8EncodeChar) = cs.map some := by
    intro cs
    induction cs with
    | nil => rfl
    | cons c cs ih => rw [List.flatMap_cons, Utf8.pieces_character, ih, List.map_cons]
  rw [lossy, utf8, hpieces, List.map_map]
  exact (congrArg String.ofList (List.map_id _)).trans String.ofList_toList

/-- The order of texts is that of their octets. -/
theorem utf8_lt_iff {s t : String} : utf8 s < utf8 t ↔ s < t := by
  rw [String.lt_iff]
  refine ⟨fun h => Classical.byContradiction fun hle => ?_, Utf8.characters_lt⟩
  rcases List.le_iff_lt_or_eq.1 (List.not_lt.1 hle) with hlt | heq
  · exact List.lt_asymm h (Utf8.characters_lt hlt)
  · rw [utf8, utf8, heq] at h
    exact List.lt_irrefl _ h

end ImapProbe
