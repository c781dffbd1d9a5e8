import ImapProbe.Command.Form
import ImapProbe.Proofs.Words
import Mathlib.Data.List.Forall2
import Mathlib.Data.List.TakeWhile

/-!
# Lists of items

A list of items is words that spell items in any letter case, with parentheses at its ends
(`Lists`). What is read of a text is the list it is, and a text that is none is refused for the
first word that spells no item, or else, when it has no word, as a whole (`ofList_lists`).
-/

namespace ImapProbe.Item

/-- A word is the name of an item, in any letter case. -/
def Spells (word : List Char) (i : Item) : Prop := word.map Char.toUpper = i.name.toList

instance (word : List Char) (i : Item) : Decidable (Spells word i) :=
  inferInstanceAs (Decidable (word.map Char.toUpper = i.name.toList))

/-- A list of items: any number of parentheses opens it, right at its beginning, and any number
closes it, right at its end. -/
def Lists (text : List Char) (items : List Item) : Prop :=
  ∃ opening inner closing spellings,
    text = List.replicate opening '(' ++ (inner ++ List.replicate closing ')')
      ∧ Spaced inner spellings ∧ List.Forall₂ Spells spellings items ∧ items ≠ []

/-- What is left of a text without the parentheses that open it and those that close it. -/
structure Bared (text inner : List Char) : Prop where
  exists_eq : ∃ opening closing,
    text = List.replicate opening '(' ++ (inner ++ List.replicate closing ')')
  opens : inner.head? ≠ some '('
  closes : inner.getLast? ≠ some ')'

/-- What is wrong with a text, given its words. -/
inductive Misspelt (text : String) : List (List Char) → EncodingFault → Prop
  | word {spelt rest : List (List Char)} {word : List Char} :
    (∀ w ∈ spelt, ∃ i, Spells w i) → (∀ i, ¬Spells word i) →
    Misspelt text (spelt ++ word :: rest) (.unsupportedItem (String.ofList word))
  | none : Misspelt text [] (.noItem text)

section Names

variable {word : List Char} {i : Item}

theorem name_injective : Function.Injective name := by
  intro i j h
  cases i <;> cases j <;> first | rfl | simp [name] at h

/-- A name is one word. -/
theorem name_word (i : Item) : i.name.toList ≠ [] ∧ ∀ c ∈ i.name.toList, isBlank c = false := by
  have hword : (i.name.toList.isEmpty || i.name.toList.any isBlank) = false := by cases i <;> decide
  simpa using hword

theorem name_of_ofName? {name : String} (h : ofName? name = some i) : i.name = capitals name := by
  have hname := List.find?_some h
  exact beq_iff_eq.1 hname

theorem ofName?_iff : ofName? (String.ofList word) = some i ↔ Spells word i := by
  have hcapitals : (capitals (String.ofList word)).toList = word.map Char.toUpper := by
    rw [capitals, String.toList_ofList, String.toList_ofList]
  rw [Spells, ← hcapitals, String.toList_inj]
  constructor
  · intro h
    exact (name_of_ofName? h).symm
  · intro h
    rcases hfound : ofName? (String.ofList word) with _ | j
    · exact absurd (beq_iff_eq.2 h.symm) (List.find?_eq_none.1 hfound i (mem_all i))
    · rw [name_injective ((name_of_ofName? hfound).trans h)]

end Names

/-- What is read of one word. -/
def wordItem (word : List Char) : Except EncodingFault Item :=
  match ofName? (String.ofList word) with
  | some i => .ok i
  | none => .error (.unsupportedItem (String.ofList word))

section Reading

variable {word : List Char} {ws : List (List Char)} {i : Item} {items : List Item}
  {fault : EncodingFault}

theorem wordItem_ok_iff : wordItem word = .ok i ↔ Spells word i := by
  rw [← ofName?_iff, wordItem]
  rcases ofName? (String.ofList word) with _ | j <;> simp

theorem wordItem_error_iff : wordItem word = .error fault
    ↔ (∀ i, ¬Spells word i) ∧ fault = .unsupportedItem (String.ofList word) := by
  simp only [← ofName?_iff, wordItem]
  rcases ofName? (String.ofList word) with _ | j <;> simp [eq_comm]

theorem mapM_cons_ok_iff : (word :: ws).mapM wordItem = .ok items
    ↔ ∃ i is, wordItem word = .ok i ∧ ws.mapM wordItem = .ok is ∧ items = i :: is := by
  rw [List.mapM_cons]
  rcases wordItem word with e | i
  · simp [bind, Except.bind]
  · rcases ws.mapM wordItem with e | is
    · simp [bind, Except.bind]
    · simp [bind, Except.bind, pure, Except.pure, eq_comm]

theorem mapM_cons_error_iff : (word :: ws).mapM wordItem = .error fault
    ↔ wordItem word = .error fault
      ∨ ∃ i, wordItem word = .ok i ∧ ws.mapM wordItem = .error fault := by
  rw [List.mapM_cons]
  rcases wordItem word with e | i
  · simp [bind, Except.bind]
  · rcases ws.mapM wordItem with e | is <;> simp [bind, Except.bind, pure, Except.pure]

theorem mapM_ok_iff : ws.mapM wordItem = .ok items ↔ List.Forall₂ Spells ws items := by
  induction ws generalizing items with
  | nil => simp [pure, Except.pure, eq_comm]
  | cons word ws ih =>
    simp only [mapM_cons_ok_iff, wordItem_ok_iff, ih, List.forall₂_cons_left_iff]

/-- The first word that spells no item decides. -/
theorem mapM_error_iff : ws.mapM wordItem = .error fault
    ↔ ∃ spelt word rest, ws = spelt ++ word :: rest ∧ (∀ w ∈ spelt, ∃ i, Spells w i)
      ∧ (∀ i, ¬Spells word i) ∧ fault = .unsupportedItem (String.ofList word) := by
  induction ws with
  | nil => simp [pure, Except.pure]
  | cons first ws ih =>
    simp only [mapM_cons_error_iff, wordItem_error_iff, wordItem_ok_iff, ih]
    constructor
    · rintro (⟨hnone, hfault⟩ | ⟨i, hi, spelt, word, rest, rfl, hspelt, hword⟩)
      · exact ⟨[], first, ws, rfl, List.forall_mem_nil _, hnone, hfault⟩
      · exact ⟨first :: spelt, word, rest, rfl, List.forall_mem_cons.2 ⟨⟨i, hi⟩, hspelt⟩, hword⟩
    · rintro ⟨_ | ⟨w, spelt⟩, word, rest, hws, hspelt, hword⟩
      · obtain ⟨rfl, rfl⟩ := List.cons.inj hws
        exact .inl hword
      · obtain ⟨rfl, rfl⟩ := List.cons.inj hws
        obtain ⟨⟨i, hi⟩, hspelt⟩ := List.forall_mem_cons.1 hspelt
        exact .inr ⟨i, hi, spelt, word, rest, rfl, hspelt, hword⟩

end Reading

section Parentheses

variable {a : Char} {n : Nat} {rest text inner : List Char} {items : List Item}

def bare (text : List Char) : List Char :=
  ((text.dropWhile (· == '(')).reverse.dropWhile (· == ')')).reverse

theorem dropWhile_replicate (h : rest.head? ≠ some a) :
    (List.replicate n a ++ rest).dropWhile (· == a) = rest := by
  have hdrop : ∀ c ∈ List.replicate n a, (c == a) = true := fun c hc =>
    beq_iff_eq.2 (List.eq_of_mem_replicate hc)
  rw [List.dropWhile_append_of_pos hdrop]
  rcases rest with _ | ⟨c, rest⟩
  · rfl
  · exact List.dropWhile_cons_of_neg (by simpa using h)

theorem exists_replicate (a : Char) (cs : List Char) :
    ∃ n, cs = List.replicate n a ++ cs.dropWhile (· == a) := by
  refine ⟨(cs.takeWhile (· == a)).length, ?_⟩
  have hsame : ∀ c ∈ cs.takeWhile (· == a), c = a := by
    intro c hc
    have hpass := List.mem_takeWhile_imp hc
    exact beq_iff_eq.1 hpass
  rw [← List.eq_replicate_of_mem hsame, List.takeWhile_append_dropWhile]

theorem head?_dropWhile (a : Char) (cs : List Char) : (cs.dropWhile (· == a)).head? ≠ some a := by
  intro h
  have hnot := List.head?_dropWhile_not (· == a) cs
  rw [h] at hnot
  simp at hnot

/-- The parentheses that close a text without opening ones are no opening ones either, so what is
left of it is the same when its closing parentheses go first. -/
theorem Bared.bare_eq (h : Bared text inner) : bare text = inner := by
  obtain ⟨opening, closing, rfl⟩ := h.exists_eq
  have hopen : (inner ++ List.replicate closing ')').head? ≠ some '(' := by
    rw [List.head?_append]
    rcases inner with _ | ⟨c, inner⟩
    · rcases closing with _ | closing <;> simp [List.replicate_succ]
    · exact h.opens
  have hclose : inner.reverse.head? ≠ some ')' := by
    rw [List.head?_reverse]
    exact h.closes
  rw [bare, dropWhile_replicate hopen, List.reverse_append, List.reverse_replicate,
    dropWhile_replicate hclose, List.reverse_reverse]

theorem bared_bare (text : List Char) : Bared text (bare text) := by
  obtain ⟨opening, hopening⟩ := exists_replicate '(' text
  obtain ⟨closing, hclosing⟩ := exists_replicate ')' (text.dropWhile (· == '(')).reverse
  have hinner : text.dropWhile (· == '(') = bare text ++ List.replicate closing ')' := by
    have hreverse := congrArg List.reverse hclosing
    rwa [List.reverse_reverse, List.reverse_append, List.reverse_replicate] at hreverse
  refine ⟨⟨opening, closing, by rw [← hinner, ← hopening]⟩, fun hhead => ?_, fun hlast => ?_⟩
  · refine head?_dropWhile '(' text ?_
    rw [hinner, List.head?_append, hhead]
    rfl
  · refine head?_dropWhile ')' (text.dropWhile (· == '(')).reverse ?_
    rwa [bare, List.getLast?_reverse] at hlast

theorem bared_iff : Bared text inner ↔ bare text = inner := by
  constructor
  · exact Bared.bare_eq
  · rintro rfl
    exact bared_bare text

/-- No name holds a parenthesis. -/
theorem Spells.not_mem {word : List Char} {i : Item} (h : Spells word i) :
    '(' ∉ word ∧ ')' ∉ word := by
  have hcapital : ∀ c ∈ word, c.toUpper ∈ i.name.toList := fun c hc => by
    rw [← h]
    exact List.mem_map_of_mem hc
  have hname : '(' ∉ i.name.toList ∧ ')' ∉ i.name.toList := by cases i <;> decide
  exact ⟨fun hmem => hname.1 (hcapital _ hmem), fun hmem => hname.2 (hcapital _ hmem)⟩

/-- The words of a list and the blanks between them hold no parenthesis. -/
theorem not_mem_of_spaced {spellings : List (List Char)} (hspaced : Spaced inner spellings)
    (hspells : List.Forall₂ Spells spellings items) : '(' ∉ inner ∧ ')' ∉ inner := by
  have hwords : ∀ word ∈ spellings, '(' ∉ word ∧ ')' ∉ word :=
    ((List.forall₂_and_left _ _).1 (hspells.imp fun _ _ h => ⟨h.not_mem, h⟩)).1
  exact ⟨hspaced.notMem (by decide) fun word hword => (hwords word hword).1,
    hspaced.notMem (by decide) fun word hword => (hwords word hword).2⟩

theorem lists_iff : Lists text items
    ↔ List.Forall₂ Spells (words (bare text)) items ∧ items ≠ [] := by
  constructor
  · rintro ⟨opening, inner, closing, spellings, htext, hspaced, hspells, hne⟩
    obtain ⟨hopen, hclose⟩ := not_mem_of_spaced hspaced hspells
    have hbared : Bared text inner := ⟨⟨opening, closing, htext⟩,
      fun hhead => hopen (List.mem_of_mem_head? hhead),
      fun hlast => hclose (List.mem_of_getLast? hlast)⟩
    rw [hbared.bare_eq, hspaced.words_eq]
    exact ⟨hspells, hne⟩
  · rintro ⟨hspells, hne⟩
    obtain ⟨opening, closing, htext⟩ := (bared_bare text).exists_eq
    exact ⟨opening, bare text, closing, words (bare text), htext, words_iff.1 rfl, hspells, hne⟩

end Parentheses

section Outcomes

variable {text : String} {items : List Item} {fault : EncodingFault}

theorem ofList_eq (text : String) : ofList text
    = match (words (bare text.toList)).mapM wordItem with
      | .ok [] => .error (.noItem text)
      | r => r := rfl

theorem ofList_ok_iff : ofList text = .ok items
    ↔ (words (bare text.toList)).mapM wordItem = .ok items ∧ items ≠ [] := by
  rw [ofList_eq]
  rcases (words (bare text.toList)).mapM wordItem with e | _ | ⟨i, is⟩
  · simp
  · simp only [Except.ok.injEq, reduceCtorEq, false_iff, not_and, not_not]
    exact Eq.symm
  · simp only [Except.ok.injEq]
    exact ⟨fun h => ⟨h, h ▸ List.cons_ne_nil i is⟩, And.left⟩

theorem ofList_error_iff : ofList text = .error fault
    ↔ (words (bare text.toList)).mapM wordItem = .error fault
      ∨ words (bare text.toList) = [] ∧ fault = .noItem text := by
  have hnone : (words (bare text.toList)).mapM wordItem = .ok []
      ↔ words (bare text.toList) = [] := by
    rw [mapM_ok_iff, List.forall₂_nil_right_iff]
  rw [ofList_eq, ← hnone]
  rcases (words (bare text.toList)).mapM wordItem with e | _ | ⟨i, is⟩
  · simp
  · simp [eq_comm]
  · simp

theorem misspelt_iff {ws : List (List Char)} : Misspelt text ws fault
    ↔ ws.mapM wordItem = .error fault ∨ ws = [] ∧ fault = .noItem text := by
  rw [mapM_error_iff]
  constructor
  · rintro (⟨hspelt, hword⟩ | _)
    · exact .inl ⟨_, _, _, rfl, hspelt, hword, rfl⟩
    · exact .inr ⟨rfl, rfl⟩
  · rintro (⟨spelt, word, rest, rfl, hspelt, hword, rfl⟩ | ⟨rfl, rfl⟩)
    · exact .word hspelt hword
    · exact .none

/-- A list is written with one blank between its names. -/
theorem lists_itemList (hne : items ≠ []) : Lists (Command.itemList items).toList items := by
  have hspells : List.Forall₂ Spells (items.map fun i => i.name.toList) items :=
    List.forall₂_map_left_iff.2 (List.forall₂_same.2 fun i _ => by cases i <;> decide)
  have hwords : ∀ word ∈ items.map fun i => i.name.toList,
      word ≠ [] ∧ ∀ c ∈ word, isBlank c = false :=
    List.forall_mem_map.2 fun i _ => name_word i
  have hblank : isBlank ' ' := by decide
  have hspaced := spaced_intercalate hblank hwords
  by_cases hone : ∃ i, items = [i]
  · obtain ⟨i, rfl⟩ := hone
    exact ⟨0, _, 0, _, by simp [Command.itemList], hspaced, hspells, hne⟩
  · have hlist : Command.itemList items = "(" ++ " ".intercalate (items.map name) ++ ")" := by
      rcases items with _ | ⟨i, _ | ⟨j, items⟩⟩
      · rfl
      · exact absurd ⟨i, rfl⟩ hone
      · rfl
    refine ⟨1, _, 1, _, ?_, hspaced, hspells, hne⟩
    simp [hlist, String.toList_intercalate, Function.comp_def]

/-- A text is read as the list that it is. A text that is no list is refused for its first word that
spells no item, or, when it has no word, as a whole. A list that is written is read as it is. -/
theorem ofList_lists (text : String) :
    (∀ items, ofList text = .ok items ↔ Lists text.toList items)
    ∧ (∀ fault, ofList text = .error fault
        ↔ ∃ inner ws, Bared text.toList inner ∧ Spaced inner ws ∧ Misspelt text ws fault)
    ∧ ∀ items ≠ [], ofList (Command.itemList items) = .ok items := by
  have hlists : ∀ {text : String} {items}, ofList text = .ok items ↔ Lists text.toList items := by
    intro text items
    rw [ofList_ok_iff, mapM_ok_iff, lists_iff]
  refine ⟨fun items => hlists, fun fault => ?_, fun items hne => hlists.2 (lists_itemList hne)⟩
  simp only [ofList_error_iff, ← misspelt_iff, bared_iff, ← words_iff]
  constructor
  · exact fun h => ⟨_, _, rfl, rfl, h⟩
  · rintro ⟨_, _, rfl, rfl, h⟩
    exact h

/-- Blanks of any kind separate names in any case. A parenthesis inside is a part of a word. -/
theorem ofList_lists_mixed :
    ofList "((\u2003rfc822.SIZE\u00a0uid \tUID))" = .ok [.rfc822Size, .uid, .uid]
    ∧ ofList "(BODY (UID))" = .error (.unsupportedItem "(UID")
    ∧ ofList " ( )" = .error (.unsupportedItem "(")
    ∧ ofList "(( )" = .error (.noItem "(( )")
    ∧ Command.itemList [.uid, .flags, .uid] = "(UID FLAGS UID)"
    ∧ ofList (Command.itemList [.uid, .flags, .uid]) = .ok [.uid, .flags, .uid] := by
  refine ⟨((ofList_lists _).1 _).2 ?_, ((ofList_lists _).2.1 _).2 ?_, ((ofList_lists _).2.1 _).2 ?_,
    ((ofList_lists _).2.1 _).2 ?_, by decide, (ofList_lists "").2.2 _ (by simp)⟩
  · refine ⟨2, "\u2003rfc822.SIZE\u00a0uid \tUID".toList, 2,
      ["rfc822.SIZE".toList, "uid".toList, "UID".toList], by decide, words_iff.1 (by decide), ?_,
      by simp⟩
    exact .cons (by decide) (.cons (by decide) (.cons (by decide) .nil))
  · refine ⟨"BODY (UID".toList, ["BODY".toList, "(UID".toList], bared_iff.2 (by decide),
      words_iff.1 (by decide), ?_⟩
    have hspelt : ∀ w ∈ ["BODY".toList], ∃ i, Spells w i := by
      simpa using ⟨Item.body, by decide⟩
    have hnone : ∀ i, ¬Spells "(UID".toList i := by rintro (_ | _ | _ | _ | _ | _ | _) <;> decide
    exact @Misspelt.word _ _ [] _ hspelt hnone
  · refine ⟨" ( ".toList, ["(".toList], bared_iff.2 (by decide), words_iff.1 (by decide), ?_⟩
    have hnone : ∀ i, ¬Spells "(".toList i := by rintro (_ | _ | _ | _ | _ | _ | _) <;> decide
    exact @Misspelt.word _ [] [] _ (List.forall_mem_nil _) hnone
  · exact ⟨" ".toList, [], bared_iff.2 (by decide), words_iff.1 (by decide), .none⟩

end Outcomes

end ImapProbe.Item
