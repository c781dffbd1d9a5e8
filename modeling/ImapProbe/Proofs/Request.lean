import ImapProbe.Proofs.Argument
import ImapProbe.Proofs.Forms

/-!
# What a server reads of a command

The reader of a request knows how many arguments a name wants, and of which kinds. A command that
is written is read as it was given, and the reader stops where its last fragment ends
(`write_read`); no argument ends a line, and a line announces a literal where one follows, and only
there (`linked_writtenFrom`).
-/

namespace ImapProbe

open Wire Command

namespace Grammar

inductive Argument where
  | octets (octets : Bytes)
  | numbers (low high : Nat)
  | items (items : List Item)
  deriving DecidableEq, Repr

/-- What is wanted as an argument. -/
inductive Kind where
  | string
  | mailbox
  | message
  | numbers
  | items
  deriving DecidableEq, Repr

structure Request where
  tag : Bytes
  name : String
  arguments : List Argument
  deriving DecidableEq, Repr

/-- A range of numbers, both of its ends given. -/
def numbers? (bs : Bytes) : Option ((Nat × Nat) × Bytes) :=
  match number? bs with
  | some (low, 58 :: bs) =>
    (number? bs).bind fun r => if 1 ≤ low ∧ 1 ≤ r.1 then some ((low, r.1), r.2) else none
  | _ => none

def item? (word : Bytes) : Option Item := Item.ofName? (lossy word)

/-- Items between parentheses, or one item without them. -/
def items? : Bytes → Option (List Item × Bytes)
  | 40 :: bs =>
    match bs.dropWhile (· != 41) with
    | [] => none
    | _ :: rest =>
      (((bs.takeWhile (· != 41)).splitOn Bytes.space).mapM item?).map fun items => (items, rest)
  | bs => (item? (bs.takeWhile isAtomOctet)).map fun item => ([item], bs.dropWhile isAtomOctet)

def Kind.read? : Kind → Bytes → Option (Argument × Bytes)
  | .string, bs => (string? bs).map fun r => (.octets r.1, r.2)
  | .mailbox, bs => (mailboxName? bs).map fun r => (.octets r.1, r.2)
  | .message, bs => (message? bs).map fun r => (.octets r.1, r.2)
  | .numbers, bs => (numbers? bs).map fun r => (.numbers r.1.1 r.1.2, r.2)
  | .items, bs => (items? bs).map fun r => (.items r.1, r.2)

/-- The arguments that each command wants. -/
def wanted : List (String × List Kind) :=
  [("LOGIN", [.string, .string]), ("SELECT", [.mailbox]), ("CREATE", [.mailbox]),
    ("DELETE", [.mailbox]), ("APPEND", [.mailbox, .message]), ("FETCH", [.numbers, .items]),
    ("CLOSE", []), ("LOGOUT", [])]

/-- Arguments, each behind a space. -/
def arguments? : List Kind → Bytes → Option (List Argument × Bytes)
  | [], bs => some ([], bs)
  | kind :: kinds, 32 :: bs =>
    (kind.read? bs).bind fun r => (arguments? kinds r.2).map fun s => (r.1 :: s.1, s.2)
  | _ :: _, _ => none

/-- A request and what follows its line. -/
def request? (bs : Bytes) : Option (Request × Bytes) :=
  let tag := bs.takeWhile isTagOctet
  match tag.isEmpty, bs.dropWhile isTagOctet with
  | false, 32 :: bs =>
    let name := capitals (lossy (bs.takeWhile Bytes.isLetter))
    match (wanted.lookup name).bind fun kinds => arguments? kinds (bs.dropWhile Bytes.isLetter) with
    | some (arguments, 13 :: 10 :: rest) => some (⟨tag, name, arguments⟩, rest)
    | _ => none
  | _, _ => none

/-- Octets that are read as arguments of the given kinds. -/
inductive Formed : List Kind → List Argument → Bytes → Prop
  | nil : Formed [] [] []
  | cons {kind : Kind} {kinds : List Kind} {argument : Argument} {arguments : List Argument}
    {octets octets' : Bytes} :
    (∀ rest, Stops rest → kind.read? (octets ++ rest) = some (argument, rest)) →
      Formed kinds arguments octets' →
      Formed (kind :: kinds) (argument :: arguments) (32 :: (octets ++ octets'))

theorem Formed.stops {kinds : List Kind} {arguments : List Argument} {octets rest : Bytes}
    (h : Formed kinds arguments octets) (hr : Stops rest) : Stops (octets ++ rest) := by
  cases h with
  | nil => exact hr
  | cons => exact stops_cons (by decide)

theorem Formed.arguments? {kinds : List Kind} {arguments : List Argument} {octets rest : Bytes}
    (h : Formed kinds arguments octets) (hr : Stops rest) :
    arguments? kinds (octets ++ rest) = some (arguments, rest) := by
  induction h with
  | nil => rfl
  | @cons kind kinds _ _ _ octets' hread hformed ih =>
    rw [List.cons_append, List.append_assoc, Grammar.arguments?,
      hread _ (hformed.stops hr), Option.bind_some, ih]
    rfl

section Numbers

theorem numbers?_onlyNumber {n : Nat} (hn : 1 ≤ n) {rest : Bytes} (hr : Stops rest) :
    numbers? (utf8 (onlyNumber n) ++ rest) = some ((n, n), rest) := by
  have hd := decimal_toString n
  have htext : utf8 (onlyNumber n) ++ rest
      = utf8 (toString n) ++ 58 :: (utf8 (toString n) ++ rest) := by
    simp only [onlyNumber, utf8_append, List.append_assoc]
    rfl
  have hcolon : ∀ b, (58 :: (utf8 (toString n) ++ rest)).head? = some b →
      Bytes.isDigit b = false := by simp [Bytes.isDigit]
  have hlow := number?_decimal hd hcolon
  have hhigh := number?_decimal hd (hr.head_not isBareOctet_of_isDigit)
  rw [htext, numbers?, hlow]
  simp only
  rw [hhigh, Option.bind_some, if_pos ⟨hn, hn⟩]

end Numbers

section Items

theorem item?_name (i : Item) : item? (utf8 i.name) = some i := by
  cases i <;> decide

theorem isAtomOctet_name (i : Item) : ∀ b ∈ utf8 i.name, isAtomOctet b := by
  have hall : (utf8 i.name).all isAtomOctet = true := by cases i <;> decide
  exact List.all_eq_true.1 hall

theorem utf8_intercalate (separator : String) (words : List String) :
    utf8 (separator.intercalate words) = (utf8 separator).intercalate (words.map utf8) := by
  rw [utf8, String.toList_intercalate]
  induction words with
  | nil => rfl
  | cons word words ih =>
    rcases words with _ | ⟨next, words⟩
    · simp [utf8]
    · rw [List.map_cons, List.map_cons] at ih ⊢
      rw [List.intercalate_cons_cons, List.map_cons, List.map_cons, List.intercalate_cons_cons,
        List.flatMap_append, List.flatMap_append, ih]
      rfl

theorem forall_mem_intercalate {P : UInt8 → Prop} {separator : UInt8} (hs : P separator) :
    ∀ {words : List Bytes}, (∀ word ∈ words, ∀ b ∈ word, P b) →
      ∀ b ∈ [separator].intercalate words, P b
  | [], _ => by simp
  | [word], h => by simpa using h
  | word :: next :: words, h => by
    obtain ⟨hword, h⟩ := List.forall_mem_cons.1 h
    have ih := forall_mem_intercalate hs h
    rw [List.intercalate_cons_cons, List.forall_mem_append, List.forall_mem_append]
    exact ⟨⟨hword, List.forall_mem_singleton.2 hs⟩, ih⟩

theorem mapM_item? (items : List Item) :
    (items.map fun i => utf8 i.name).mapM item? = some items := by
  induction items with
  | nil => rfl
  | cons i items ih => simp [item?_name, ih]

theorem utf8_itemList {items : List Item} (h : ∀ i, items ≠ [i]) :
    utf8 (itemList items)
      = 40 :: ([Bytes.space].intercalate (items.map fun i => utf8 i.name) ++ [41]) := by
  have hlist : itemList items = "(" ++ " ".intercalate (items.map Item.name) ++ ")" := by
    unfold itemList
    split
    · exact absurd rfl (h _)
    · rfl
  rw [hlist, utf8_append, utf8_append, utf8_intercalate, List.map_map]
  rfl

theorem items?_itemList {items : List Item} (hne : items ≠ []) {rest : Bytes} (hr : Stops rest) :
    items? (utf8 (itemList items) ++ rest) = some (items, rest) := by
  by_cases hone : ∃ i, items = [i]
  · obtain ⟨i, rfl⟩ := hone
    have hstop : ∀ b, rest.head? = some b → isAtomOctet b = false := fun b hb =>
      (Bool.or_eq_false_iff.1 (hr b hb)).1
    obtain ⟨ht, hd⟩ := takeWhile_eq (isAtomOctet_name i) hstop
    have hopen : ∀ bs, utf8 i.name ++ rest ≠ 40 :: bs := fun bs he => by
      have hname : utf8 i.name ≠ [] := by cases i <;> decide
      rw [he] at ht
      exact hname ht.symm
    show items? (utf8 i.name ++ rest) = _
    rw [items?, ht, hd, item?_name]
    · rfl
    · exact hopen
  · have hwords : ∀ word ∈ items.map fun i => utf8 i.name,
        Bytes.space ∉ word ∧ ∀ b ∈ word, (b != 41) = true := by
      intro word hword
      obtain ⟨i, -, rfl⟩ := List.mem_map.1 hword
      have hatom := isAtomOctet_name i
      refine ⟨fun hm => absurd (hatom _ hm) (by decide), fun b hb => bne_iff_ne.2 ?_⟩
      rintro rfl
      exact absurd (hatom _ hb) (by decide)
    have hinner : ∀ b ∈ [Bytes.space].intercalate (items.map fun i => utf8 i.name),
        (b != 41) = true :=
      forall_mem_intercalate (by decide) fun word hw => (hwords word hw).2
    have hclose : ∀ b, (41 :: rest).head? = some b → (b != 41) = false := by simp
    obtain ⟨ht, hd⟩ := takeWhile_eq hinner hclose
    rw [utf8_itemList fun i hi => hone ⟨i, hi⟩, List.cons_append, List.append_assoc,
      List.singleton_append, items?, hd, ht,
      List.splitOn_intercalate _ (fun word hw => (hwords word hw).1) (by simpa using hne),
      mapM_item?]
    rfl

end Items

end Grammar

namespace Command

open Grammar

/-- What a reader is to get of a command whose arguments hold no NUL, and of a FETCH of one
message. -/
inductive Gives : Command → List Argument → Prop
  | login {user password : String} : 0 ∉ utf8 user → 0 ∉ utf8 password →
    Gives (.login user password) [.octets (utf8 user), .octets (utf8 password)]
  | select {mailbox : String} : 0 ∉ utf8 mailbox →
    Gives (.select mailbox) [.octets (mailboxName mailbox)]
  | create {mailbox : String} : 0 ∉ utf8 mailbox →
    Gives (.create mailbox) [.octets (mailboxName mailbox)]
  | delete {mailbox : String} : 0 ∉ utf8 mailbox →
    Gives (.delete mailbox) [.octets (mailboxName mailbox)]
  | append {mailbox : String} {message : Bytes} : 0 ∉ utf8 mailbox → 0 ∉ message →
    Gives (.append mailbox message) [.octets (mailboxName mailbox), .octets message]
  | fetch {n : UInt32} {items : String} {list : List Item} : 1 ≤ n.toNat →
    Item.ofList items = .ok list →
    Gives (.fetch (onlyNumber n.toNat) items) [.numbers n.toNat n.toNat, .items list]
  | close : Gives .close []
  | logout : Gives .logout []

section Forms

theorem isLetter_name (c : Command) :
    (∀ b ∈ utf8 c.name, Bytes.isLetter b) ∧ capitals (lossy (utf8 c.name)) = c.name := by
  have hall : (utf8 c.name).all Bytes.isLetter = true := by
    cases c <;> simp only [name] <;> decide
  refine ⟨List.all_eq_true.1 hall, ?_⟩
  cases c <;> simp only [name] <;> decide

theorem ofList_ne_nil {items : String} {list : List Item} (h : Item.ofList items = .ok list) :
    list ≠ [] := by
  rintro rfl
  unfold Item.ofList at h
  simp only at h
  split at h
  · simp at h
  · rename_i hne
    exact hne h

theorem Piece.Carries.map {α : Type} {piece : Piece} {read : Bytes → Option (α × Bytes)} {value : α}
    (h : piece.Carries read value) (f : α → Argument) :
    piece.Carries (fun bs => (read bs).map fun r => (f r.1, r.2)) (f value) where
  plain := h.plain
  read_octets rest hr := by rw [h.read_octets rest hr, Option.map_some]

/-- A command has a form: its name and, behind it, octets that are read as its arguments. -/
def IsFormed (c : Command) (arguments : List Argument) : Prop :=
  ∃ pieces kinds octets, c.pieces = .ok pieces ∧ (∀ piece ∈ pieces, piece.IsPlain)
    ∧ wanted.lookup c.name = some kinds
    ∧ pieces.flatMap Piece.octets = utf8 c.name ++ octets ∧ Formed kinds arguments octets

theorem isFormed_of_pieces {c : Command} {pieces : List Piece} {kinds : List Kind}
    {arguments : List Argument} (hc : c.pieces = .ok (.text (utf8 (c.name ++ " ")) :: pieces))
    (hplain : ∀ piece ∈ pieces, piece.IsPlain) (hkinds : wanted.lookup c.name = some kinds)
    (hformed : Formed kinds arguments (32 :: pieces.flatMap Piece.octets)) :
    c.IsFormed arguments := by
  have hname : Unbroken (utf8 c.name) :=
    unbroken_of_bare fun b hb => isBareOctet_of_isLetter b ((isLetter_name c).1 b hb)
  have hhead : Unbroken (utf8 (c.name ++ " ")) := by
    rw [utf8_append]
    exact hname.append (by decide)
  refine ⟨_, kinds, _, hc, List.forall_mem_cons.2 ⟨hhead.plain, hplain⟩, hkinds, ?_, hformed⟩
  rw [List.flatMap_cons, Piece.octets, utf8_append, List.append_assoc]
  rfl

theorem isFormed_one {c : Command} {kind : Kind} {argument : Argument} {piece : Piece}
    (hc : c.pieces = .ok [.text (utf8 (c.name ++ " ")), piece])
    (hkinds : wanted.lookup c.name = some [kind]) (h : piece.Carries kind.read? argument) :
    c.IsFormed [argument] :=
  isFormed_of_pieces hc (List.forall_mem_singleton.2 h.plain) hkinds (.cons h.read_octets .nil)

theorem isFormed_two {c : Command} {kind kind' : Kind} {argument argument' : Argument}
    {piece piece' : Piece}
    (hc : c.pieces = .ok [.text (utf8 (c.name ++ " ")), piece, .text (utf8 " "), piece'])
    (hkinds : wanted.lookup c.name = some [kind, kind'])
    (h : piece.Carries kind.read? argument) (h' : piece'.Carries kind'.read? argument') :
    c.IsFormed [argument, argument'] := by
  have hspace : Unbroken (utf8 " ") := by decide
  have hformed : Formed [kind, kind'] [argument, argument']
      (32 :: (piece.octets ++ 32 :: (piece'.octets ++ []))) :=
    .cons h.read_octets (.cons h'.read_octets .nil)
  refine isFormed_of_pieces hc ?_ hkinds hformed
  simp only [List.forall_mem_cons]
  exact ⟨h.plain, hspace.plain, h'.plain, by simp⟩

theorem onMailbox_formed {c : Command} {mailbox : String} (h : 0 ∉ utf8 mailbox)
    (hc : c.pieces = onMailbox c.name mailbox) (hkinds : wanted.lookup c.name = some [.mailbox]) :
    c.IsFormed [.octets (mailboxName mailbox)] := by
  obtain ⟨piece, hp, hcarries⟩ := mailbox_carries h
  have hpieces : c.pieces = .ok [.text (utf8 (c.name ++ " ")), piece] := by
    rw [hc, onMailbox, hp]
    rfl
  exact isFormed_one hpieces hkinds (hcarries.map .octets)

theorem unbroken_itemList (items : List Item) : Unbroken (utf8 (itemList items)) := by
  have hname : ∀ i : Item, Unbroken (utf8 i.name) := fun i =>
    unbroken_of_bare fun b hb => Bool.or_eq_true_iff.2 (.inl (isAtomOctet_name i b hb))
  by_cases hone : ∃ i, items = [i]
  · obtain ⟨i, rfl⟩ := hone
    exact hname i
  · have hwords : ∀ word ∈ items.map fun i => utf8 i.name, Unbroken word := by
      intro word hword
      obtain ⟨i, -, rfl⟩ := List.mem_map.1 hword
      exact hname i
    have hinner : Unbroken ([Bytes.space].intercalate (items.map fun i => utf8 i.name)) :=
      forall_mem_intercalate (by decide) hwords
    have hopen : Unbroken [40] := by decide
    rw [utf8_itemList fun i hi => hone ⟨i, hi⟩]
    exact hopen.append (hinner.append (by decide))

theorem fetch_formed {n : Nat} {items : String} {list : List Item} (hn : 1 ≤ n)
    (hlt : n < UInt32.size) (hitems : Item.ofList items = .ok list) :
    (Command.fetch (onlyNumber n) items).IsFormed [.numbers n n, .items list] := by
  have hpieces : (Command.fetch (onlyNumber n) items).pieces
      = .ok [.text (utf8 ("FETCH " ++ onlyNumber n ++ " " ++ itemList list))] := by
    rw [Command.pieces, hitems, SequenceSet.read?_onlyNumber hn hlt]
    rfl
  have hunbroken : Unbroken (utf8 ("FETCH " ++ onlyNumber n ++ " " ++ itemList list)) := by
    have hname : Unbroken (utf8 "FETCH ") := by decide
    have hdigits := unbroken_toString n
    have hnumbers : Unbroken (utf8 (toString n ++ ":" ++ toString n)) := by
      rw [utf8_append, utf8_append]
      exact (hdigits.append (by decide)).append hdigits
    rw [utf8_append, utf8_append, utf8_append]
    exact ((hname.append hnumbers).append (by decide)).append (unbroken_itemList list)
  have hformed : Formed [.numbers, .items] [.numbers n n, .items list]
      (32 :: (utf8 (onlyNumber n) ++ 32 :: (utf8 (itemList list) ++ []))) := by
    refine .cons (fun rest hr => ?_) (.cons (fun rest hr => ?_) .nil)
    · rw [Kind.read?, numbers?_onlyNumber hn hr, Option.map_some]
    · rw [Kind.read?, items?_itemList (ofList_ne_nil hitems) hr, Option.map_some]
  have hname : utf8 "FETCH " = utf8 "FETCH" ++ [32] := by decide
  have hspace : utf8 " " = [32] := by decide
  refine ⟨_, _, _, hpieces, List.forall_mem_singleton.2 hunbroken.plain, rfl, ?_, hformed⟩
  simp only [List.flatMap_cons, List.flatMap_nil, Piece.octets, utf8_append, hname, hspace,
    List.append_assoc, List.cons_append, List.nil_append]
  rfl

theorem Gives.formed {c : Command} {arguments : List Argument} (h : c.Gives arguments) :
    c.IsFormed arguments := by
  cases h with
  | login huser hpassword =>
    obtain ⟨user, hu, hcu⟩ := argument_carries huser
    obtain ⟨password, hp, hcp⟩ := argument_carries hpassword
    exact isFormed_two (by rw [pieces, hu, hp]; rfl) rfl (hcu.map .octets) (hcp.map .octets)
  | select hm | create hm | delete hm => exact onMailbox_formed hm rfl rfl
  | append hmailbox hmessage =>
    obtain ⟨mailbox, hm, hcm⟩ := mailbox_carries hmailbox
    obtain ⟨hliteral, hcl⟩ := message_carries hmessage
    exact isFormed_two (by rw [pieces, hm, hliteral]; rfl) rfl (hcm.map .octets) (hcl.map .octets)
  | @fetch n _ _ hn hitems => exact fetch_formed hn n.toNat_lt hitems
  | close =>
    have hname : Unbroken (utf8 "CLOSE") := by decide
    exact ⟨[_], [], [], rfl, List.forall_mem_singleton.2 hname.plain, rfl, rfl, .nil⟩
  | logout =>
    have hname : Unbroken (utf8 "LOGOUT") := by decide
    exact ⟨[_], [], [], rfl, List.forall_mem_singleton.2 hname.plain, rfl, rfl, .nil⟩

end Forms

section Lines

/-- A text promises a literal: it ends in `{n}` or `{n+}`. -/
def Promises (text : Bytes) (n : Nat) : Prop :=
  ∃ before digits plus, text = before ++ 123 :: (digits ++ plus ++ [125]) ∧ Decimal digits n
    ∧ (plus = [] ∨ plus = [43])

/-- However a line goes on without an opening brace, it promises no literal. -/
def Settled (line : Bytes) : Prop := ∀ more, 123 ∉ more → ∀ n, ¬ Promises (line ++ more) n

/-- Lines end nowhere but at their ends, and promise a literal where one follows, and only there. -/
def Linked (fragments : List Fragment) : Prop :=
  ∀ i octets, fragments[i]? = some (.line octets) →
    ∃ text, octets = text ++ Bytes.crlf ∧ Bytes.cr ∉ text ∧ Bytes.lf ∉ text
      ∧ ∀ n, Promises text n
        ↔ ∃ literal, fragments[i + 1]? = some (.literal literal) ∧ literal.length = n

variable {line text : Bytes} {n : Nat}

/-- Only digits, and perhaps a plus sign, stand between the brace and its end. -/
theorem ne_of_promised {digits plus : Bytes} (hd : Decimal digits n)
    (hp : plus = [] ∨ plus = [43]) {b : UInt8} (hb : b ∈ digits ++ plus ++ [125]) :
    b ≠ 123 ∧ b ≠ 34 := by
  have hdigit : ∀ b ∈ digits, b ≠ 123 ∧ b ≠ 34 := fun b hb => by
    constructor <;> rintro rfl <;> exact absurd (hd.isDigit _ hb) (by decide)
  have hplus : ∀ b ∈ plus, b ≠ 123 ∧ b ≠ 34 := by
    rcases hp with rfl | rfl <;> simp
  rcases List.mem_append.1 hb with hb | hb
  · rcases List.mem_append.1 hb with hb | hb
    · exact hdigit b hb
    · exact hplus b hb
  · rw [List.mem_singleton.1 hb]
    decide

theorem settled_nil : Settled [] := by
  rintro more hm n ⟨before, digits, plus, htext, -⟩
  rw [List.nil_append] at htext
  exact hm (htext ▸ List.mem_append_right before List.mem_cons_self)

theorem Settled.append (h : Settled line) (ht : 123 ∉ text) : Settled (line ++ text) := by
  intro more hm n
  rw [List.append_assoc]
  exact h _ (fun hmem => (List.mem_append.1 hmem).elim ht hm) n

/-- A closing quote ends whatever began before it: a brace in front would have the quote among its
digits. -/
theorem settled_of_quote (h : text.getLast? = some 34) (line : Bytes) : Settled (line ++ text) := by
  obtain ⟨front, rfl⟩ := List.getLast?_eq_some_iff.1 h
  rintro more hm n ⟨before, digits, plus, htext, hd, hp⟩
  have hquote : 34 ∉ digits ++ plus ++ [125] := fun hb => (ne_of_promised hd hp hb).2 rfl
  have hsplit : (line ++ front) ++ 34 :: more = before ++ 123 :: (digits ++ plus ++ [125]) := by
    rw [← htext]
    simp
  rcases List.append_eq_append_iff.1 hsplit with ⟨_ | ⟨b, between⟩, -, he⟩ |
    ⟨_ | ⟨b, between⟩, -, he⟩ <;> obtain ⟨hb, he⟩ := List.cons.inj he
  · exact absurd hb (by decide)
  · exact hm (he ▸ List.mem_append_right between List.mem_cons_self)
  · exact absurd hb (by decide)
  · exact hquote (he ▸ List.mem_append_right between List.mem_cons_self)

/-- What stands behind the last opening brace of a text. -/
theorem eq_behind_brace {front front' behind behind' : Bytes} (h : 123 ∉ behind)
    (h' : 123 ∉ behind') (he : front ++ 123 :: behind = front' ++ 123 :: behind') :
    behind = behind' := by
  have hlast : ∀ {front behind : Bytes}, 123 ∉ behind →
      (front ++ 123 :: behind).reverse.takeWhile (· != 123) = behind.reverse := by
    intro front behind hb
    rw [List.reverse_append, List.reverse_cons, List.append_assoc, List.singleton_append]
    refine (takeWhile_eq (fun b hm => bne_iff_ne.2 fun heq => ?_) (by simp)).1
    exact hb (heq ▸ List.mem_reverse.1 hm)
  have hreverse : behind.reverse = behind'.reverse := by rw [← hlast h, he, hlast h']
  exact List.reverse_inj.1 hreverse

theorem promises_announcement (line : Bytes) (size : Nat) :
    Promises (line ++ 123 :: (utf8 (toString size) ++ [125])) n ↔ size = n := by
  have hsize := decimal_toString size
  constructor
  · rintro ⟨before, digits, plus, htext, hd, hp⟩
    have hbehind : utf8 (toString size) ++ [125] = digits ++ plus ++ [125] :=
      eq_behind_brace
        (fun hb => (ne_of_promised hsize (.inl rfl) (by rwa [List.append_nil])).1 rfl)
        (fun hb => (ne_of_promised hd hp hb).1 rfl) htext
    have hdigits := List.append_cancel_right hbehind
    rcases hp with rfl | rfl
    · rw [List.append_nil] at hdigits
      rw [← hsize.decimal_eq, hdigits, hd.decimal_eq]
    · have hplus : Bytes.isDigit 43 := hsize.isDigit 43 (by rw [hdigits]; simp)
      exact absurd hplus (by decide)
  · rintro rfl
    exact ⟨line, _, [], by rw [List.append_nil], hsize, .inl rfl⟩

/-- What is written is linked, behind any text that settles its line; behind a literal a new line
begins, to which what stood before promises nothing. -/
theorem linked_writtenFrom : ∀ {pieces : List Piece} {line : Bytes}, Settled line →
    Bytes.cr ∉ line → Bytes.lf ∉ line → (∀ piece ∈ pieces, piece.IsPlain) →
      Linked (writtenFrom line pieces)
  | [], line, hs, hcr, hlf, _ => by
    rintro (_ | i) octets ho
    · obtain rfl : line ++ Bytes.crlf = octets := by simpa [writtenFrom] using ho
      refine ⟨line, rfl, hcr, hlf, fun n => iff_of_false ?_ (by simp [writtenFrom])⟩
      have hnone := hs [] (by simp) n
      rwa [List.append_nil] at hnone
    · simp [writtenFrom] at ho
  | .text octets :: rest, line, hs, hcr, hlf, hp => by
    obtain ⟨⟨hcr', hlf', hbrace⟩, hp⟩ := List.forall_mem_cons.1 hp
    have hs' : Settled (line ++ octets) := by
      rcases hbrace with hbrace | hquote
      · exact hs.append hbrace
      · exact settled_of_quote hquote line
    rw [writtenFrom]
    exact linked_writtenFrom hs' (fun hm => (List.mem_append.1 hm).elim hcr hcr')
      (fun hm => (List.mem_append.1 hm).elim hlf hlf') hp
  | .literal octets :: rest, line, hs, hcr, hlf, hp => by
    have ih := linked_writtenFrom settled_nil (by simp) (by simp) (List.forall_mem_cons.1 hp).2
    have hunbroken : Unbroken (utf8 (toString octets.length) ++ [125]) :=
      (unbroken_toString octets.length).append (by decide)
    have hann : ∀ b ∈ 123 :: (utf8 (toString octets.length) ++ [125]),
        b ≠ Bytes.cr ∧ b ≠ Bytes.lf :=
      List.forall_mem_cons.2 ⟨by decide, fun b hb => ⟨(hunbroken b hb).1, (hunbroken b hb).2.1⟩⟩
    rintro (_ | _ | i) found hf
    · obtain rfl : line ++ announcement octets.length = found := by simpa [writtenFrom] using hf
      refine ⟨line ++ 123 :: (utf8 (toString octets.length) ++ [125]), ?_, fun hm => ?_,
        fun hm => ?_, fun n => ?_⟩
      · rw [announcement_eq, List.append_assoc]
      · exact (List.mem_append.1 hm).elim hcr fun hm => (hann _ hm).1 rfl
      · exact (List.mem_append.1 hm).elim hlf fun hm => (hann _ hm).2 rfl
      · rw [promises_announcement]
        simp [writtenFrom]
    · simp [writtenFrom] at hf
    · exact ih i found hf

end Lines

theorem octets_writtenFrom : ∀ (pieces : List Piece) (line : Bytes),
    (writtenFrom line pieces).flatMap Fragment.octets
      = line ++ pieces.flatMap Piece.octets ++ Bytes.crlf
  | [], line => by simp [writtenFrom, Fragment.octets]
  | .text octets :: rest, line => by
    simp [writtenFrom, octets_writtenFrom rest, Piece.octets]
  | .literal octets :: rest, line => by
    simp [writtenFrom, octets_writtenFrom rest, Piece.octets, Fragment.octets]

section Requests

variable {tag : String} {c : Command} {arguments : List Argument}

theorem checkTag_ok (hne : utf8 tag ≠ []) (htag : ∀ b ∈ utf8 tag, isTagOctet b) :
    checkTag tag = .ok () := by
  have hnone : (utf8 tag).zipIdx.find? (fun p => !isTagOctet p.1) = none := by
    rw [List.find?_eq_none]
    intro p hp
    have hmem := htag p.1 (List.fst_mem_of_mem_zipIdx hp)
    simp [hmem]
  rw [checkTag, if_neg (by simpa using hne), hnone]

theorem request?_formed {tag octets : Bytes} {kinds : List Kind} (hne : tag ≠ [])
    (htag : ∀ b ∈ tag, isTagOctet b) (hkinds : wanted.lookup c.name = some kinds)
    (hformed : Formed kinds arguments octets) (rest : Bytes) :
    request? (tag ++ 32 :: (utf8 c.name ++ (octets ++ (Bytes.crlf ++ rest))))
      = some (⟨tag, c.name, arguments⟩, rest) := by
  obtain ⟨hletters, hname⟩ := isLetter_name c
  have hline : Stops (Bytes.crlf ++ rest) := stops_cons (by decide)
  have hspace : ∀ b, (32 :: (utf8 c.name ++ (octets ++ (Bytes.crlf ++ rest)))).head? = some b →
      isTagOctet b = false := by
    intro b hb
    rw [← Option.some.inj hb]
    decide
  obtain ⟨httag, hdtag⟩ := takeWhile_eq htag hspace
  obtain ⟨htname, hdname⟩ := takeWhile_eq hletters
    ((hformed.stops hline).head_not isBareOctet_of_isLetter)
  simp only [request?, httag, hdtag, List.isEmpty_eq_false_iff.2 hne, htname, hdname, hname, hkinds,
    Option.bind_some, hformed.arguments? hline]
  rfl

/-- A request is read as it was written, whatever the octets of its arguments: its tag, its name
and each argument, up to the end of its last fragment. -/
theorem write_read (hne : utf8 tag ≠ []) (htag : ∀ b ∈ utf8 tag, isTagOctet b)
    (hc : c.Gives arguments) :
    ∃ fragments, c.write tag = .ok fragments
      ∧ (∀ rest, request? (fragments.flatMap Fragment.octets ++ rest)
        = some (⟨utf8 tag, c.name, arguments⟩, rest))
      ∧ Linked fragments := by
  obtain ⟨pieces, kinds, octets, hpieces, hplain, hkinds, hoctets, hformed⟩ := hc.formed
  have hwrite : c.write tag = .ok (written tag pieces) := by
    rw [write, hpieces, checkTag_ok hne htag]
    rfl
  have hspace : utf8 " " = [32] := by decide
  have hbare : Unbroken (utf8 tag) :=
    unbroken_of_bare fun b hb => (Bool.and_eq_true_iff.1 (htag b hb)).1
  have hunbroken : Unbroken (utf8 (tag ++ " ")) := by
    rw [utf8_append]
    exact hbare.append (by decide)
  refine ⟨written tag pieces, hwrite, fun rest => ?_, ?_⟩
  · have hstream : (written tag pieces).flatMap Fragment.octets ++ rest
        = utf8 tag ++ 32 :: (utf8 c.name ++ (octets ++ (Bytes.crlf ++ rest))) := by
      rw [written, octets_writtenFrom, hoctets, utf8_append, hspace]
      simp
    rw [hstream]
    exact request?_formed hne htag hkinds hformed rest
  · have hsettled : Settled (utf8 (tag ++ " ")) :=
      settled_nil.append fun hm => (hunbroken _ hm).2.2 rfl
    exact linked_writtenFrom hsettled (fun hm => (hunbroken _ hm).1 rfl)
      (fun hm => (hunbroken _ hm).2.1 rfl) hplain

/-- A password that looks like a command of its own is read as a password. -/
theorem write_read_password :
    let password := "p\xe4 \x7b1\x7d\r\nA2 LOGOUT"
    (utf8 "A1" ≠ [] ∧ (∀ b ∈ utf8 "A1", isTagOctet b)
        ∧ (Command.login "a \"b" password).Gives [.octets (utf8 "a \"b"), .octets (utf8 password)])
      ∧ ∃ fragments, (Command.login "a \"b" password).write "A1" = .ok fragments
        ∧ request? (fragments.flatMap Fragment.octets ++ utf8 "A2 CLOSE")
          = some (⟨utf8 "A1", "LOGIN", [.octets (utf8 "a \"b"), .octets (utf8 password)]⟩,
            utf8 "A2 CLOSE") := by
  intro password
  have hne : utf8 "A1" ≠ [] := by decide
  have htag : ∀ b ∈ utf8 "A1", isTagOctet b := List.all_eq_true.1 (by decide)
  have hgives : (Command.login "a \"b" password).Gives
      [.octets (utf8 "a \"b"), .octets (utf8 password)] := .login (by decide) (by decide)
  obtain ⟨fragments, hwrite, hread, -⟩ := write_read hne htag hgives
  exact ⟨⟨hne, htag, hgives⟩, fragments, hwrite, hread (utf8 "A2 CLOSE")⟩

example : (Command.login "a \"b" "p\xe4\n").write "A1"
    = .ok [.line (utf8 "A1 LOGIN \"a \\\"b\" \x7b4\x7d\r\n"), .literal (utf8 "p\xe4\n"),
      .line (utf8 "\r\n")] := by
  rfl

end Requests

end Command

end ImapProbe
