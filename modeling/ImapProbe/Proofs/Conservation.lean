import ImapProbe.Proofs.Framing

/-!
# No octet is lost in framing

Every octet that was fed stands in exactly one place: in a fragment or a message that was given,
in one that was refused, or in the assembler still. A cutter gives its octets from the first one on
(`Cutter.pending_next`), and so does an assembler, a piece for each of its results (`pending_next`).
-/

namespace ImapProbe.Wire

namespace Cutter

/-- The octets that were fed and not given. -/
def pending (c : Cutter) : Bytes := c.held ++ c.unread

theorem pending_feed (c : Cutter) (bytes : Bytes) :
    (c.feed bytes).pending = c.pending ++ bytes := by
  simp [pending, feed]

theorem pending_next {c c' : Cutter} {f : Fragment} (h : c.next = (some f, c')) :
    c.pending = f.octets ++ c'.pending := by
  unfold next at h
  split at h
  · simp only at h
    split at h
    · simp at h
    · rename_i feed rest hd
      simp only [Prod.mk.injEq, Option.some.injEq] at h
      obtain ⟨rfl, rfl⟩ := h
      have hu := List.takeWhile_append_dropWhile (p := (· != Bytes.lf)) (l := c.unread)
      rw [hd] at hu
      simp only [pending, Fragment.octets, List.append_assoc, List.nil_append,
        List.singleton_append, hu]
  · simp only at h
    split at h
    · simp at h
    · simp only [Prod.mk.injEq, Option.some.injEq] at h
      obtain ⟨rfl, rfl⟩ := h
      simp [pending, Fragment.octets]

theorem pending_next_none {c c' : Cutter} (h : c.next = (none, c')) : c'.pending = c.pending := by
  unfold next at h
  split at h
  · simp only at h
    split at h
    · rename_i hd
      simp only [Prod.mk.injEq, true_and] at h
      have hu := List.takeWhile_append_dropWhile (p := (· != Bytes.lf)) (l := c.unread)
      rw [hd, List.append_nil] at hu
      rw [← h, pending, pending, hu, List.append_nil]
    · simp at h
  · simp only at h
    split at h
    · simp only [Prod.mk.injEq, true_and] at h
      simp [← h, pending]
    · simp at h

end Cutter

/-- The octets that a result was made of: those of the message, or more than the limit. -/
def Made (limit : Nat) (octets : Bytes) : Except Malformation Message → Prop
  | .ok m => m.octets = octets ∧ octets.length ≤ limit
  | .error e => e = .oversized limit ∧ limit < octets.length

/-- Octets in a row that results were made of, none of them left out and none used twice. -/
inductive MadeInTurn (limit : Nat) : List (Except Malformation Message) → Bytes → Prop
  | nil : MadeInTurn limit [] []
  | cons {r : Except Malformation Message} {rs : List (Except Malformation Message)}
    {octets rest : Bytes} :
    Made limit octets r → MadeInTurn limit rs rest → MadeInTurn limit (r :: rs) (octets ++ rest)

namespace Assembler

variable {a a' : Assembler}

/-- The octets that were fed and are part of no result. -/
def pending (a : Assembler) : Bytes := a.received ++ a.cutter.pending

theorem pending_feed (a : Assembler) (bytes : Bytes) :
    (a.feed bytes).pending = a.pending ++ bytes := by
  simp [pending, feed, Cutter.pending_feed]

/-- A fragment passes from the cutter into the message that is being read. -/
theorem pending_add {f : Fragment} {cutter : Cutter} (h : a.cutter.next = (some f, cutter)) :
    (({ a with cutter : Assembler }).add f).1.limit = a.limit
      ∧ (({ a with cutter : Assembler }).add f).1.pending = a.pending := by
  rw [pending, pending, Cutter.pending_next h, ← List.append_assoc]
  unfold add
  rcases f with line | literal
  · simp only
    split <;> exact ⟨rfl, rfl⟩
  · exact ⟨rfl, rfl⟩

theorem made_complete (a : Assembler) : Made a.limit a.received a.complete := by
  unfold complete
  split
  · exact ⟨rfl, by assumption⟩
  · exact ⟨rfl, by omega⟩

/-- A result is made of the first octets. -/
theorem pending_next {r : Except Malformation Message} (h : a.next = (some r, a')) :
    a'.limit = a.limit ∧ ∃ octets, Made a.limit octets r ∧ a.pending = octets ++ a'.pending := by
  fun_induction next a with
  | case1 => simp at h
  | case2 a f cutter hc a₁ ha =>
    simp only [Prod.mk.injEq, Option.some.injEq] at h
    obtain ⟨rfl, rfl⟩ := h
    obtain ⟨hlimit, hpending⟩ := pending_add hc
    rw [ha] at hlimit hpending
    exact ⟨hlimit, a₁.received, hlimit ▸ made_complete a₁, hpending.symm⟩
  | case3 a f cutter hc a₁ ha ih =>
    obtain ⟨hlimit, hpending⟩ := pending_add hc
    rw [ha] at hlimit hpending
    obtain ⟨hl, octets, hm, ho⟩ := ih h
    exact ⟨hl.trans hlimit, octets, hlimit ▸ hm, hpending.symm.trans ho⟩

theorem pending_next_none (h : a.next = (none, a')) :
    a'.limit = a.limit ∧ a'.pending = a.pending := by
  fun_induction next a with
  | case1 a cutter hc =>
    simp only [Prod.mk.injEq, true_and] at h
    subst h
    exact ⟨rfl, by rw [pending, pending, Cutter.pending_next_none hc]⟩
  | case2 => simp at h
  | case3 a f cutter hc a₁ ha ih =>
    obtain ⟨hlimit, hpending⟩ := pending_add hc
    rw [ha] at hlimit hpending
    obtain ⟨hl, ho⟩ := ih h
    exact ⟨hl.trans hlimit, ho.trans hpending⟩

end Assembler

end ImapProbe.Wire
