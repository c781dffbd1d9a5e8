import ImapProbe.Wire.Message

/-!
# Framing and portions

Octets that arrive later change nothing of what an assembler gives now, and an assembler that has
nothing to give goes on with them from where it stopped (`next_feed`, `next_feed_none`). So what
it gives depends on the octets alone, not on the portions they came in, nor on when it is asked
(`gives_feed_of_next`, `gives_feed_of_next_none`).
-/

namespace ImapProbe.Wire

namespace Cutter

variable {c c' : Cutter} {f : Fragment}

theorem feed_feed (c : Cutter) (as bs : Bytes) : (c.feed as).feed bs = c.feed (as ++ bs) := by
  simp [feed]

theorem next_feed (h : c.next = (some f, c')) (bs : Bytes) :
    (c.feed bs).next = (some f, c'.feed bs) := by
  unfold next at h ⊢
  rcases ha : c.awaited with _ | size <;> simp only [feed, ha] at h ⊢
  · split at h
    · simp at h
    · rename_i b rest hd
      simp only [Prod.mk.injEq, Option.some.injEq] at h
      obtain ⟨rfl, rfl⟩ := h
      have hlen : (c.unread.takeWhile (· != Bytes.lf)).length ≠ c.unread.length := fun heq => by
        have := congrArg List.length
          (List.takeWhile_append_dropWhile (p := (· != Bytes.lf)) (l := c.unread))
        simp only [List.length_append, hd, List.length_cons] at this
        omega
      rw [List.takeWhile_append, if_neg hlen, List.dropWhile_append, hd]
      rfl
  · split at h
    · simp at h
    · rename_i hlen
      simp only [Prod.mk.injEq, Option.some.injEq] at h
      obtain ⟨rfl, rfl⟩ := h
      rw [if_neg (by rw [List.length_append]; omega), List.take_append_of_le_length (by omega),
        List.drop_append_of_le_length (by omega)]

theorem next_feed_none (h : c.next = (none, c')) (bs : Bytes) :
    (c.feed bs).next = (c'.feed bs).next := by
  unfold next at h
  rcases ha : c.awaited with _ | size <;> simp only [ha] at h
  · split at h
    · rename_i hd
      simp only [Prod.mk.injEq, true_and] at h
      subst h
      have ht : c.unread.takeWhile (· != Bytes.lf) = c.unread := by
        have := List.takeWhile_append_dropWhile (p := (· != Bytes.lf)) (l := c.unread)
        rwa [hd, List.append_nil] at this
      simp only [next, feed, ha, List.takeWhile_append, List.dropWhile_append, hd, ht, if_true,
        List.isEmpty_nil, List.nil_append, List.append_assoc]
    · simp at h
  · split at h
    · rename_i hlen
      simp only [Prod.mk.injEq, true_and] at h
      subst h
      have hm : size - (c.held ++ c.unread).length = size - c.held.length - c.unread.length := by
        rw [List.length_append]
        omega
      simp only [next, feed, ha, hm, List.nil_append, List.append_assoc, List.take_append,
        List.drop_append, List.take_of_length_le (Nat.le_of_lt hlen),
        List.drop_of_length_le (Nat.le_of_lt hlen)]
      rw [List.length_append]
      by_cases hb : bs.length < size - c.held.length - c.unread.length
      · rw [if_pos hb, if_pos (by omega)]
      · rw [if_neg hb, if_neg (by omega)]
    · simp at h

end Cutter

namespace Assembler

variable {a a' : Assembler} {cutter : Cutter} {f : Fragment}

theorem feed_feed (a : Assembler) (as bs : Bytes) : (a.feed as).feed bs = a.feed (as ++ bs) := by
  simp [feed, Cutter.feed_feed]

theorem feed_nil (a : Assembler) : a.feed [] = a := by
  simp [feed, Cutter.feed]

theorem next_of_none (h : a.cutter.next = (none, cutter)) : a.next = (none, { a with cutter }) := by
  unfold next
  split <;> rename_i h' <;> rw [h] at h' <;> simp_all

theorem next_of_last (h : a.cutter.next = (some f, cutter))
    (h' : ({ a with cutter : Assembler }).add f = (a', true)) :
    a.next = (some a'.complete, idle a'.limit a'.cutter) := by
  rw [next.eq_def]
  split <;> rename_i hc
  · simp_all
  · rw [h] at hc
    simp only [Prod.mk.injEq, Option.some.injEq] at hc
    obtain ⟨rfl, rfl⟩ := hc
    split <;> rename_i ha <;> rw [h'] at ha <;> simp_all

theorem next_of_more (h : a.cutter.next = (some f, cutter))
    (h' : ({ a with cutter : Assembler }).add f = (a', false)) : a.next = a'.next := by
  rw [next.eq_def]
  split <;> rename_i hc
  · simp_all
  · rw [h] at hc
    simp only [Prod.mk.injEq, Option.some.injEq] at hc
    obtain ⟨rfl, rfl⟩ := hc
    split <;> rename_i ha <;> rw [h'] at ha <;> simp_all

theorem next_congr (a : Assembler) {c₁ c₂ : Cutter} (h : c₁.next = c₂.next) :
    ({ a with cutter := c₁ } : Assembler).next = ({ a with cutter := c₂ } : Assembler).next := by
  rcases hc : c₂.next with ⟨_ | f, cutter⟩
  · rw [next_of_none (h.trans hc), next_of_none hc]
  · rcases ha : ({ a with cutter } : Assembler).add f with ⟨a', _ | _⟩
    · rw [next_of_more (a := { a with cutter := c₁ }) (h.trans hc) ha,
        next_of_more (a := { a with cutter := c₂ }) hc ha]
    · rw [next_of_last (a := { a with cutter := c₁ }) (h.trans hc) ha,
        next_of_last (a := { a with cutter := c₂ }) hc ha]

theorem add_feed (a : Assembler) (f : Fragment) (bs : Bytes) :
    (a.feed bs).add f = ((a.add f).1.feed bs, (a.add f).2) := by
  unfold add feed Cutter.feed
  cases f
  · simp only
    split <;> rfl
  · rfl

/-- What was given stands, whatever arrives later. -/
theorem next_feed {r : Except Malformation Message} (h : a.next = (some r, a')) (bs : Bytes) :
    (a.feed bs).next = (some r, a'.feed bs) := by
  fun_induction next a with
  | case1 => simp at h
  | case2 a fragment cutter hc a₁ ha =>
    simp only [Prod.mk.injEq, Option.some.injEq] at h
    obtain ⟨rfl, rfl⟩ := h
    have hadd := add_feed { a with cutter } fragment bs
    rw [ha] at hadd
    exact next_of_last (a := a.feed bs) (Cutter.next_feed hc bs) hadd
  | case3 a fragment cutter hc a₁ ha ih =>
    have hadd := add_feed { a with cutter } fragment bs
    rw [ha] at hadd
    rw [next_of_more (a := a.feed bs) (Cutter.next_feed hc bs) hadd]
    exact ih h

/-- An assembler that gave nothing goes on from where it stopped. -/
theorem next_feed_none (h : a.next = (none, a')) (bs : Bytes) :
    (a.feed bs).next = (a'.feed bs).next := by
  fun_induction next a with
  | case1 a cutter hc =>
    simp only [Prod.mk.injEq, true_and] at h
    subst h
    exact next_congr a (Cutter.next_feed_none hc bs)
  | case2 => simp at h
  | case3 a fragment cutter hc a₁ ha ih =>
    have hadd := add_feed { a with cutter } fragment bs
    rw [ha] at hadd
    rw [next_of_more (a := a.feed bs) (Cutter.next_feed hc bs) hadd]
    exact ih h

theorem go_of_next_none {n : Nat} (h : a.next = (none, a')) : results.go n a = ([], a') := by
  unfold results.go
  simp [h]

theorem effort_lt_of_next {r : Except Malformation Message} (h : a.next = (some r, a')) :
    a'.cutter.effort < a.cutter.effort := by
  simpa [h] using (effort_next a).1

theorem go_eq_go :
    ∀ (n m : Nat) (a : Assembler), a.cutter.effort ≤ n → a.cutter.effort ≤ m →
      results.go n a = results.go m a
  | n, m, a, hn, hm => by
    rcases h : a.next with ⟨_ | r, a'⟩
    · rw [go_of_next_none h, go_of_next_none h]
    · have hlt := effort_lt_of_next h
      obtain ⟨n, rfl⟩ : ∃ k, n = k + 1 := ⟨n - 1, by omega⟩
      obtain ⟨m, rfl⟩ : ∃ k, m = k + 1 := ⟨m - 1, by omega⟩
      have ih := go_eq_go n m a' (by omega) (by omega)
      unfold results.go
      simp only [h, ih]

theorem results_of_next_none (h : a.next = (none, a')) : a.results = ([], a') :=
  go_of_next_none h

/-- One result at a time: what follows the first is what the rest gives. -/
theorem results_of_next {r : Except Malformation Message} (h : a.next = (some r, a')) :
    a.results = (r :: a'.results.1, a'.results.2) := by
  have hlt := effort_lt_of_next h
  obtain ⟨n, hn⟩ : ∃ k, a.cutter.effort = k + 1 := ⟨a.cutter.effort - 1, by omega⟩
  have hgo := go_eq_go n a'.cutter.effort a' (by omega) (by omega)
  unfold results
  rw [hn]
  conv => lhs; unfold results.go
  simp only [h, hgo]

theorem results_congr {b : Assembler} (h : a.next = b.next) : a.results = b.results := by
  rcases hb : b.next with ⟨_ | r, b'⟩
  · rw [results_of_next_none (h.trans hb), results_of_next_none hb]
  · rw [results_of_next (h.trans hb), results_of_next hb]

/-- Asking brings these results, and the first assembler goes on as the second. -/
inductive Gives : Assembler → List (Except Malformation Message) → Assembler → Prop
  | here {a a' : Assembler} : a.next = a'.next → Gives a [] a'
  | result {a a₁ a' : Assembler} {r : Except Malformation Message}
    {rs : List (Except Malformation Message)} :
    a.next = (some r, a₁) → Gives a₁ rs a' → Gives a (r :: rs) a'

theorem Gives.refl (a : Assembler) : Gives a [] a := .here rfl

theorem Gives.trans {b c : Assembler} {rs rs' : List (Except Malformation Message)} :
    ∀ {a : Assembler}, Gives a rs b → Gives b rs' c → Gives a (rs ++ rs') c
  | _, .here h, .here h' => .here (h.trans h')
  | _, .here h, .result h' g => .result (h.trans h') g
  | _, .result h g, g' => .result h (g.trans g')

theorem Gives.results {b : Assembler} {rs : List (Except Malformation Message)} :
    ∀ {a : Assembler}, Gives a rs b → a.results = (rs ++ b.results.1, b.results.2)
  | _, .here h => results_congr h
  | _, .result h g => by rw [results_of_next h, g.results, List.cons_append]

/-- A result given before octets arrive is the first of all. -/
theorem gives_feed_of_next {r : Except Malformation Message} (h : a.next = (some r, a'))
    (bs : Bytes) : Gives (a.feed bs) [r] (a'.feed bs) :=
  .result (next_feed h bs) (.refl _)

/-- An assembler that stopped for want of octets gives the same as if it had not been asked. -/
theorem gives_feed_of_next_none (h : a.next = (none, a')) (bs : Bytes) :
    Gives (a.feed bs) [] (a'.feed bs) :=
  .here (next_feed_none h bs)

end Assembler

end ImapProbe.Wire
