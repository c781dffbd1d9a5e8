import ImapProbe.Wire.Fragment

/-!
# Fragments cut from a byte stream

A cutter takes octets in any portions and gives the fragments they complete. What arrived and was
not yet enough stays in the cutter, so where a portion ends makes no difference.

A cutter asked once more either uses up an octet or gives a literal and goes on to a line
(`next_effort`), so asking comes to an end also over literals of no octets.
-/

namespace ImapProbe.Wire

inductive Awaited where
  | line
  | literal (size : Nat)
  deriving DecidableEq, Repr

structure Cutter where
  awaited : Awaited := .line
  /-- The octets of the awaited fragment that were read. -/
  held : Bytes := []
  /-- Octets that arrived and were not read. -/
  unread : Bytes := []
  deriving DecidableEq, Repr

namespace Cutter

def feed (c : Cutter) (bytes : Bytes) : Cutter := { c with unread := c.unread ++ bytes }

/-- What comes after a line, which is given without its line feed. -/
def afterLine (line : Bytes) : Awaited :=
  match announced? line with
  | some n => .literal n
  | none => .line

/-- The next fragment, if all its octets have arrived. -/
def next (c : Cutter) : Option Fragment × Cutter :=
  match c.awaited with
  | .line =>
    let line := c.held ++ c.unread.takeWhile (· != Bytes.lf)
    match c.unread.dropWhile (· != Bytes.lf) with
    | [] => (none, ⟨.line, line, []⟩)
    | feed :: rest => (some (.line (line ++ [feed])), ⟨afterLine line, [], rest⟩)
  | .literal size =>
    let missing := size - c.held.length
    if c.unread.length < missing then (none, ⟨.literal size, c.held ++ c.unread, []⟩)
    else
      (some (.literal (c.held ++ c.unread.take missing)), ⟨.line, [], c.unread.drop missing⟩)

/-- Bounds the fragments still to come: two for an octet, and one for an awaited literal. -/
def effort (c : Cutter) : Nat :=
  2 * c.unread.length + match c.awaited with
    | .line => 0
    | .literal _ => 1

theorem next_effort {c c' : Cutter} {f : Fragment} (h : c.next = (some f, c')) :
    c'.effort < c.effort := by
  unfold next at h
  split at h
  · rename_i ha
    simp only at h
    split at h
    · simp at h
    · rename_i feed rest hs
      have hlen : rest.length + 1 ≤ c.unread.length := by
        simpa [hs] using (List.dropWhile_suffix (· != Bytes.lf) (l := c.unread)).length_le
      simp only [Prod.mk.injEq] at h
      rw [← h.2]
      unfold effort
      rw [ha]
      simp only
      split <;> omega
  · rename_i n ha
    simp only at h
    split at h
    · simp at h
    · simp only [Prod.mk.injEq] at h
      rw [← h.2]
      unfold effort
      rw [ha]
      simp only [List.length_drop]
      omega

theorem next_none {c c' : Cutter} (h : c.next = (none, c')) :
    c'.unread = [] ∧ c'.awaited = c.awaited := by
  unfold next at h
  split at h
  all_goals
    rename_i ha
    simp only at h
    split at h <;> simp only [Prod.mk.injEq, reduceCtorEq, true_and, false_and] at h
    rw [← h]
    exact ⟨rfl, ha.symm⟩

theorem effort_next_none {c c' : Cutter} (h : c.next = (none, c')) : c'.effort ≤ c.effort := by
  obtain ⟨hunread, hawaited⟩ := next_none h
  simp only [effort, hunread, hawaited, List.length_nil]
  omega

/-- What is given is what was awaited, and behind a literal comes a line. -/
theorem next_cases {c c' : Cutter} {f : Fragment} (h : c.next = (some f, c')) :
    (c.awaited = .line ∧ ∃ octets, f = .line octets)
      ∨ (∃ n, c.awaited = .literal n) ∧ c'.awaited = .line ∧ ∃ octets, f = .literal octets := by
  unfold next at h
  rcases ha : c.awaited with _ | n <;> simp only [ha] at h <;> split at h
  · simp at h
  · simp only [Prod.mk.injEq, Option.some.injEq] at h
    exact .inl ⟨rfl, _, h.1.symm⟩
  · simp at h
  · simp only [Prod.mk.injEq, Option.some.injEq] at h
    exact .inr ⟨⟨n, rfl⟩, by rw [← h.2], _, h.1.symm⟩

theorem effort_feed (c : Cutter) (bytes : Bytes) :
    (c.feed bytes).effort = c.effort + 2 * bytes.length := by
  simp only [feed, effort, List.length_append]
  omega

end Cutter

end ImapProbe.Wire
