import ImapProbe.Proofs.Schedule

/-!
# What is done when an assembler is asked

Fragments are added one at a time until one ends the message or no more is there (`Asked`). At most
two are added for an octet and one for an awaited literal, so asking comes to an end also where
literals have no octets (`Asked.length_le`).

A line is pending exactly when a literal is awaited (`Paired`). This holds at the start, after every
fragment and after every message, above the limit or not, so a literal always finds the line that
announced it (`Asked.announced`), and no message leaves a line to the next one (`Paired.last`).
-/

namespace ImapProbe.Wire

namespace Assembler

variable {a a' a'' : Assembler} {f : Fragment} {cutter : Cutter} {octets : Bytes} {ends : Bool}
  {steps : List (Assembler × Fragment)} {r : Option (Except Malformation Message)}

/-- What happens in an assembler that is asked: the fragments it adds, each with the assembler as it
is then, the answer, and the assembler that is left. The end of a message takes away its parts and
its octets, and does nothing to a pending line. -/
inductive Asked : Assembler → List (Assembler × Fragment) →
    Option (Except Malformation Message) → Assembler → Prop
  | stop {a : Assembler} {cutter : Cutter} : a.cutter.next = (none, cutter) →
    Asked a [] none { a with cutter }
  | last {a a' : Assembler} {cutter : Cutter} {f : Fragment} :
    a.cutter.next = (some f, cutter) → ({ a with cutter : Assembler }).add f = (a', true) →
    Asked a [({ a with cutter }, f)] (some a'.complete) { a' with parts := [], received := [] }
  | more {a a' a'' : Assembler} {cutter : Cutter} {f : Fragment}
    {steps : List (Assembler × Fragment)} {r : Option (Except Malformation Message)} :
    a.cutter.next = (some f, cutter) → ({ a with cutter : Assembler }).add f = (a', false) →
    Asked a' steps r a'' → Asked a (({ a with cutter }, f) :: steps) r a''

theorem cutter_of_add (h : ({ a with cutter : Assembler }).add f = (a', ends)) :
    a'.cutter = cutter := by
  have hcutter := cutter_add { a with cutter } f
  rwa [h] at hcutter

theorem add_line_last (h : a.cutter.awaited = .line) : a.add (.line octets)
    = ({ a with
          received := a.received ++ octets
          parts := a.parts ++ [.line (chomp octets)] }, true) := if_pos h

theorem add_line_more (h : a.cutter.awaited ≠ .line) : a.add (.line octets)
    = ({ a with
          received := a.received ++ octets
          announcement := some (chomp octets) }, false) := if_neg h

theorem awaited_of_last (h : a.add f = (a', true)) : a'.cutter.awaited = .line := by
  rcases f with octets | octets
  · by_cases hl : a.cutter.awaited = .line
    · rw [add_line_last hl] at h
      rw [← (Prod.mk.inj h).1]
      exact hl
    · rw [add_line_more hl] at h
      simp at h
  · simp [add] at h

/-- A line is pending exactly when a literal is awaited. -/
def Paired (a : Assembler) : Prop := a.announcement.isSome ↔ ∃ n, a.cutter.awaited = .literal n

namespace Paired

theorem idle (limit : Nat) : Paired (.idle limit {}) := by
  simp [Paired, Assembler.idle]

theorem none_of_line (h : Paired a) (hl : a.cutter.awaited = .line) : a.announcement = none := by
  rcases hs : a.announcement with _ | line
  · rfl
  · obtain ⟨n, hn⟩ := h.1 (by rw [hs]; rfl)
    simp [hl] at hn

theorem feed (h : Paired a) (octets : Bytes) : Paired (a.feed octets) := h

theorem stop (h : Paired a) (hn : a.cutter.next = (none, cutter)) : Paired { a with cutter } := by
  unfold Paired
  rw [(Cutter.next_none hn).2]
  exact h

theorem add (h : Paired a) (hn : a.cutter.next = (some f, cutter))
    (ha : ({ a with cutter : Assembler }).add f = (a', ends)) : Paired a' := by
  rcases Cutter.next_cases hn with ⟨hline, octets, rfl⟩ | ⟨-, hline, octets, rfl⟩
  · rcases hl : cutter.awaited with _ | n
    · rw [add_line_last hl] at ha
      simp [← (Prod.mk.inj ha).1, Paired, h.none_of_line hline, hl]
    · rw [add_line_more (by simp [hl])] at ha
      simp [← (Prod.mk.inj ha).1, Paired, hl]
  · simp [← (Prod.mk.inj ha).1, Paired, hline]

/-- No line is pending when a message ends, so there is none to take away. -/
theorem last (h : Paired a) (hn : a.cutter.next = (some f, cutter))
    (ha : ({ a with cutter : Assembler }).add f = (a', true)) :
    ({ a' with parts := [], received := [] } : Assembler) = .idle a'.limit a'.cutter := by
  rw [(h.add hn ha).none_of_line (awaited_of_last ha)]
  rfl

/-- A literal that arrives was awaited, so the line that announced it is pending. -/
theorem announced (h : Paired a) (hn : a.cutter.next = (some f, cutter)) {b : Assembler}
    (hb : (b, .literal octets) = (({ a with cutter : Assembler }), f)) :
    b.announcement.isSome := by
  obtain ⟨rfl, rfl⟩ := Prod.mk.inj hb
  rcases Cutter.next_cases hn with ⟨-, line, hline⟩ | ⟨hliteral, -⟩
  · simp at hline
  · exact h.2 hliteral

end Paired

theorem exists_asked (h : Paired a) : ∃ steps, Asked a steps a.next.1 a.next.2 := by
  fun_induction next a with
  | case1 a cutter hn => exact ⟨_, .stop hn⟩
  | case2 a f cutter hn a' ha =>
    rw [← h.last hn ha]
    exact ⟨_, .last hn ha⟩
  | case3 a f cutter hn a' ha ih =>
    obtain ⟨steps, hsteps⟩ := ih (h.add hn ha)
    exact ⟨_, .more hn ha hsteps⟩

namespace Asked

theorem next_eq (h : Asked a steps r a') (hp : Paired a) : a.next = (r, a') := by
  induction h with
  | stop hn => exact next_of_none hn
  | last hn ha => rw [next_of_last hn ha, hp.last hn ha]
  | more hn ha _ ih => rw [next_of_more hn ha, ih (hp.add hn ha)]

theorem paired (h : Asked a steps r a') (hp : Paired a) : Paired a' := by
  induction h with
  | stop hn => exact hp.stop hn
  | last hn ha =>
    have hpaired := hp.add hn ha
    exact hpaired
  | more hn ha _ ih => exact ih (hp.add hn ha)

/-- Each fragment takes effort of the cutter. -/
theorem length_le (h : Asked a steps r a') :
    steps.length + a'.cutter.effort ≤ a.cutter.effort := by
  induction h with
  | stop hn => simpa using Cutter.effort_next_none hn
  | last hn ha =>
    have heffort := Cutter.next_effort hn
    rw [← cutter_of_add ha] at heffort
    simp only [List.length_singleton]
    omega
  | more hn ha _ ih =>
    have heffort := Cutter.next_effort hn
    rw [← cutter_of_add ha] at heffort
    rw [List.length_cons]
    omega

theorem announced (h : Asked a steps r a') (hp : Paired a) :
    ∀ b octets, (b, .literal octets) ∈ steps → b.announcement.isSome := by
  induction h with
  | stop hn => simp
  | last hn ha =>
    intro b octets hmem
    exact hp.announced hn (List.mem_singleton.1 hmem)
  | more hn ha _ ih =>
    intro b octets hmem
    rcases List.mem_cons.1 hmem with heq | hmem
    · exact hp.announced hn heq
    · exact ih (hp.add hn ha) b octets hmem

/-- Where there is no answer all octets were read, and they are not read again. -/
theorem unread_eq (h : Asked a steps r a') (hr : r = none) : a'.cutter.unread = [] := by
  induction h with
  | stop hn => exact (Cutter.next_none hn).1
  | last => simp at hr
  | more _ _ _ ih => exact ih hr

end Asked

/-- What becomes of an assembler. -/
def act (a : Assembler) : Move → Assembler
  | .feed octets => a.feed octets
  | .ask => a.next.2

def after (moves : List Move) (a : Assembler) : Assembler := moves.foldl act a

theorem Paired.act (h : Paired a) : ∀ move, Paired (a.act move)
  | .feed octets => h.feed octets
  | .ask => by
    obtain ⟨steps, hsteps⟩ := exists_asked h
    exact hsteps.paired h

theorem Paired.after (h : Paired a) (moves : List Move) : Paired (after moves a) := by
  induction moves generalizing a with
  | nil => exact h
  | cons move moves ih => exact ih (h.act move)

/-- Whatever was fed and asked before, a line is pending exactly when a literal is awaited, and
asking comes to an end. The fragments that are added are at most twice the octets and one more, and
a literal among them finds its line. Where there is no answer all octets were read, and asking again
adds nothing and gives no answer. -/
theorem asked_after (limit : Nat) (moves : List Move) :
    let a := after moves (idle limit {})
    (a.announcement.isSome ↔ ∃ n, a.cutter.awaited = .literal n)
      ∧ (∃ steps, Asked a steps a.next.1 a.next.2)
      ∧ ∀ steps r a', Asked a steps r a' →
        a.next = (r, a')
        ∧ steps.length ≤ 2 * a.cutter.unread.length + 1
        ∧ (∀ b octets, (b, .literal octets) ∈ steps → b.announcement.isSome)
        ∧ (r = none → a'.cutter.unread = [] ∧ a'.next = (none, a')) := by
  intro a
  have hp : Paired a := (Paired.idle limit).after moves
  refine ⟨hp, exists_asked hp, fun steps r a' h => ⟨h.next_eq hp, ?_, h.announced hp, fun hr => ?_⟩⟩
  · have hlength := h.length_le
    have heffort : a.cutter.effort ≤ 2 * a.cutter.unread.length + 1 := by
      unfold Cutter.effort
      split <;> omega
    omega
  · subst hr
    exact ⟨h.unread_eq rfl, next_of_next_none (h.next_eq hp)⟩

/-- Behind a refused message stand two literals, the first of no octets. Asking reads what is there
of the second, and then gives nothing however often. -/
theorem asked_after_refused :
    let a := after [.feed (utf8 "\x7b0\x7d\n\n\x7b0\x7d\n\x7b3\x7d\na")] (idle 4 {})
    a.next.1 = some (.error (.oversized 4))
      ∧ ∃ steps b, Asked a.next.2 steps none b ∧ steps.length = 3
        ∧ a.next.2.next = (none, b) ∧ b.next = (none, b)
        ∧ b.cutter = ⟨.literal 3, utf8 "a", []⟩ ∧ b.announcement = some (utf8 "\x7b3\x7d") := by
  have hstream : utf8 "\x7b0\x7d\n\n\x7b0\x7d\n\x7b3\x7d\na"
      = [123, 48, 125, 10, 10, 123, 48, 125, 10, 123, 51, 125, 10, 97] := by decide
  rw [hstream]
  intro a
  obtain ⟨_, _, _, hrefused, rfl, rfl⟩ : ∃ steps r a', Asked a steps r a'
      ∧ r = some (.error (.oversized 4))
      ∧ a' = { limit := 4, cutter := { unread := [123, 48, 125, 10, 123, 51, 125, 10, 97] } } :=
    ⟨_, _, _, .more rfl rfl (.more rfl rfl (.last rfl rfl)), rfl, rfl⟩
  obtain ⟨hnext, -⟩ := (asked_after 4 [.feed _]).2.2 _ _ _ hrefused
  obtain ⟨steps, b, hrun, hlength, hcutter, hannouncement⟩ : ∃ steps b,
      Asked a.next.2 steps none b ∧ steps.length = 3
        ∧ b.cutter = ⟨.literal 3, utf8 "a", []⟩ ∧ b.announcement = some (utf8 "\x7b3\x7d") := by
    rw [hnext]
    exact ⟨_, _, .more rfl rfl (.more rfl rfl (.more rfl rfl (.stop rfl))), rfl, rfl, rfl⟩
  obtain ⟨hlast, -, -, hsettled⟩ := (asked_after 4 [.feed _, .ask]).2.2 _ _ _ hrun
  exact ⟨congrArg Prod.fst hnext, steps, b, hrun, hlength, hlast, (hsettled rfl).2, hcutter,
    hannouncement⟩

end Assembler

end ImapProbe.Wire
