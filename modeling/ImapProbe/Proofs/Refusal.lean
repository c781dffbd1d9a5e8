import ImapProbe.Proofs.Restoration
import Mathlib.Logic.Basic

/-!
# Messages above the limit

A stream of utterances gives one result for each of them, a refusal exactly for those above the
limit, and nothing for what is behind the last (`results_of_utterances`). So a refused message is
skipped as a whole: the others, and whatever comes later, are framed as if it had never been sent.

An assembler need not hold the octets it will refuse. One that keeps no more octets of a message
than the limit, and makes its parts of these, cannot be told from one that keeps them all
(`Clipper.answers_eq`).
-/

namespace ImapProbe.Wire

/-- Octets that no utterance stands at the beginning of. -/
def IsIncomplete (rest : Bytes) : Prop := ∀ u : Utterance, ¬ u.octets <+: rest

theorem isIncomplete_nil : IsIncomplete [] := fun u h => by
  have := u.length_octets_pos
  simp [List.prefix_nil.1 h] at this

theorem Utterance.isOk_result (limit : Nat) (u : Utterance) :
    (u.result limit).isOk = decide (u.octets.length ≤ limit) := by
  unfold Utterance.result
  split <;> rename_i hlen <;> simp [hlen, Except.isOk, Except.toBool]

namespace Assembler

/-- An assembler gives nothing on octets exactly when they are incomplete. -/
theorem next_incomplete_iff {limit : Nat} {rest : Bytes} :
    (idle limit { unread := rest }).next.1 = none ↔ IsIncomplete rest := by
  constructor
  · rintro h u ⟨tail, rfl⟩
    rw [next_utterance] at h
    simp at h
  · intro h
    rcases hn : (idle limit { unread := rest }).next with ⟨_ | r, a⟩
    · rfl
    · obtain ⟨u, tail, rfl⟩ := exists_utterance rest rfl hn
      exact absurd (List.prefix_append _ _) (h u)

/-- Utterances give their results, and an incomplete rest gives nothing and is what is left. -/
theorem results_of_utterances (limit : Nat) {rest : Bytes} (hrest : IsIncomplete rest) :
    ∀ us : List Utterance,
      (idle limit { unread := us.flatMap Utterance.octets ++ rest }).results
        = (us.map (Utterance.result limit), (idle limit { unread := rest }).next.2)
  | [] => results_of_next_none (Prod.ext (next_incomplete_iff.2 hrest) rfl)
  | u :: us => by
    rw [List.flatMap_cons, List.append_assoc, results_of_next (next_utterance limit u _),
      results_of_utterances limit hrest us, List.map_cons]

end Assembler

/-- An assembler that keeps the first octets of a message, no more of them than its limit. -/
structure Clipper where
  limit : Nat
  cutter : Cutter := {}
  /-- What was kept of the line that announced the awaited literal. -/
  announcement : Option Bytes := none
  /-- The parts of the message that is being read, made of what was kept. -/
  parts : List Part := []
  /-- The first octets of that message. -/
  kept : Bytes := []
  /-- Whether it has more octets. -/
  exceeded : Bool := false
  deriving DecidableEq, Repr

/-- How many octets of a line are its ending. -/
def endingSize (line : Bytes) : Nat := line.length - (chomp line).length

namespace Clipper

def feed (c : Clipper) (bytes : Bytes) : Clipper := { c with cutter := c.cutter.feed bytes }

/-- Ends the message, or refuses it when octets of it were not kept. -/
def complete (c : Clipper) : Except Malformation Message :=
  if c.exceeded then .error (.oversized c.kept.length) else .ok ⟨c.parts, c.kept⟩

/-- What is kept of the next octets. -/
def seen (c : Clipper) (octets : Bytes) : Bytes :=
  ((c.kept ++ octets).take c.limit).drop c.kept.length

def keep (c : Clipper) (octets : Bytes) : Clipper :=
  { c with
    kept := (c.kept ++ octets).take c.limit
    exceeded := c.exceeded || decide (c.limit < (c.kept ++ octets).length) }

/-- Adds what is kept of a fragment to the message, even when that is clipped inside an ending. -/
def add (c : Clipper) (fragment : Fragment) : Clipper × Bool :=
  match fragment with
  | .line octets =>
    let text := (c.seen octets).take ((c.seen octets).length - endingSize octets)
    if c.cutter.awaited = .line then
      ({ c.keep octets with parts := c.parts ++ [.line text] }, true)
    else ({ c.keep octets with announcement := some text }, false)
  | .literal octets =>
    ({ c.keep octets with
        parts := c.parts ++ [.literal (c.announcement.getD []) (c.seen octets)]
        announcement := none }, false)

theorem cutter_add (c : Clipper) (fragment : Fragment) :
    (c.add fragment).1.cutter = c.cutter := by
  unfold add
  rcases fragment with octets | octets
  · simp only
    split <;> rfl
  · rfl

/-- Clips up to the next message, if it is there. What was announced stays with the clipper, and
would be passed on to the message behind. -/
def next (c : Clipper) : Option (Except Malformation Message) × Clipper :=
  match _h : c.cutter.next with
  | (none, cutter) => (none, { c with cutter })
  | (some fragment, cutter) =>
    match _h' : ({ c with cutter : Clipper }).add fragment with
    | (c', true) =>
      (some c'.complete,
        { limit := c'.limit, cutter := c'.cutter, announcement := c'.announcement })
    | (c', false) => next c'
termination_by c.cutter.effort
decreasing_by
  have hc := cutter_add { c with cutter } fragment
  rw [_h'] at hc
  simp only at hc
  rw [hc]
  exact Cutter.next_effort _h

end Clipper

theorem chomp_begins (line : Bytes) : chomp line <+: line := by
  have hstep : ∀ (p : Prop) [Decidable p] (octets : Bytes),
      (if p then octets.dropLast else octets) <+: octets := fun p _ octets => by
    split
    · exact List.dropLast_prefix octets
    · exact List.prefix_rfl
  exact (hstep _ _).trans (hstep _ _)

theorem take_endingSize (line : Bytes) :
    line.take (line.length - endingSize line) = chomp line := by
  have hlen := (chomp_begins line).length_le
  rw [endingSize, Nat.sub_sub_self hlen]
  exact (List.prefix_iff_eq_take.1 (chomp_begins line)).symm

theorem Cutter.awaited_of_line {c c' : Cutter} {line : Bytes}
    (h : c.next = (some (.line line), c')) : c.awaited = .line := by
  rcases next_cases h with ⟨hline, -⟩ | ⟨-, -, octets, hliteral⟩
  · exact hline
  · simp at hliteral

/-- A clipper holds of a message what it keeps, and stands where the assembler stands. -/
structure Clips (a : Assembler) (c : Clipper) : Prop where
  limit_eq : c.limit = a.limit
  cutter_eq : c.cutter = a.cutter
  kept_eq : c.kept = a.received.take a.limit
  exceeded_eq : c.exceeded = decide (a.limit < a.received.length)
  /-- What was kept whole makes the same parts. -/
  whole : a.received.length ≤ a.limit → c.parts = a.parts ∧ c.announcement = a.announcement
  /-- Between messages no line is pending, whatever was refused before. -/
  settled : a.cutter.awaited = .line → c.announcement = none

namespace Clips

variable {a : Assembler} {c : Clipper} {f : Fragment} {cutter : Cutter}

theorem start (limit : Nat) : Clips (.idle limit {}) { limit } where
  limit_eq := rfl
  cutter_eq := rfl
  kept_eq := List.take_nil.symm
  exceeded_eq := rfl
  whole _ := ⟨rfl, rfl⟩
  settled _ := rfl

theorem feed (h : Clips a c) (bytes : Bytes) : Clips (a.feed bytes) (c.feed bytes) where
  limit_eq := h.limit_eq
  cutter_eq := congrArg (·.feed bytes) h.cutter_eq
  kept_eq := h.kept_eq
  exceeded_eq := h.exceeded_eq
  whole := h.whole
  settled := h.settled

theorem complete (h : Clips a c) : c.complete = a.complete := by
  unfold Clipper.complete Assembler.complete
  rw [h.exceeded_eq, h.kept_eq]
  by_cases hlen : a.received.length ≤ a.limit
  · rw [if_pos hlen, if_neg (by simpa using hlen), (h.whole hlen).1, List.take_of_length_le hlen]
  · rw [if_neg hlen, if_pos (by simpa using hlen), List.length_take, Nat.min_eq_left (by omega)]

/-- What a clipper keeps of more octets is what it would keep of all of them. -/
theorem take_take_append (octets more : Bytes) (limit : Nat) :
    (octets.take limit ++ more).take limit = (octets ++ more).take limit := by
  rw [List.take_append, List.take_append, List.take_take, Nat.min_self, List.length_take]
  rcases Nat.le_total limit octets.length with hle | hle
  · rw [Nat.min_eq_left hle, Nat.sub_self, Nat.sub_eq_zero_of_le hle]
  · rw [Nat.min_eq_right hle]

theorem seen_eq (h : Clips a c) {octets : Bytes}
    (hlen : (a.received ++ octets).length ≤ a.limit) : c.seen octets = octets := by
  have hr : a.received.length ≤ a.limit := by
    rw [List.length_append] at hlen
    omega
  rw [Clipper.seen, h.kept_eq, h.limit_eq, List.take_of_length_le hr, List.take_of_length_le hlen,
    List.drop_left]

theorem keep (h : Clips a c) (octets : Bytes) :
    Clips { a with received := a.received ++ octets } (c.keep octets) where
  limit_eq := h.limit_eq
  cutter_eq := h.cutter_eq
  kept_eq := by simp only [Clipper.keep, h.kept_eq, h.limit_eq, take_take_append]
  exceeded_eq := by
    simp only [Clipper.keep, h.exceeded_eq, h.kept_eq, h.limit_eq, ← Bool.decide_or,
      List.length_append, List.length_take, decide_eq_decide]
    omega
  whole hlen := h.whole (by simp only [List.length_append] at hlen; omega)
  settled := h.settled

theorem add (h : Clips a c) (hn : a.cutter.next = (some f, cutter)) :
    ∃ a' c' last, ({ a with cutter : Assembler }).add f = (a', last)
      ∧ ({ c with cutter : Clipper }).add f = (c', last) ∧ Clips a' c'
      ∧ (last = true → a'.cutter.awaited = .line) := by
  have hkeep := h.keep f.octets
  have hseen : (a.received ++ f.octets).length ≤ a.limit → c.seen f.octets = f.octets := h.seen_eq
  rcases f with octets | octets
  · have hnone := h.settled (Cutter.awaited_of_line hn)
    have htext (hlen : (a.received ++ octets).length ≤ a.limit) :
        (c.seen octets).take ((c.seen octets).length - endingSize octets) = chomp octets :=
      hseen hlen ▸ take_endingSize octets
    by_cases hl : cutter.awaited = .line
    · exact ⟨_, _, true, if_pos hl, if_pos hl,
        ⟨hkeep.limit_eq, rfl, hkeep.kept_eq, hkeep.exceeded_eq,
          fun hlen => ⟨congrArg₂ (fun parts text => parts ++ [Part.line text])
            (hkeep.whole hlen).1 (htext hlen), (hkeep.whole hlen).2⟩,
          fun _ => hnone⟩,
        fun _ => hl⟩
    · exact ⟨_, _, false, if_neg hl, if_neg hl,
        ⟨hkeep.limit_eq, rfl, hkeep.kept_eq, hkeep.exceeded_eq,
          fun hlen => ⟨(hkeep.whole hlen).1, congrArg some (htext hlen)⟩,
          fun hl' => absurd hl' hl⟩,
        nofun⟩
  · refine ⟨_, _, false, rfl, rfl,
      ⟨hkeep.limit_eq, rfl, hkeep.kept_eq, hkeep.exceeded_eq, fun hlen => ⟨?_, rfl⟩, fun _ => rfl⟩,
      nofun⟩
    obtain ⟨hparts, hannouncement⟩ := hkeep.whole hlen
    have hliteral := congrArg₂ (fun line literal => [Part.literal (Option.getD line []) literal])
      hannouncement (hseen hlen)
    exact congrArg₂ (· ++ ·) hparts hliteral

/-- What is given is the same, and the clipper is left where the assembler is. -/
theorem next {a : Assembler} {c : Clipper} (h : Clips a c) :
    c.next.1 = a.next.1 ∧ Clips a.next.2 c.next.2 := by
  fun_induction Clipper.next c generalizing a with
  | case1 c cutter hc =>
    rw [h.cutter_eq] at hc
    rw [Assembler.next_of_none hc]
    exact ⟨rfl, h.limit_eq, rfl, h.kept_eq, h.exceeded_eq, h.whole,
      fun hl => h.settled ((Cutter.next_none hc).2 ▸ hl)⟩
  | case2 c fragment cutter hc c₁ hadd =>
    rw [h.cutter_eq] at hc
    obtain ⟨a', c', last, ha, hc', h', hlast⟩ := h.add hc
    obtain ⟨rfl, rfl⟩ := Prod.mk.inj (hadd.symm.trans hc')
    rw [Assembler.next_of_last hc ha]
    refine ⟨congrArg some h'.complete, h'.limit_eq, h'.cutter_eq, List.take_nil.symm, rfl,
      fun _ => ⟨rfl, h'.settled (hlast rfl)⟩, h'.settled⟩
  | case3 c fragment cutter hc c₁ hadd ih =>
    rw [h.cutter_eq] at hc
    obtain ⟨a', c', last, ha, hc', h', -⟩ := h.add hc
    obtain ⟨rfl, rfl⟩ := Prod.mk.inj (hadd.symm.trans hc')
    rw [Assembler.next_of_more hc ha]
    exact ih h'

end Clips

/-- What is answered each time something is asked, in a schedule. -/
def Move.answers {α : Type} (feed : α → Bytes → α)
    (next : α → Option (Except Malformation Message) × α) :
    List Move → α → List (Option (Except Malformation Message))
  | [], _ => []
  | .feed octets :: moves, a => answers feed next moves (feed a octets)
  | .ask :: moves, a => (next a).1 :: answers feed next moves (next a).2

/-- Whatever the schedule, a clipper answers as an assembler does that keeps all. -/
theorem Clips.answers_eq : ∀ (moves : List Move) {a : Assembler} {c : Clipper}, Clips a c →
    Move.answers Clipper.feed Clipper.next moves c
      = Move.answers Assembler.feed Assembler.next moves a
  | [], _, _, _ => rfl
  | .feed octets :: moves, _, _, h => answers_eq moves (h.feed octets)
  | .ask :: moves, _, _, h => congrArg₂ List.cons h.next.1 (answers_eq moves h.next.2)

namespace Assembler

theorem run_alone (limit : Nat) (u : Utterance) :
    ((idle limit {}).run [.feed u.octets]).1 = [u.result limit] := by
  have hfed : Move.fed [.feed u.octets] = [u].flatMap Utterance.octets ++ [] := by
    simp [Move.fed]
  rw [run_eq_results, hfed]
  exact congrArg Prod.fst (results_of_utterances limit isIncomplete_nil [u])

/-- A stream of messages and an incomplete rest gives, in any portions, one result for each message,
the one it gives alone: the refusal that names the limit exactly when its octets are more. With the
refused messages left out the same messages are given, and what comes later is framed alike. An
assembler that keeps no more octets than the limit gives the same each time it is asked. -/
theorem run_refusing (limit : Nat) (us : List Utterance) {rest : Bytes} (hrest : IsIncomplete rest)
    {moves : List Move} (hfed : Move.fed moves = us.flatMap Utterance.octets ++ rest) :
    let given := (idle limit {}).run moves
    (given.1 = us.map fun u =>
        if limit < u.octets.length then .error (.oversized limit) else .ok ⟨u.parts, u.octets⟩)
      ∧ given.1 = us.flatMap (fun u => ((idle limit {}).run [.feed u.octets]).1)
      ∧ (∀ moves', Move.fed moves'
            = (us.filter (·.octets.length ≤ limit)).flatMap Utterance.octets ++ rest →
          (idle limit {}).run moves' = (given.1.filter (·.isOk), given.2))
      ∧ ∀ moves', Move.answers Clipper.feed Clipper.next moves' { limit }
          = Move.answers feed next moves' (idle limit {}) := by
  have hresults : ∀ (vs : List Utterance) (moves' : List Move),
      Move.fed moves' = vs.flatMap Utterance.octets ++ rest →
      (idle limit {}).run moves' = (vs.map (Utterance.result limit),
        (idle limit { unread := rest }).next.2) := fun vs moves' h => by
    rw [run_eq_results, h]
    exact results_of_utterances limit hrest vs
  intro given
  have hgiven : given = _ := hresults us moves hfed
  refine ⟨?_, ?_, fun moves' h => ?_, fun moves' => (Clips.start limit).answers_eq moves'⟩
  · rw [hgiven]
    refine List.map_congr_left fun u _ => ?_
    rcases Nat.lt_or_ge limit u.octets.length with hlt | hge
    · rw [Utterance.result, if_neg (Nat.not_le.2 hlt), if_pos hlt]
    · rw [Utterance.result, if_pos hge, if_neg (Nat.not_lt.2 hge), Utterance.message]
  · rw [hgiven, List.map_eq_flatMap]
    simp only [run_alone]
  · have hok : (Except.isOk ∘ Utterance.result limit)
        = fun u => decide (u.octets.length ≤ limit) := funext fun u => u.isOk_result limit
    rw [hresults _ moves' h, hgiven, List.filter_map, hok]

/-- A message with an ending of its own, and nothing announced. -/
def brief : Utterance where
  literals := []
  last := ⟨utf8 "* 5 EXISTS", .crlf, by decide, by decide⟩
  plain := Announcing.not_announces (by rfl : _ = .other) (by simp)

/-- The limit falls inside the first literal of a message with two, which is refused; the next
message is framed, and half a literal gives nothing. -/
theorem run_refusing_brief :
    let rest := utf8 "* 2 FETCH \x7b5\x7d\r\nab"
    let stream := nested.octets ++ brief.octets ++ rest
    let moves : List Move := [.feed (stream.take 27), .ask, .ask, .feed (stream.drop 27)]
    IsIncomplete rest ∧ Move.fed moves = [nested, brief].flatMap Utterance.octets ++ rest
      ∧ ((idle 30 {}).run moves).1 = [.error (.oversized 30),
        .ok ⟨[.line (utf8 "* 5 EXISTS")], utf8 "* 5 EXISTS\r\n"⟩] := by
  intro rest stream moves
  have hrest : IsIncomplete rest := (@next_incomplete_iff 30 rest).1 (by decide +kernel)
  have hfed : Move.fed moves = [nested, brief].flatMap Utterance.octets ++ rest := by
    decide +kernel
  refine ⟨hrest, hfed, ?_⟩
  have habove : 30 < nested.octets.length := by decide
  have hbrief : brief.octets = utf8 "* 5 EXISTS\r\n" := by decide
  have hbelow : ¬ 30 < (utf8 "* 5 EXISTS\r\n").length := by decide
  rw [(run_refusing 30 [nested, brief] hrest hfed).1, List.map_cons, if_pos habove]
  simp only [List.map_cons, List.map_nil, hbrief, if_neg hbelow]
  rfl

end Assembler

end ImapProbe.Wire
