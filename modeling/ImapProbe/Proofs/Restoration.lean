import ImapProbe.Proofs.Conservation
import ImapProbe.Proofs.Schedule
import ImapProbe.Proofs.Utterance

/-!
# Putting a stream together again

Any octets begin with an utterance if an assembler between messages gives something on them
(`exists_utterance`). So a stream is nothing but utterances in a row and the beginning of one, what
is given is the result of each of them, and the parts of a message with their line endings put back
are the octets it was made of (`run_restored`).
-/

namespace ImapProbe.Wire

def Ending.octets (e : Ending) : Bytes := e.carriage ++ [Bytes.lf]

/-- Parts with line endings put back behind their lines. -/
def restored : List Part → List Ending → Bytes
  | .line text :: parts, e :: endings => text ++ e.octets ++ restored parts endings
  | .literal text octets :: parts, e :: endings =>
    text ++ e.octets ++ octets ++ restored parts endings
  | _, _ => []

theorem Line.exists_of_body {body : Bytes} (h : Bytes.lf ∉ body) : ∃ l : Line, l.body = body := by
  by_cases hcr : body.getLast? = some Bytes.cr
  · obtain ⟨text, rfl⟩ := List.getLast?_eq_some_iff.1 hcr
    exact ⟨⟨text, .crlf, fun hm => h (List.mem_append_left _ hm), nofun⟩, rfl⟩
  · exact ⟨⟨body, .lf, h, fun _ => hcr⟩, List.append_nil body⟩

namespace Utterance

/-- How its lines end. -/
def endings (u : Utterance) : List Ending := u.literals.map (·.line.ending) ++ [u.last.ending]

theorem restored_parts (u : Utterance) : restored u.parts u.endings = u.octets := by
  obtain ⟨literals, last, h⟩ := u
  induction literals with
  | nil => simp [parts, endings, restored, octets, Line.octets, Line.body, Ending.octets]
  | cons l literals ih =>
    simp only [parts, endings] at ih
    simp [endings, restored, parts, Line.octets, Line.body, Ending.octets, ih]

theorem length_octets_pos (u : Utterance) : 0 < u.octets.length := by
  simp only [octets, Line.octets, List.length_append, List.length_singleton]
  omega

end Utterance

namespace Cutter

/-- A cutter between fragments gives a line that the octets begin with. -/
theorem line_of_next {stream : Bytes} {f : Fragment} {c : Cutter}
    (h : ({ unread := stream } : Cutter).next = (some f, c)) :
    ∃ (l : Line) (rest : Bytes), stream = l.octets ++ rest ∧ f = .line l.octets
      ∧ c = ⟨afterLine l.body, [], rest⟩ := by
  simp only [next, List.nil_append] at h
  split at h
  · simp at h
  · rename_i b rest hd
    have hb : b = Bytes.lf := by
      have := List.head?_dropWhile_not (· != Bytes.lf) stream
      simpa [hd] using this
    have hbody : Bytes.lf ∉ stream.takeWhile (· != Bytes.lf) := fun hm => by
      simpa using List.all_eq_true.1 (List.all_takeWhile (p := (· != Bytes.lf)) (l := stream)) _ hm
    obtain ⟨l, hl⟩ := Line.exists_of_body hbody
    have hs := List.takeWhile_append_dropWhile (p := (· != Bytes.lf)) (l := stream)
    rw [hd, hb, ← hl] at hs
    simp only [Prod.mk.injEq, Option.some.injEq] at h
    obtain ⟨rfl, rfl⟩ := h
    exact ⟨l, rest, by rw [l.octets_append, hs], by rw [hb, ← hl]; rfl, by rw [← hl]⟩

/-- A cutter that awaits a literal gives as many octets as were announced. -/
theorem literal_of_next {n : Nat} {stream : Bytes} {f : Fragment} {c : Cutter}
    (h : (⟨.literal n, [], stream⟩ : Cutter).next = (some f, c)) :
    ∃ octets rest, stream = octets ++ rest ∧ octets.length = n ∧ f = .literal octets
      ∧ c = { unread := rest } := by
  simp only [next, List.length_nil, Nat.sub_zero, List.nil_append] at h
  split at h
  · simp at h
  · rename_i hlen
    simp only [Prod.mk.injEq, Option.some.injEq] at h
    obtain ⟨rfl, rfl⟩ := h
    exact ⟨stream.take n, stream.drop n, (List.take_append_drop n stream).symm,
      by rw [List.length_take]; omega, rfl, rfl⟩

/-- What comes after a line is settled by what the line announces. -/
theorem afterLine_cases (l : Line) :
    (afterLine l.body = .line ∧ ∀ n, ¬ Announces l.text n)
      ∨ ∃ n, afterLine l.body = .literal n ∧ Announces l.text n := by
  rcases ha : announced? l.body with _ | n
  · exact .inl ⟨by rw [afterLine, ha], fun n hn => by simp [(l.announced_body n).2 hn] at ha⟩
  · exact .inr ⟨n, by rw [afterLine, ha], (l.announced_body n).1 ha⟩

end Cutter

namespace Assembler

/-- Octets on which something is given begin with an utterance, whatever lines were assembled
before. -/
theorem exists_utterance :
    ∀ (stream : Bytes) {a a' : Assembler} {r : Except Malformation Message},
      a.cutter = { unread := stream } → a.next = (some r, a') →
      ∃ (u : Utterance) (rest : Bytes), stream = u.octets ++ rest
  | stream, a, a', r, hc, h => by
    rcases hn : a.cutter.next with ⟨_ | f, c⟩
    · simp [next_of_none hn] at h
    obtain ⟨l, rest, hs, rfl, rfl⟩ := Cutter.line_of_next (hc ▸ hn)
    rcases Cutter.afterLine_cases l with ⟨ha, hplain⟩ | ⟨n, ha, hann⟩
    · exact ⟨⟨[], l, hplain⟩, rest, by simp [Utterance.octets, hs]⟩
    obtain ⟨a₁, ha₁, hc₁⟩ : ∃ a₁,
        ({ a with cutter := ⟨Cutter.afterLine l.body, [], rest⟩ } : Assembler).add (.line l.octets)
          = (a₁, false) ∧ a₁.cutter = ⟨.literal n, [], rest⟩ :=
      ⟨_, by simp only [add, ha]; rfl, rfl⟩
    rw [next_of_more hn ha₁] at h
    rcases hn₁ : a₁.cutter.next with ⟨_ | f, c⟩
    · simp [next_of_none hn₁] at h
    obtain ⟨octets, rest₁, hr, rfl, rfl, rfl⟩ := Cutter.literal_of_next (hc₁ ▸ hn₁)
    rw [next_of_more hn₁ rfl] at h
    have hlt : rest₁.length < stream.length := by
      rw [hs, hr, Line.octets]
      simp only [List.length_append, List.length_singleton]
      omega
    obtain ⟨u, rest₂, hu⟩ := exists_utterance rest₁ rfl h
    exact ⟨⟨⟨l, octets, hann⟩ :: u.literals, u.last, u.plain⟩, rest₂,
      by simp [Utterance.octets, hs, hr, hu]⟩
termination_by stream => stream.length

/-- A stream is utterances in a row and octets on which nothing is given. -/
theorem exists_utterances (limit : Nat) (stream : Bytes) :
    ∃ (us : List Utterance) (rest : Bytes), stream = us.flatMap Utterance.octets ++ rest
      ∧ (idle limit { unread := stream }).results.1 = us.map (Utterance.result limit)
      ∧ (idle limit { unread := stream }).results.2.pending = rest := by
  rcases h : (idle limit { unread := stream }).next with ⟨_ | r, a⟩
  · refine ⟨[], stream, rfl, ?_, ?_⟩ <;> rw [results_of_next_none h]
    · rfl
    · rw [(pending_next_none h).2]
      rfl
  · obtain ⟨u, rest, rfl⟩ := exists_utterance stream rfl h
    have := u.length_octets_pos
    obtain ⟨us, rest', hrest, hres, hpend⟩ := exists_utterances limit rest
    have hu := results_of_next (next_utterance limit u rest)
    refine ⟨u :: us, rest', by rw [List.flatMap_cons, List.append_assoc, ← hrest], ?_, ?_⟩ <;>
      rw [hu]
    · rw [hres, List.map_cons]
    · exact hpend
termination_by stream.length
decreasing_by
  subst_vars
  rw [List.length_append]
  omega

/-- The octets of an utterance give its parts and nothing else, and what follows them is left for
the next message. In the other direction, whatever the octets and the schedule: what is given are
messages and refusals of utterances that stand in the stream one after another, each put together
again from its parts and line endings, and all that follows them is held. -/
theorem run_restored (limit : Nat) :
    (∀ (u : Utterance) (rest : Bytes), (restored u.parts u.endings).length ≤ limit →
      (idle limit { unread := restored u.parts u.endings ++ rest }).next
        = (some (.ok ⟨u.parts, restored u.parts u.endings⟩), idle limit { unread := rest }))
      ∧ ∀ moves : List Move, ∃ (us : List Utterance) (rest : Bytes),
        Move.fed moves = (us.flatMap fun u => restored u.parts u.endings) ++ rest
          ∧ ((idle limit {}).run moves).1 = us.map (fun u =>
            if (restored u.parts u.endings).length ≤ limit
            then .ok ⟨u.parts, restored u.parts u.endings⟩ else .error (.oversized limit))
          ∧ ((idle limit {}).run moves).2.pending = rest := by
  refine ⟨fun u rest hlen => ?_, fun moves => ?_⟩
  · rw [u.restored_parts] at hlen ⊢
    rw [next_utterance, Utterance.result, if_pos hlen]
    rfl
  · simp only [Utterance.restored_parts, run_eq_results]
    exact exists_utterances limit (Move.fed moves)

/-- A literal that looks like the end of a command, an empty one, and lines that end in either
way. -/
def nested : Utterance where
  literals := [
    ⟨⟨utf8 "* 1 FETCH (BODY[TEXT] \x7b12\x7d", .lf, by decide, by decide⟩,
      utf8 ")\r\nA1 OK \x7b9\x7d", Announcing.foldl_closed.mp (by rfl)⟩,
    ⟨⟨utf8 " BODY[HEADER] \x7b0+\x7d", .crlf, by decide, by decide⟩, [],
      Announcing.foldl_closed.mp (by rfl)⟩]
  last := ⟨utf8 " UID 7)", .lf, by decide, by decide⟩
  plain := Announcing.not_announces (by rfl : _ = .other) (by simp)

theorem run_restored_nested :
    let octets := utf8 "* 1 FETCH (BODY[TEXT] \x7b12\x7d\n)\r\nA1 OK \x7b9\x7d"
      ++ utf8 " BODY[HEADER] \x7b0+\x7d\r\n UID 7)\n"
    (restored nested.parts nested.endings).length ≤ 80
      ∧ (idle 80 { unread := octets ++ utf8 "* 2 F" }).next
        = (some (.ok ⟨[.literal (utf8 "* 1 FETCH (BODY[TEXT] \x7b12\x7d")
              (utf8 ")\r\nA1 OK \x7b9\x7d"),
            .literal (utf8 " BODY[HEADER] \x7b0+\x7d") [], .line (utf8 " UID 7)")], octets⟩),
          idle 80 { unread := utf8 "* 2 F" }) := by
  have hlen : (restored nested.parts nested.endings).length ≤ 80 := by decide
  exact ⟨hlen, (run_restored 80).1 nested (utf8 "* 2 F") hlen⟩

end Assembler

end ImapProbe.Wire
