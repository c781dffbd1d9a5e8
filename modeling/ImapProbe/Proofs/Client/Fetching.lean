import ImapProbe.Proofs.Client.Sending
import ImapProbe.Proofs.Data

/-!
# Artifacts of what was fetched

What a client makes of the answer to a FETCH depends on the utterances of the server alone: on
those that tell of FETCH, and on their octets (`artifact_fetched`).
-/

namespace ImapProbe

open Wire

theorem folded_flatMap {α : Type} (f : α → List Part) (xs : List α) :
    folded (xs.flatMap f) = xs.flatMap fun x => folded (f x) :=
  List.flatMap_assoc

namespace Client

section Reading

variable {u : Utterance}

theorem parts_datum {said : List Utterance} (h : ∀ u ∈ said, u.IsUntagged)
    (completion : Completion) :
    folded (Response.parts ⟨completion, said.map Utterance.datum⟩ "FETCH")
      = (said.filter (·.Tells "FETCH")).flatMap fun u => u.folded.drop 2 := by
  have hf : (said.map Utterance.datum).filter (fun d => capitals d.name == capitals "FETCH")
      = (said.filter (·.Tells "FETCH")).map Utterance.datum := by
    rw [List.filter_map]
    congr 1
    refine List.filter_congr fun u hu => ?_
    rw [Function.comp, Utterance.capitals_name_datum, Bool.eq_iff_iff, beq_iff_eq,
      decide_eq_true_iff]
    exact Utterance.name_datum_fetch (h u hu)
  rw [Response.parts, hf, List.flatMap_map, folded_flatMap]
  exact congrArg List.flatten (List.map_congr_left fun u hu =>
    Utterance.folded_datum (h u (List.mem_filter.mp hu).1))

end Reading

/-- A FETCH is one line. -/
theorem fetch_written {messages items : String} {pieces : List Command.Piece}
    (h : (Command.fetch messages items).pieces = .ok pieces) (tag : String) :
    ∃ octets, octets ≠ [] ∧ Command.written tag pieces = [.line octets] := by
  simp only [Command.pieces] at h
  rcases hi : Item.ofList items with e | items' <;> rw [hi] at h
  · simp [bind, Except.bind] at h
  · rcases hs : SequenceSet.read? messages with _ | set <;> rw [hs] at h <;>
      simp [bind, Except.bind, pure, Except.pure, throw, throwThe, MonadExceptOf.throw] at h
    subst h
    refine ⟨_, ?_, rfl⟩
    simp [Bytes.crlf]

theorem flush_took {c : Client} (h : c.connection.accepted = c.connection.queued) :
    ∃ c', c.flush = (.ok (), c') ∧ c'.assembler = c.assembler
      ∧ c'.connection.script = c.connection.script := by
  refine ⟨c.flush.2, Prod.ext ?_ rfl, rfl, rfl⟩
  simp [flush, Connection.flush, h]

/-- A line is flushed whole when the peer takes as many octets. -/
theorem accepted_line {c : Client} {octets : Bytes} (hc : Settled c) (hne : octets ≠ [])
    (hroom : ∀ b, c.connection.budget = some b → octets.length ≤ b) :
    (c.write octets).connection.accepted = (c.write octets).connection.queued := by
  refine List.take_of_length_le ?_
  rcases hb : c.connection.budget with _ | b
  · simp [write, Connection.write, hb]
  · have hle := hroom b hb
    have hpos := List.length_pos_iff.mpr hne
    rcases hc with hq | hz
    · simpa [write, Connection.write, hb, hq] using hle
    · rw [hb, Option.some.injEq] at hz
      omega

/-- What a client makes of the answer to a line. -/
theorem carryOut_hears {c : Client} {octets : Bytes} {tag : String} {said : List Utterance}
    {last : Utterance} {completion : Completion} {chunks : List Bytes} {rest : List Event}
    {stream : Bytes}
    (ha : (c.write octets).connection.accepted = (c.write octets).connection.queued)
    (h : Ahead c chunks rest (said.flatMap Utterance.octets ++ (last.octets ++ stream)))
    (hsaid : ∀ u ∈ said, u.octets.length ≤ greatestMessage ∧ u.IsUntagged ∧ ¬ u.Tells "BYE")
    (hlimit : last.octets.length ≤ greatestMessage)
    (hlast : last.message.read = .ok (.completed tag completion)) :
    (carryOut tag false [.line octets] [] c).1
      = .ok ⟨completion, said.map Utterance.datum⟩ := by
  obtain ⟨c₁, hf, hassem, hscript⟩ := flush_took ha
  have h₁ : Ahead c₁ chunks rest _ := ⟨hscript.trans h.script, hassem ▸ h.next⟩
  obtain ⟨chunks₂, c₂, hg, h₂⟩ := gather_hears false Utterance.datum said []
    (fun u hu => by
      obtain ⟨hl, ht, hbye⟩ := hsaid u hu
      exact ⟨hl, Utterance.read_message ht,
        fun hb => hbye ((Utterance.name_datum_bye ht).mp hb.1)⟩) h₁
  obtain ⟨chunks₃, c₃, hr, -⟩ := nextReading_hears hlimit hlast h₂
  rw [carryOut, carryOut, hf]
  simp only [hg, gather_of_completed hr, List.nil_append, settle, if_true]

/-- A client between two commands has the utterances before it that it has not taken. -/
theorem Reached.ahead {k : Connection} {c : Client} (hc : Reached k c) {earlier : List Utterance}
    {chunks : List Bytes} {rest : List Event} {stream : Bytes}
    (hscript : c.connection.script = chunks.map .chunk ++ rest)
    (hstream : Journal.arrived c.journal ++ chunks.flatten
      = earlier.flatMap Utterance.octets ++ stream)
    (hlen : (Journal.taken c.journal).length = earlier.length) : Ahead c chunks rest stream := by
  have hg : Assembler.Gives (Assembler.idle greatestMessage
      { unread := Journal.arrived c.journal ++ chunks.flatten }) _ _ := hc.did.frames chunks.flatten
  rw [hstream] at hg
  exact ⟨hscript, (Assembler.gives_utterances hg hlen).2⟩

section Artifacts

variable {script : List Event} {timeout : Duration} {budget : Option Nat} {c : Client}
  {k : Connection}

/-- The utterances that answer a FETCH make its artifact. -/
theorem artifact_fetched (hg : greet { script, timeout, budget } = (.ok c, k))
    (commands : List Command) {t : Turn} (hs : t ∈ turns commands c) {messages items : String}
    (hcommand : t.command = .fetch messages items) (hform : t.command.pieces.isOk)
    (hroom : ∀ b, t.before.connection.budget = some b →
      (t.fragments.map Fragment.octets).flatten.length ≤ b)
    (earlier said : List Utterance) (last : Utterance) {completion : Completion}
    {chunks : List Bytes} {rest : List Event} {stream : Bytes}
    (hscript : t.before.connection.script = chunks.map .chunk ++ rest)
    (hstream : Journal.arrived t.before.journal ++ chunks.flatten
      = (earlier ++ said ++ [last]).flatMap Utterance.octets ++ stream)
    (hearlier : (Journal.taken t.before.journal).length = earlier.length)
    (hlimit : ∀ u ∈ said ++ [last], u.octets.length ≤ greatestMessage)
    (hsaid : ∀ u ∈ said, u.IsUntagged ∧ ¬ u.Tells "BYE")
    (hlast : last.message.read = .ok (.completed t.tag completion)) :
    ∃ r, t.answer = .ok r ∧ r.completion = completion
      ∧ artifact (r.parts "FETCH")
        = ((said.filter (·.Tells "FETCH")).flatMap fun u => u.folded.drop 2).dropWhile (· != 40)
      ∧ ∀ u, said.filter (·.Tells "FETCH") = [u] → u.EndsInCrlf →
        artifact (r.parts "FETCH") ++ Bytes.crlf <:+ u.octets := by
  obtain ⟨hc, -⟩ := greet_reached hg rfl
  obtain ⟨hall, -⟩ := turns_reached commands c hc
  obtain ⟨hb, hcall⟩ := hall t hs
  rcases hp : t.command.pieces with e | pieces
  · simp [hp, Except.isOk, Except.toBool] at hform
  obtain ⟨octets, hne, hw⟩ := fetch_written (hcommand ▸ hp) t.tag
  have hfrag : t.fragments = [.line octets] := by simp only [Turn.fragments, hp, hw]
  rw [hfrag, show ([Fragment.line octets].map Fragment.octets).flatten = octets from
    List.append_nil octets] at hroom
  have hcarry : carryOut t.tag false [.line octets] []
      { t.before with issued := t.before.issued + 1 } = (t.answer, t.after) := by
    rw [← hcall, call, hp, ← hw, hcommand]
    rfl
  have hstream' : Journal.arrived t.before.journal ++ chunks.flatten
      = earlier.flatMap Utterance.octets
        ++ (said.flatMap Utterance.octets ++ (last.octets ++ stream)) := by
    simp [hstream]
  have hahead := hb.ahead hscript hstream' hearlier
  have hanswer := carryOut_hears (c := { t.before with issued := t.before.issued + 1 })
    (accepted_line hb.settled hne hroom) ⟨hahead.script, hahead.next⟩
    (fun u hu => ⟨hlimit u (List.mem_append_left _ hu), hsaid u hu⟩)
    (hlimit last (List.mem_append_right _ (List.mem_singleton_self _))) hlast
  rw [hcarry] at hanswer
  refine ⟨_, hanswer, rfl, ?_, fun u hu hcrlf => ?_⟩
  · rw [artifact, parts_datum fun u hu => (hsaid u hu).1]
  · rw [artifact, parts_datum fun u hu => (hsaid u hu).1, hu, Utterance.octets_of_endsInCrlf hcrlf,
      List.flatMap_singleton]
    obtain ⟨before, hb⟩ : (u.folded.drop 2).dropWhile (· != 40) <:+ u.folded :=
      (List.dropWhile_suffix _).trans (List.drop_suffix 2 _)
    exact ⟨before, by rw [← List.append_assoc, hb]⟩

/-- The answer of the sample run: a literal behind a line that ends in a bare line feed. -/
def telling : Utterance where
  literals := [⟨⟨utf8 "* 1 FETCH (BODY \x7b3\x7d", .lf, by decide, by decide⟩, utf8 "(\r\n",
    Announcing.foldl_closed.mp (by rfl)⟩]
  last := ⟨utf8 ")", .crlf, by decide, by decide⟩
  plain := Announcing.not_announces (by rfl : _ = .other) (by simp)

def done : Utterance where
  literals := []
  last := ⟨utf8 "A0001 OK done", .crlf, by decide, by decide⟩
  plain := Announcing.not_announces (by rfl : _ = .other) (by simp)

/-- The literal is folded into the artifact with CRLF before it. -/
theorem artifact_fetched_telling :
    let script : List Event := [.chunk (hello.octets ++ utf8 "* 1 FETCH (BODY \x7b3\x7d\n("),
      .chunk (utf8 "\r\n)\r\nA0001 OK done\r\n")]
    ∃ c k, greet { script, timeout := ⟨1⟩ } = (.ok c, k)
      ∧ ∃ t ∈ turns [.fetch "1" "BODY"] c, ∃ r, t.answer = .ok r
        ∧ artifact (r.parts "FETCH") = utf8 "(BODY \x7b3\x7d\r\n(\r\n)" := by
  intro script
  obtain ⟨chunks, c, k, hg, ha⟩ : ∃ chunks c k, greet { script, timeout := ⟨1⟩ } = (.ok c, k)
      ∧ Ahead c chunks [] (telling.octets ++ done.octets) :=
    greet_hello [hello.octets ++ utf8 "* 1 FETCH (BODY \x7b3\x7d\n(",
      utf8 "\r\n)\r\nA0001 OK done\r\n"] rfl (by decide)
  obtain ⟨hc, hout, hissued, greeting, htaken⟩ := greet_reached hg rfl
  have hform : (Command.fetch "1" "BODY").pieces.isOk := by decide
  rcases hs : c.call (.fetch "1" "BODY") with ⟨answer, c'⟩
  let t : Turn := ⟨.fetch "1" "BODY", c, answer, c'⟩
  have hmem : t ∈ turns [.fetch "1" "BODY"] c := by
    rw [turns, hs]
    exact List.mem_singleton_self _
  have hstream : Journal.arrived c.journal ++ chunks.flatten
      = ([hello] ++ [telling] ++ [done]).flatMap Utterance.octets ++ [] := by
    have hscript : arriving script = _ := hc.did.script
    rw [ha.script, arriving_chunks, arriving, List.append_nil] at hscript
    rw [← hscript]
    decide
  have hroom : ∀ b, t.before.connection.budget = some b →
      (t.fragments.map Fragment.octets).flatten.length ≤ b := fun b hb => by
    rw [show t.before.connection.budget = none from hout.2] at hb
    simp at hb
  have htold : telling.IsUntagged := by
    unfold Utterance.IsUntagged
    decide
  have hbye : ¬ telling.Tells "BYE" := by
    rw [← Utterance.name_datum_bye htold]
    decide
  have hlast : done.message.read = .ok (.completed t.tag ⟨.ok, "done"⟩) := by
    rw [show t.tag = tag 0 from congrArg tag hissued]
    rfl
  obtain ⟨r, hr, -, hart, -⟩ := artifact_fetched hg _ hmem rfl hform hroom [hello] [telling] done
    ha.script hstream (by rw [htaken]; rfl) (by decide) (by simp [htold, hbye]) hlast
  refine ⟨c, k, hg, t, hmem, r, hr, hart.trans ?_⟩
  decide

end Artifacts

end Client

end ImapProbe
