import ImapProbe.Client.Network
import ImapProbe.Proofs.Client.Fetching
import ImapProbe.Proofs.Client.Interjection
import ImapProbe.Proofs.Session.Tally
import Mathlib.Data.List.Nodup

/-!
# A visit in which a server says more than it was asked

Two clients of which the second hears one message more make the same visit (`converse_shadows`),
and so data that come unasked, under another name than FETCH and BYE, change nothing of a visit,
wherever between two messages behind the greeting they stand (`visit_undisturbed`).
-/

namespace ImapProbe

open Wire

namespace Client

variable {x : Message} {d : ServerData}

/-- Two clients that are given the same commands; the answers are those of the first. -/
def paired (haside : Aside x d) : Responder { cs : Client × Client // Shadows x cs.1 cs.2 } where
  call command cs := ((cs.1.1.call command).1,
    ⟨((cs.1.1.call command).2, (cs.1.2.call command).2), (cs.2.call haside command).2⟩)

theorem converse_shadows (haside : Aside x d) (p : Profile) (corpus : List Path)
    (files : FileTree) {c c' : Client} (h : Shadows x c c') :
    (converse responder p corpus ⟨c', files⟩).1 = (converse responder p corpus ⟨c, files⟩).1
      ∧ (converse responder p corpus ⟨c', files⟩).2.files
        = (converse responder p corpus ⟨c, files⟩).2.files
      ∧ Shadows x (converse responder p corpus ⟨c, files⟩).2.server
        (converse responder p corpus ⟨c', files⟩).2.server := by
  have hfirst : responder.Follows (·.1.1) (paired haside) := fun _ _ => rfl
  have hsecond : responder.Resembles (·.1.2) (paired haside) := fun command cs =>
    ⟨_, _, _, rfl, rfl, (cs.2.call haside command).1⟩
  have hf := converse_resembling hfirst.resembles p corpus ⟨⟨(c, c'), h⟩, files⟩
  have hs := converse_resembling hsecond p corpus ⟨⟨(c, c'), h⟩, files⟩
  simp only [Desk.map] at hf hs
  rw [hf, hs]
  exact ⟨rfl, rfl, (converse (paired haside) p corpus ⟨⟨(c, c'), h⟩, files⟩).2.server.2⟩

theorem greet_eq (k : Connection) :
    greet k = (((start k).nextMessage.1.bind (·.welcome)).map fun _ => (start k).nextMessage.2,
      (start k).nextMessage.2.connection) := by
  unfold greet
  rw [← start]
  rcases (start k).nextMessage with ⟨e | m, c⟩ <;> rfl

/-- A greeting that both clients hear brings both to the same place. -/
theorem greet_shadows {k k' : Connection} (hs : (start k).SendsAs (start k'))
    (h : Inserted 1 (.ok x) (start k).future (start k').future) :
    ∃ (r : Except Fault String) (c c' : Client), greet k = (r.map fun _ => c, c.connection)
      ∧ greet k' = (r.map fun _ => c', c'.connection) ∧ Shadows x c c' := by
  obtain ⟨h₁, h₂, h₃⟩ := nextMessage_future (start k)
  obtain ⟨h₁', h₂', h₃'⟩ := nextMessage_future (start k')
  rcases h.step with ⟨hhead, htail⟩ | ⟨hzero, -⟩
  · have hm : (start k').nextMessage.1 = (start k).nextMessage.1 := by rw [h₁, h₁', hhead]
    exact ⟨_, _, _, greet_eq k, hm ▸ greet_eq k', h₃.symm.trans (hs.trans h₃'), by rwa [h₂, h₂']⟩
  · simp at hzero

end Client

theorem Wire.Utterance.aside {u : Utterance} (h : u.IsUntagged) (hfetch : ¬u.Tells "FETCH")
    (hbye : ¬u.Tells "BYE") : Client.Aside u.message u.datum where
  read := u.read_message h
  other := by
    rw [u.capitals_name_datum, show capitals "FETCH" = "FETCH" from by decide]
    exact fun hn => hfetch ((Utterance.name_datum_fetch h).1 hn)
  on hn := hbye ((Utterance.name_datum_bye h).1 hn)

section Visits

open Client (greatestMessage hello done)

variable {script script' earlier later : List Event} {greeting u : Utterance}
  {said : List Utterance}

theorem start_inserted (timeout : Duration) (budget : Option Nat)
    (hscript : spread script = earlier ++ later)
    (hscript' : spread script' = earlier ++ spread [.chunk u.octets] ++ later)
    (hborder : arriving earlier = (greeting :: said).flatMap Utterance.octets)
    (hlimit : u.octets.length ≤ greatestMessage) :
    Inserted 1 (.ok u.message) (Client.start { script, timeout, budget }).future
      (Client.start { script := script', timeout, budget }).future := by
  have hgives : Assembler.Gives ((Assembler.idle greatestMessage {}).feed (arriving earlier))
      ((greeting :: said).map (Utterance.result greatestMessage))
      (Assembler.idle greatestMessage {}) := by
    rw [hborder]
    exact gives_utterances_of_idle (greeting :: said)
  have h : Inserted _ _ (future timeout _ (earlier ++ later)) _ :=
    future_inserted timeout hlimit earlier hgives
  have hfuture : ∀ script, (Client.start { script, timeout, budget }).future
      = future timeout (Assembler.idle greatestMessage {}) (spread script) := fun script =>
    (future_spread timeout script _).symm
  rw [hfuture, hfuture, hscript, hscript', List.append_assoc]
  refine Inserted.mono ?_ (by simpa [spread] using h)
  simp

/-- Data that come unasked between two messages behind the greeting, under another name than FETCH
and BYE, change neither what is sent in a visit nor its outcome nor the files it leaves. -/
theorem visit_undisturbed (p : Profile) (corpus : List Path) (files : FileTree)
    (timeout : Duration) (budget : Option Nat) (hscript : spread script = earlier ++ later)
    (hscript' : spread script' = earlier ++ spread [.chunk u.octets] ++ later)
    (hborder : arriving earlier = (greeting :: said).flatMap Utterance.octets)
    (hlimit : u.octets.length ≤ greatestMessage) (huntagged : u.IsUntagged)
    (hfetch : ¬u.Tells "FETCH") (hbye : ¬u.Tells "BYE") :
    let without := visit Network.ofConnection p corpus ⟨{ script, timeout, budget }, files⟩
    let having := visit Network.ofConnection p corpus
      ⟨{ script := script', timeout, budget }, files⟩
    having.1 = without.1 ∧ having.2.files = without.2.files
      ∧ Switchboard.sent having.2.network = Switchboard.sent without.2.network := by
  intro without having
  have hstart := start_inserted timeout budget hscript hscript' hborder hlimit
  have hsends : (Client.start { script, timeout, budget }).SendsAs
      (Client.start { script := script', timeout, budget }) := ⟨⟨rfl, rfl⟩, rfl, rfl⟩
  obtain ⟨r, c, c', hg, hg', hs⟩ := Client.greet_shadows hsends hstart
  simp only [without, having, visit, Network.ofConnection, hg, hg']
  rcases r with e | words
  · exact ⟨rfl, rfl, hs.sends.sent⟩
  · obtain ⟨houtcome, hfiles, hend⟩ :=
      Client.converse_shadows (u.aside huntagged hfetch hbye) p corpus files hs
    exact ⟨houtcome, hfiles, hend.sends.sent⟩

/-- Data that nobody asked for, with a literal that looks like a farewell. -/
def unasked : Utterance where
  literals := [⟨⟨utf8 "* LIST () \x7b7\x7d", .crlf, by decide, by decide⟩, utf8 "* BYE\r\n",
    Announcing.foldl_closed.mp (by rfl)⟩]
  last := ⟨utf8 " NIL", .crlf, by decide, by decide⟩
  plain := Announcing.not_announces (by rfl : _ = .other) (by simp)

/-- What a server says behind the answer to LOGIN, in a visit with one letter. -/
def remainder : Bytes :=
  utf8 ("A0002 OK gone\r\nA0003 OK made\r\nA0004 OK open\r\n+ go on\r\nA0005 OK kept\r\n"
    ++ "* 1 FETCH (X)\r\nA0006 OK told\r\n* 1 FETCH (X)\r\nA0007 OK told\r\n"
    ++ "A0008 OK shut\r\nA0009 OK bye\r\n")

/-- A connection to a server that says all of it at once. -/
def prompt : Connection where
  script := [.chunk (hello.octets ++ done.octets ++ remainder)]
  timeout := ⟨1⟩

theorem prompt_answers :
    let told : Response := ⟨⟨.ok, "told"⟩, [⟨"FETCH", [.line (utf8 "1 FETCH (X)")]⟩]⟩
    (Client.greet prompt).1.toOption.map (fun c => (Client.turns
        [.login "test" "pass", .delete "scratch", .create "scratch", .select "scratch",
          .append "scratch" [97], Description.body.request 1, Description.bodyStructure.request 1,
          .close, .logout] c).map (·.answer))
      = some [.ok ⟨⟨.ok, "done"⟩, []⟩, .ok ⟨⟨.ok, "gone"⟩, []⟩, .ok ⟨⟨.ok, "made"⟩, []⟩,
        .ok ⟨⟨.ok, "open"⟩, []⟩, .ok ⟨⟨.ok, "kept"⟩, []⟩, .ok told, .ok told,
        .ok ⟨⟨.ok, "shut"⟩, []⟩, .ok ⟨⟨.ok, "bye"⟩, []⟩] := by
  decide +kernel

theorem prompt_visited :
    ∃ k, visit Network.ofConnection twoLetters.profile [⟨"a.eml"⟩] ⟨prompt, oneLetter.files⟩
      = (.ok ⟨"fake", 1, 1, []⟩, ⟨k, describedLetter⟩) := by
  obtain ⟨c, k, hg, h⟩ := Client.greeted_of_map prompt_answers
  obtain ⟨c₁, h₁, h⟩ := Client.call_of_turns h
  obtain ⟨c₂, h₂, h⟩ := Client.call_of_turns h
  obtain ⟨c₃, h₃, h⟩ := Client.call_of_turns h
  obtain ⟨c₄, h₄, h⟩ := Client.call_of_turns h
  obtain ⟨c₅, h₅, h⟩ := Client.call_of_turns h
  obtain ⟨c₆, h₆, h⟩ := Client.call_of_turns h
  obtain ⟨c₇, h₇, h⟩ := Client.call_of_turns h
  obtain ⟨c₈, h₈, h⟩ := Client.call_of_turns h
  obtain ⟨c₉, h₉, -⟩ := Client.call_of_turns h
  have hletter : examine Client.responder twoLetters.profile 0 ⟨"a.eml"⟩ {}
      ⟨c₄, oneLetter.files⟩ = (.ok true, {}, ⟨c₇, describedLetter⟩) :=
    examine_of_calls oneLetter_read h₅ rfl
      (describe_of_call h₆ rfl (by decide) (by decide) oneLetter_body)
      (describe_of_call h₇ rfl (by decide) (by decide) oneLetter_structure)
  have hreview : Session.examineFrom Client.responder twoLetters.profile 0 0 {} [⟨"a.eml"⟩]
      ⟨c₄, oneLetter.files⟩ = (.ok (1, {}), ⟨c₇, describedLetter⟩) := by
    simp only [Session.examineFrom, hletter]
    rfl
  have hconnect : Network.ofConnection.connect twoLetters.profile oneLetter.files prompt
      = (.ok c, k) := hg
  exact ⟨_, visit_of_calls hconnect ⟨h₁, rfl⟩ h₂ ⟨h₃, rfl⟩ ⟨h₄, rfl⟩ hreview h₈ h₉⟩

/-- They stand behind the answer to LOGIN, and the portions are cut elsewhere. -/
theorem visit_undisturbed_login :
    let p := twoLetters.profile
    let script' : List Event := [.chunk (hello.octets ++ utf8 "A00"), .chunk [],
      .chunk (utf8 "01 OK done\r\n" ++ unasked.octets ++ remainder.take 8),
      .chunk (remainder.drop 8)]
    let without := visit Network.ofConnection p [⟨"a.eml"⟩] ⟨prompt, oneLetter.files⟩
    let having := visit Network.ofConnection p [⟨"a.eml"⟩]
      ⟨{ prompt with script := script' }, oneLetter.files⟩
    without.1 = .ok ⟨"fake", 1, 1, []⟩ ∧ having.1 = without.1
      ∧ without.2.files = describedLetter ∧ having.2.files = without.2.files
      ∧ Switchboard.sent having.2.network = Switchboard.sent without.2.network := by
  intro p script' without having
  let earlier : List Event := spread [.chunk (hello.octets ++ done.octets)]
  let later : List Event := spread [.chunk remainder]
  have hdone : done.octets = utf8 "A00" ++ utf8 "01 OK done\r\n" := by decide
  have hscript : spread prompt.script = earlier ++ later := by
    simp [prompt, earlier, later, spread]
  have hscript' : spread script' = earlier ++ spread [.chunk unasked.octets] ++ later := by
    simp [script', earlier, later, spread, hdone]
  have hborder : arriving earlier = [hello, done].flatMap Utterance.octets := by decide
  have huntagged : unasked.IsUntagged := by
    unfold Utterance.IsUntagged
    decide
  have hfetch : ¬unasked.Tells "FETCH" := by
    rw [← Utterance.name_datum_fetch huntagged]
    decide
  have hbye : ¬unasked.Tells "BYE" := by
    rw [← Utterance.name_datum_bye huntagged]
    decide
  obtain ⟨k, hvisit⟩ := prompt_visited
  have hwithout : without = _ := hvisit
  obtain ⟨houtcome, hfiles, hsent⟩ := visit_undisturbed p [⟨"a.eml"⟩] oneLetter.files ⟨1⟩ none
    hscript hscript' hborder (by decide) huntagged hfetch hbye
  exact ⟨by rw [hwithout], houtcome, by rw [hwithout], hfiles, hsent⟩

end Visits

end ImapProbe
