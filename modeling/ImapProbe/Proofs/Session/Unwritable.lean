import ImapProbe.Client.Network
import ImapProbe.Proofs.Client.Turns
import ImapProbe.Proofs.Forms
import ImapProbe.Proofs.Numbering
import ImapProbe.Proofs.Session.Outcome
import Mathlib.Data.List.Nodup

/-!
# Messages that cannot be written

No form of a command can carry NUL, so a message that holds NUL cannot be written: nothing is sent,
and the connection is as it was. The visit ends with it all the same. Against a server that answers
all it is given, and grants what has to be granted, nothing else ends a visit early
(`visit_obliged`).
-/

namespace ImapProbe

/-- What has to be granted for a session to go on. -/
def Command.isVital : Command → Bool
  | .login .. | .create _ | .select _ => true
  | .delete _ | .append .. | .fetch .. | .close | .logout => false

/-- Every command that can be written was answered, and granted if it has to be. -/
def Obliged (said : List Exchange) : Prop :=
  ∀ x ∈ said, x.command.pieces.isOk →
    ∃ r, x.answer = .ok r ∧ (x.command.isVital → r.isGranted)

/-- Every command that cannot be written was answered with the reason. -/
def Unsent (said : List Exchange) : Prop :=
  ∀ x ∈ said, ∀ e, x.command.pieces = .error e → x.answer = .error (.encoding e)

theorem Obliged.fault? {said : List Exchange} (h : Obliged said) {x : Exchange} (hx : x ∈ said)
    (hform : x.command.pieces.isOk) : x.fault? = none := by
  obtain ⟨command, answer⟩ := x
  obtain ⟨r, rfl, hr⟩ := h _ hx hform
  rcases hg : r.isGranted
  · cases command <;> simp_all [Exchange.fault?, Command.isVital]
  · simp [Exchange.fault?, hg]

theorem nulOffset?_mem {content : Bytes} {offset : Nat}
    (h : Command.nulOffset? content = some offset) : 0 ∈ content := by
  obtain ⟨hlt, h0, -⟩ := List.findIdx?_eq_some_iff_getElem.1 h
  exact List.mem_of_getElem (by simpa using h0)

namespace Conversed

variable {p : Profile} {corpus : List Path} {t t' : FileTree} {opening leave : List Exchange}
  {blocks : List (List Act)} {outcome : Except SessionFault Report}

/-- Once a message was begun the mailbox is closed at the leave. -/
theorem leave_of_begun (h : Conversed p corpus t opening blocks leave outcome t') {x : Exchange}
    (hx : x ∈ exchanges blocks.flatten) :
    ∃ closed bye, leave = [⟨.close, closed⟩, ⟨.logout, bye⟩] := by
  cases h with
  | stopped => simp at hx
  | cut closed bye | done closed bye => exact ⟨closed, bye, rfl⟩

theorem append_mem (h : Conversed p corpus t opening blocks leave outcome t') {mailbox : String}
    {content : Bytes} {answer : Except Fault Response}
    (hx : ⟨.append mailbox content, answer⟩ ∈ opening ++ exchanges blocks.flatten ++ leave) :
    ⟨.append mailbox content, answer⟩ ∈ exchanges blocks.flatten := by
  obtain ⟨closing, bye, rfl, hclose, -⟩ := h.leaves
  simp only [List.mem_append, List.mem_singleton] at hx
  rcases hx with (ho | hb) | hc | hb
  · simpa [Profile.opening] using h.opening_mem _ ho
  · exact hb
  · simpa using hclose _ hc
  · simp at hb

section Forms

variable (h : Conversed p corpus t opening blocks leave outcome t')
  (hlogin : (Command.login p.user p.password).pieces.isOk)
  (hmailbox : (Command.select p.mailbox).pieces.isOk)
  (hcorpus : corpus.length < UInt32.size - 1)

include h hlogin hmailbox hcorpus

/-- All that is said before the leave can be written, but for a message that holds NUL. -/
theorem formed_or_nul : ∀ x ∈ opening ++ exchanges blocks.flatten,
    (x.command.pieces.isOk ∧ ∀ mailbox content, x.command = .append mailbox content → 0 ∉ content)
      ∨ ∃ content offset, x.command = .append p.mailbox content
        ∧ Command.nulOffset? content = some offset
        ∧ x.command.pieces = .error (.argument .data 0 offset) := by
  have hname : (Command.argument (Command.mailboxName p.mailbox)).isOk := by
    rw [← Command.isOk_onMailbox "SELECT"]
    exact hmailbox
  intro x hx
  rcases List.mem_append.1 hx with ho | hb
  · have ho := h.opening_mem x ho
    simp only [Profile.opening, List.mem_cons, List.not_mem_nil, or_false] at ho
    left
    rcases ho with ho | ho | ho | ho <;> rw [ho]
    · exact ⟨hlogin, by simp⟩
    · exact ⟨(Command.isOk_onMailbox "DELETE" _).trans hname, by simp⟩
    · exact ⟨(Command.isOk_onMailbox "CREATE" _).trans hname, by simp⟩
    · exact ⟨hmailbox, by simp⟩
  · rcases h.blocks_mem x hb with ⟨content, ha⟩ | ⟨d, i, l, hi, hl, hd⟩
    · rw [ha]
      rcases Command.pieces_append hname content with ⟨h0, hform⟩ | ⟨offset, ho, hform⟩
      · refine .inl ⟨hform, fun mailbox content' hc => ?_⟩
        obtain ⟨-, rfl⟩ := Command.append.inj hc
        exact h0
      · exact .inr ⟨content, offset, rfl, ho, hform⟩
    · have hn := toNat_predict (by omega) hl
      rw [hd]
      exact .inl ⟨Command.pieces_request (by omega) d, by simp [Description.request]⟩

variable (hunsent : Unsent (opening ++ exchanges blocks.flatten ++ leave))

include hunsent

/-- A session that comes to its end has met no NUL. -/
theorem no_nul {report : Report} (hr : outcome = .ok report) :
    ∀ x ∈ opening ++ exchanges blocks.flatten ++ leave, ∀ mailbox content,
      x.command = .append mailbox content → 0 ∉ content := by
  rintro ⟨_, answer⟩ hx mailbox content rfl
  have hwork : ⟨.append mailbox content, answer⟩ ∈ opening ++ exchanges blocks.flatten :=
    List.mem_append_right _ (h.append_mem hx)
  rcases h.formed_or_nul hlogin hmailbox hcorpus _ hwork with ⟨-, h0⟩ | ⟨_, offset, -, -, hform⟩
  · exact h0 mailbox content rfl
  · have hhalts := h.halts
    rw [hr] at hhalts
    obtain rfl : answer = _ := hunsent _ hx _ hform
    exact absurd (hhalts _ hwork) (by simp [Exchange.fault?])

/-- A session with an obliging server is only ended early by a message that holds NUL. -/
theorem cut_at_nul (hserver : Obliged (opening ++ exchanges blocks.flatten ++ leave))
    {f : SessionFault} (hf : outcome = .error f) :
    ∃ before content offset closed bye,
      opening ++ exchanges blocks.flatten ++ leave = before
          ++ [⟨.append p.mailbox content, .error (.encoding (.argument .data 0 offset))⟩,
            ⟨.close, closed⟩, ⟨.logout, bye⟩]
        ∧ Command.nulOffset? content = some offset
        ∧ (Command.append p.mailbox content).pieces = .error (.argument .data 0 offset)
        ∧ f = .connectionLost (.encoding (.argument .data 0 offset)) := by
  have hhalts := h.halts
  rw [errorOf?_eq_some.2 hf] at hhalts
  obtain ⟨before, ⟨command, answer⟩, hwork, -, hxf⟩ := hhalts
  have hx : ⟨command, answer⟩ ∈ opening ++ exchanges blocks.flatten := by simp [hwork]
  have hsaid := List.mem_append_left leave hx
  rcases h.formed_or_nul hlogin hmailbox hcorpus _ hx with
    ⟨hform, -⟩ | ⟨content, offset, rfl, ho, hform⟩
  · simp [hserver.fault? hsaid hform] at hxf
  · obtain rfl : answer = _ := hunsent _ hsaid _ hform
    obtain ⟨closed, bye, rfl⟩ := h.leave_of_begun (h.append_mem hsaid)
    refine ⟨before, content, offset, closed, bye, ?_, ho, hform, (Option.some.inj hxf).symm⟩
    rw [hwork, List.append_assoc]
    rfl

end Forms

end Conversed

/-- A command that cannot be written leaves a client as it was. -/
theorem Client.call_unformed {command : Command} {e : EncodingFault}
    (h : command.pieces = .error e) (c : Client) :
    c.call command = (.error (.encoding e), c) := by
  simp only [call, h]

section Visits

variable {p : Profile} {corpus : List Path} {site : Site Connection}

theorem said_unsent : Unsent (Network.ofConnection.said p corpus site) := by
  intro x hx e h
  obtain ⟨c, hc⟩ := said_answered _ p corpus site x hx
  rw [hc]
  exact congrArg Prod.fst (Client.call_unformed h c)

/-- A server that answers all it is given, and grants what has to be granted, is visited to the end
unless a message holds NUL. The first such message is not sent, and the visit ends with it: it is
in no report, and no message after it is begun. -/
theorem visit_obliged (hgreet : (Client.greet site.network).1.isOk)
    (hlogin : (Command.login p.user p.password).pieces.isOk)
    (hmailbox : (Command.select p.mailbox).pieces.isOk)
    (hcorpus : corpus.length < UInt32.size - 1)
    (hserver : Obliged (Network.ofConnection.said p corpus site)) :
    let said := Network.ofConnection.said p corpus site
    let v := visit Network.ofConnection p corpus site
    ((∃ report, v.1 = .ok report)
        ↔ ∀ x ∈ said, ∀ mailbox content, x.command = .append mailbox content → 0 ∉ content)
      ∧ ∀ f, v.1 = .error f → ∃ before content offset closed bye,
        let fault : Fault := .encoding (.argument .data 0 offset)
        said = before ++ [⟨.append p.mailbox content, .error fault⟩, ⟨.close, closed⟩,
            ⟨.logout, bye⟩]
          ∧ Command.nulOffset? content = some offset ∧ f = .connectionLost fault
          ∧ ∀ c : Client, c.call (.append p.mailbox content) = (.error fault, c) := by
  intro said v
  have hunsent : Unsent said := said_unsent
  rcases visit_conversed Network.ofConnection p corpus site with ⟨e, he, -⟩ |
    ⟨-, opening, blocks, leave, hs, h⟩
  · rw [show (Client.greet site.network).1 = .error e from he] at hgreet
    simp [Except.isOk, Except.toBool] at hgreet
  have hserver : Obliged said := hserver
  have hs : said = _ := hs
  rw [hs] at hserver hunsent ⊢
  have hlast : ∀ f, v.1 = .error f → _ := fun f hf =>
    h.cut_at_nul hlogin hmailbox hcorpus hunsent hserver hf
  refine ⟨⟨?_, fun hnul => ?_⟩, fun f hf => ?_⟩
  · rintro ⟨report, hr⟩
    exact h.no_nul hlogin hmailbox hcorpus hunsent hr
  · rcases hv : v.1 with f | report
    · obtain ⟨before, content, offset, closed, bye, hsaid, ho, -⟩ := hlast f hv
      rw [hsaid] at hnul
      have h0 := hnul _ (List.mem_append_right before List.mem_cons_self) p.mailbox content rfl
      exact absurd (nulOffset?_mem ho) h0
    · exact ⟨report, rfl⟩
  · obtain ⟨before, content, offset, closed, bye, hsaid, ho, hform, hfault⟩ := hlast f hf
    exact ⟨before, content, offset, closed, bye, hsaid, ho, hfault, Client.call_unformed hform⟩

end Visits

section Letters

/-- A letter with NUL in its middle, and a server that answers all it will be given. -/
def letters : Site Connection where
  network := {
    script := [.chunk (utf8 ("* OK hi\r\nA0001 OK in\r\nA0002 NO none\r\nA0003 OK made\r\n"
      ++ "A0004 OK open\r\nA0005 OK shut\r\nA0006 OK bye\r\n"))]
    timeout := .ofSeconds 30 }
  files := ⟨[(["a.eml"], .file [97, 0, 98])]⟩

theorem twoLetters_login :
    (Command.login twoLetters.profile.user twoLetters.profile.password).pieces.isOk := by
  decide

theorem twoLetters_mailbox : (Command.select twoLetters.profile.mailbox).pieces.isOk := by
  decide

theorem letters_unformed :
    (Command.append "scratch" [97, 0, 98]).pieces = .error (.argument .data 0 1) := by
  rfl

theorem letters_answers :
    (Client.greet letters.network).1.toOption.map
        (fun c => (Client.turns [.login "test" "pass", .delete "scratch", .create "scratch",
          .select "scratch", .close, .logout] c).map (·.answer))
      = some [.ok ⟨⟨.ok, "in"⟩, []⟩, .ok ⟨⟨.no, "none"⟩, []⟩, .ok ⟨⟨.ok, "made"⟩, []⟩,
        .ok ⟨⟨.ok, "open"⟩, []⟩, .ok ⟨⟨.ok, "shut"⟩, []⟩, .ok ⟨⟨.ok, "bye"⟩, []⟩] := by
  decide +kernel

theorem letters_greeted : (Client.greet letters.network).1.isOk := by
  obtain ⟨c, k, h, -⟩ := Client.greeted_of_map letters_answers
  rw [h]
  rfl

theorem letters_recorded :
    ∃ site, visit Network.ofConnection.recording twoLetters.profile [⟨"a.eml"⟩, ⟨"b.eml"⟩]
        ⟨(letters.network, []), letters.files⟩
      = (.error (.connectionLost (.encoding (.argument .data 0 1))), site)
      ∧ site.network.2 = [⟨.login "test" "pass", .ok ⟨⟨.ok, "in"⟩, []⟩⟩,
        ⟨.delete "scratch", .ok ⟨⟨.no, "none"⟩, []⟩⟩, ⟨.create "scratch", .ok ⟨⟨.ok, "made"⟩, []⟩⟩,
        ⟨.select "scratch", .ok ⟨⟨.ok, "open"⟩, []⟩⟩,
        ⟨.append "scratch" [97, 0, 98], .error (.encoding (.argument .data 0 1))⟩,
        ⟨.close, .ok ⟨⟨.ok, "shut"⟩, []⟩⟩, ⟨.logout, .ok ⟨⟨.ok, "bye"⟩, []⟩⟩] := by
  have hread : letters.files.read ⟨"a.eml"⟩ = .ok [97, 0, 98] :=
    FileTree.read_of_get (by decide) (by rfl) rfl
  have happend := Client.call_unformed letters_unformed
  obtain ⟨c, k, hg, h⟩ := Client.greeted_of_map letters_answers
  obtain ⟨c₁, h₁, h⟩ := Client.call_of_turns h
  obtain ⟨c₂, h₂, h⟩ := Client.call_of_turns h
  obtain ⟨c₃, h₃, h⟩ := Client.call_of_turns h
  obtain ⟨c₄, h₄, h⟩ := Client.call_of_turns h
  obtain ⟨c₅, h₅, h⟩ := Client.call_of_turns h
  obtain ⟨c₆, h₆, -⟩ := Client.call_of_turns h
  refine ⟨⟨(c₆.connection, _), letters.files⟩, ?_, rfl⟩
  simp [visit, Network.recording, Network.ofConnection, hg, Client.responder, twoLetters, converse,
    Session.work, Session.logIn, Session.renewMailbox, Session.insist, Session.call,
    Except.mapError, Response.isGranted, Session.examineAll, Session.examineFrom, examine, attempt,
    demand, hread, happend, Session.takeLeave, h₁, h₂, h₃, h₄, h₅, h₆]

theorem letters_outcome :
    (visit Network.ofConnection twoLetters.profile [⟨"a.eml"⟩, ⟨"b.eml"⟩] letters).1
      = .error (.connectionLost (.encoding (.argument .data 0 1))) := by
  obtain ⟨site, h, -⟩ := letters_recorded
  rw [visit_recording] at h
  exact (Prod.mk.inj h).1

theorem letters_obliged :
    Obliged (Network.ofConnection.said twoLetters.profile [⟨"a.eml"⟩, ⟨"b.eml"⟩] letters) := by
  obtain ⟨site, h, hsaid⟩ := letters_recorded
  rw [Network.said, h, Obliged, hsaid]
  simp [Command.isVital, Response.isGranted, letters_unformed, Except.isOk, Except.toBool]

/-- The letter with NUL ends the visit, at the point where it cannot be written. -/
theorem visit_obliged_letters :
    let p := twoLetters.profile
    let corpus : List Path := [⟨"a.eml"⟩, ⟨"b.eml"⟩]
    ((Client.greet letters.network).1.isOk ∧ (Command.login p.user p.password).pieces.isOk
        ∧ (Command.select p.mailbox).pieces.isOk ∧ corpus.length < UInt32.size - 1
        ∧ Obliged (Network.ofConnection.said p corpus letters))
      ∧ ∃ before content closed bye, Network.ofConnection.said p corpus letters
          = before ++ [⟨.append "scratch" content, .error (.encoding (.argument .data 0 1))⟩,
            ⟨.close, closed⟩, ⟨.logout, bye⟩]
        ∧ Command.nulOffset? content = some 1 := by
  intro p corpus
  refine ⟨⟨letters_greeted, twoLetters_login, twoLetters_mailbox, by decide, letters_obliged⟩, ?_⟩
  obtain ⟨before, content, offset, closed, bye, hsaid, ho, hfault, -⟩ :=
    (visit_obliged letters_greeted twoLetters_login twoLetters_mailbox (by decide)
      letters_obliged).2 _ letters_outcome
  simp only [SessionFault.connectionLost.injEq, Fault.encoding.injEq,
    EncodingFault.argument.injEq, true_and] at hfault
  subst hfault
  exact ⟨before, content, closed, bye, hsaid, ho⟩

/-- A server that answers all it is given, a profile that can be written, and no report. -/
theorem letters_unreported :
    let p := twoLetters.profile
    let corpus : List Path := [⟨"a.eml"⟩, ⟨"b.eml"⟩]
    (Client.greet letters.network).1.isOk ∧ (Command.login p.user p.password).pieces.isOk
      ∧ (Command.select p.mailbox).pieces.isOk
      ∧ Obliged (Network.ofConnection.said p corpus letters)
      ∧ ¬ ∃ report, (visit Network.ofConnection p corpus letters).1 = .ok report := by
  refine ⟨letters_greeted, twoLetters_login, twoLetters_mailbox, letters_obliged, ?_⟩
  rintro ⟨report, h⟩
  rw [letters_outcome] at h
  simp at h

end Letters

end ImapProbe
