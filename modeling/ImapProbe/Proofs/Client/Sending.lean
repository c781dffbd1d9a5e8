import ImapProbe.Proofs.Client.Answers

/-!
# When a client writes

A client writes the fragments of its command in order. It waits with an empty queue, writes a
literal right after the server asked for it, and stops before the literal that the server refused
(`Conducted.literal`, `Conducted.pulled`, `Conducted.response_sent`). `turns_paced` says so for
every command of a run, whatever the peer takes.
-/

namespace ImapProbe

open Wire

namespace Journal

/-- The first write behind deeds that wrote nothing, and any other. -/
theorem wrote_split {quiet j b b' : List Deed} {octets o : Bytes} (hq : writes quiet = []) :
    quiet ++ .wrote octets :: j = b ++ .wrote o :: b' →
      (b = quiet ∧ o = octets ∧ b' = j)
        ∨ ∃ c, b = quiet ++ .wrote octets :: c ∧ j = c ++ .wrote o :: b' := by
  intro h
  rcases List.append_eq_append_iff.mp h with ⟨c, hb, hj⟩ | ⟨c, hquiet, hj⟩
  · rcases c with _ | ⟨d, c⟩
    · simp only [List.nil_append, List.cons.injEq, Deed.wrote.injEq] at hj
      exact .inl ⟨by simpa using hb, hj.1.symm, hj.2.symm⟩
    · simp only [List.cons_append, List.cons.injEq] at hj
      exact .inr ⟨c, by rw [hb, ← hj.1], hj.2⟩
  · rcases c with _ | ⟨d, c⟩
    · simp only [List.nil_append, List.cons.injEq, Deed.wrote.injEq] at hj
      exact .inl ⟨by simpa using hquiet.symm, hj.1, hj.2⟩
    · simp only [List.cons_append, List.cons.injEq] at hj
      rw [hquiet, ← hj.1] at hq
      simp at hq

end Journal

namespace Client

section Waits

variable {leaving : Bool}

theorem Fetched.quiet {r : Except Fault Message} :
    ∀ {j : List Deed}, Fetched j r → Journal.writes j = [] ∧ Journal.sent j = []
  | _, .pulled h => h.quiet
  | _, .silence _ | _, .message _ | _, .refused _ => ⟨rfl, rfl⟩

theorem Heard.quiet {j : List Deed} {ds : List ServerData} {s : Except Fault Stop}
    (h : Heard leaving j ds s) : Journal.writes j = [] ∧ Journal.sent j = [] := by
  induction h with
  | fault hf | unreadable hf | stop hf | bye hf => exact hf.quiet
  | data hf _ _ _ ih => simp [hf.quiet, ih]

/-- The message that was fetched is taken last. -/
theorem Fetched.took_last {m : Message} :
    ∀ {j : List Deed}, Fetched j (.ok m) → ∃ a, j = a ++ [.took (.ok m)] ∧ Journal.taken a = []
  | _, .message _ => ⟨[], rfl, rfl⟩
  | _, @Fetched.pulled octets _ _ h => by
    obtain ⟨a, rfl, ha⟩ := h.took_last
    exact ⟨.pulled (.ok octets) :: a, rfl, ha⟩

theorem Heard.took_last {j : List Deed} {ds : List ServerData} {s : Stop}
    (h : Heard leaving j ds (.ok s)) :
    ∃ a m, j = a ++ [.took (.ok m)] ∧ m.read = .ok s.reading := by
  generalize hr : Except.ok s = r at h
  induction h with
  | fault | unreadable | bye => simp at hr
  | stop hf hread =>
    obtain rfl := Except.ok.inj hr
    obtain ⟨a, ha, -⟩ := hf.took_last
    exact ⟨a, _, ha, hread⟩
  | @data j _ _ _ _ _ _ _ _ _ ih =>
    obtain ⟨a, m, rfl, hm⟩ := ih hr
    exact ⟨j ++ a, m, by simp, hm⟩

end Waits

section Commands

variable {tag : String} {leaving : Bool} {fragments : List Fragment} {data : List ServerData}
  {queue : Bytes} {j : List Deed} {r : Except Fault Response}

theorem Conducted.writes_prefix (h : Conducted tag leaving fragments data queue j r) :
    Journal.writes j <+: fragments.map Fragment.octets := by
  induction h with
  | line _ ih => simpa [Fragment.octets] using ih
  | broken => exact List.nil_prefix
  | asked hh _ ih => simpa [hh.quiet, Fragment.octets] using ih
  | failed _ hh | answered _ hh | stray hh =>
    rw [Journal.writes_flushed, hh.quiet.1]
    exact List.nil_prefix

theorem Conducted.sent_prefix (h : Conducted tag leaving fragments data queue j r) :
    Journal.sent j <+: queue ++ (fragments.map Fragment.octets).flatten := by
  induction h with
  | line _ ih => simpa [Fragment.octets] using ih
  | broken _ hp =>
    rw [Journal.sent_flushed, Journal.sent_nil, List.append_nil]
    exact hp.trans (List.prefix_append _ _)
  | asked hh _ ih => simpa [hh.quiet, Fragment.octets] using ih
  | failed _ hh | answered _ hh | stray hh => simp [hh.quiet]

theorem Heard.pulled {ds : List ServerData} {s : Except Fault Stop} (h : Heard leaving j ds s)
    {found : Except Fault Bytes} {b b' : List Deed}
    (hj : .flushed queue :: j = b ++ .pulled found :: b') :
    Journal.sent b = queue ++ Journal.written b := by
  rcases b with _ | ⟨d, b⟩
  · simp at hj
  · simp only [List.cons_append, List.cons.injEq] at hj
    obtain ⟨rfl, rfl⟩ := hj
    obtain ⟨hw, hs⟩ := h.quiet
    simp only [Journal.writes_append, Journal.sent_append, List.append_eq_nil_iff] at hw hs
    simp [Journal.written, hw.1, hs.1]

/-- All that was written is sent before anything is asked of the connection: a pull stands behind
the write of a literal, or in the wait before it. -/
theorem Conducted.pulled (h : Conducted tag leaving fragments data queue j r)
    {found : Except Fault Bytes} :
    ∀ b b', j = b ++ .pulled found :: b' → Journal.sent b = queue ++ Journal.written b := by
  induction h with
  | line _ ih =>
    rintro (_ | ⟨d, b⟩) b' hj
    · simp at hj
    · simp only [List.cons_append, List.cons.injEq] at hj
      obtain ⟨rfl, hj⟩ := hj
      simpa [Journal.written] using ih b b' hj
  | broken =>
    intro b b' hj
    have hm : Deed.pulled found ∈ b ++ .pulled found :: b' := by simp
    simp [← hj] at hm
  | asked hh _ ih =>
    intro b b' hj
    rcases List.append_eq_append_iff.mp hj with ⟨_ | ⟨d, c⟩, hb, hc⟩ | ⟨_ | ⟨d, c⟩, hb, hc⟩
    · simp at hc
    · simp only [List.cons_append, List.cons.injEq] at hc
      obtain ⟨rfl, hc⟩ := hc
      have := ih c b' hc
      simp [hb, hh.quiet, Journal.written, this]
    · simp at hc
    · simp only [List.cons_append, List.cons.injEq] at hc
      obtain ⟨rfl, -⟩ := hc
      exact hh.pulled hb
  | failed _ hh | answered _ hh | stray hh => exact fun b b' hj => hh.pulled hj

/-- A literal is written right after the request for it, and that was read when all before the
literal was sent. -/
theorem Conducted.literal (h : Conducted tag leaving fragments data queue j r) {octets o : Bytes} :
    ∀ pre post b b', fragments = pre ++ .literal octets :: post → j = b ++ .wrote o :: b' →
      (Journal.writes b).length = pre.length →
      o = octets ∧ goAheads (Journal.taken b) = literals pre + 1
        ∧ ∃ a m, b = a ++ [.took (.ok m)] ∧ m.read = .ok .goAhead
          ∧ Journal.writes a = pre.map Fragment.octets
          ∧ Journal.sent a = queue ++ (pre.map Fragment.octets).flatten := by
  induction h with
  | line _ ih =>
    rintro (_ | ⟨f, pre⟩) post (_ | ⟨d, b⟩) b' hf hj hlen
    · simp at hf
    · simp at hf
    · simp [Journal.writes] at hlen
    · simp only [List.cons_append, List.cons.injEq] at hf hj
      obtain ⟨rfl, hf⟩ := hf
      obtain ⟨rfl, hj⟩ := hj
      obtain ⟨ho, hg, a, m, rfl, hm, hw, hs⟩ := ih pre post b b' hf hj (by simpa using hlen)
      refine ⟨ho, ?_, .wrote _ :: a, m, rfl, hm, ?_, ?_⟩
      · simpa [literals] using hg
      · simpa [Fragment.octets] using hw
      · simpa [Fragment.octets] using hs
  | broken =>
    intro pre post b b' _ hj
    have hm : Deed.wrote o ∈ b ++ .wrote o :: b' := by simp
    simp [← hj] at hm
  | @asked octets' queue' rest _ ds jh j' _ hh _ ih =>
    intro pre post b b' hf hj hlen
    have hq : Journal.writes (.flushed queue' :: jh) = [] := hh.quiet.1
    obtain ⟨a, m, rfl, hm⟩ := hh.took_last
    obtain ⟨hw₀, hs₀⟩ : Journal.writes a = [] ∧ Journal.sent a = [] := by simpa using hh.quiet
    rcases Journal.wrote_split hq hj with ⟨rfl, rfl, -⟩ | ⟨c, rfl, hc⟩
    · obtain rfl : pre = [] := List.length_eq_zero_iff.mp (by rw [← hlen, hq]; rfl)
      simp only [List.nil_append, List.cons.injEq, Fragment.literal.injEq] at hf
      refine ⟨hf.1, ?_, .flushed queue' :: a, m, rfl, hm, ?_, ?_⟩
      · rw [Journal.taken_flushed, hh.asked.2]
        rfl
      · simp [hw₀]
      · simp [hs₀]
    · rcases pre with _ | ⟨f, pre⟩
      · simp at hlen
      simp only [List.cons_append, List.cons.injEq] at hf
      obtain ⟨rfl, hf⟩ := hf
      obtain ⟨ho, hg, a', m', rfl, hm', hw, hs⟩ :=
        ih pre post c b' hf hc (by simpa [hw₀] using hlen)
      refine ⟨ho, ?_, .flushed queue' :: (a ++ [.took (.ok m)]) ++ .wrote octets' :: a', m', ?_,
        hm', ?_, ?_⟩
      · have hone := hh.asked.2
        simp only [literals, List.countP_cons_of_pos] at hg ⊢
        simp only [List.cons_append, Journal.taken_flushed, Journal.taken_append (a ++ _),
          Journal.taken_wrote, goAheads_append] at hone hg ⊢
        omega
      · simp
      · simpa [hw₀, Fragment.octets] using hw
      · simpa [hs₀, Fragment.octets] using hs
  | failed _ hh | answered _ hh | stray hh =>
    intro pre post b b' _ hj
    have := congrArg Journal.writes hj
    simp [hh.quiet] at this

/-- A command that was answered was written and sent whole, or up to the literal that the server
did not ask for. -/
theorem Conducted.response_sent (h : Conducted tag leaving fragments data queue j r)
    {response : Response} (hr : r = .ok response) :
    (Journal.writes j = fragments.map Fragment.octets
        ∧ Journal.sent j = queue ++ (fragments.map Fragment.octets).flatten)
      ∨ ∃ pre octets post, fragments = pre ++ .literal octets :: post
        ∧ goAheads (Journal.taken j) = literals pre
        ∧ Journal.writes j = pre.map Fragment.octets
        ∧ Journal.sent j = queue ++ (pre.map Fragment.octets).flatten := by
  induction h with
  | @line octets _ _ _ _ _ _ ih =>
    refine (ih hr).imp (fun h => ?_) fun h => ?_
    · simpa [Fragment.octets] using h
    · obtain ⟨pre, o, post, rfl, hg, hw, hs⟩ := h
      refine ⟨.line octets :: pre, o, post, rfl, ?_, ?_, ?_⟩
      · simpa [literals] using hg
      · simpa [Fragment.octets] using hw
      · simpa [Fragment.octets] using hs
  | broken | failed | stray => simp at hr
  | @asked octets _ _ _ _ _ _ _ hh _ ih =>
    refine (ih hr).imp (fun h => ?_) fun h => ?_
    · simpa [hh.quiet, Fragment.octets] using h
    · obtain ⟨pre, o, post, rfl, hg, hw, hs⟩ := h
      refine ⟨.literal octets :: pre, o, post, rfl, ?_, ?_, ?_⟩
      · have hone := hh.asked.2
        simp only [literals, List.countP_cons_of_pos] at hg ⊢
        simp only [List.cons_append, Journal.taken_flushed, Journal.taken_append,
          Journal.taken_wrote, goAheads_append]
        omega
      · simpa [hh.quiet, Fragment.octets] using hw
      · simpa [hh.quiet, Fragment.octets] using hs
  | answered hp hh =>
    rcases hp with rfl | ⟨o, post, rfl⟩
    · exact .inl (by simp [hh.quiet])
    · refine .inr ⟨[], o, post, rfl, ?_, by simp [hh.quiet], by simp [hh.quiet]⟩
      rw [Journal.taken_flushed, hh.not_asked (by simp)]
      rfl

end Commands

end Client

namespace Turn

open Client

/-- How the fragments of a command are written and sent. -/
structure Paced (t : Turn) : Prop where
  log : t.after.connection.log = t.before.connection.log ++ Journal.transfers t.deeds
  writes : Journal.writes t.deeds <+: t.fragments.map Fragment.octets
  sent : Journal.sent t.deeds <+: (t.fragments.map Fragment.octets).flatten
  literal : ∀ pre octets post b o b', t.fragments = pre ++ .literal octets :: post →
    t.deeds = b ++ .wrote o :: b' → (Journal.writes b).length = pre.length →
      o = octets ∧ goAheads (Journal.taken b) = literals pre + 1
        ∧ ∃ a m, b = a ++ [.took (.ok m)] ∧ m.read = .ok .goAhead
          ∧ Journal.writes a = pre.map Fragment.octets
          ∧ Journal.sent a = (pre.map Fragment.octets).flatten
  pulled : ∀ b found b', t.deeds = b ++ .pulled found :: b' →
    Journal.sent (t.before.journal ++ b) = Journal.written (t.before.journal ++ b)
  response : ∀ r, t.answer = .ok r →
    (Journal.writes t.deeds = t.fragments.map Fragment.octets
        ∧ Journal.sent t.deeds = (t.fragments.map Fragment.octets).flatten)
      ∨ ∃ pre octets post said m, t.fragments = pre ++ .literal octets :: post
        ∧ Journal.writes t.deeds = pre.map Fragment.octets
        ∧ Journal.sent t.deeds = (pre.map Fragment.octets).flatten
        ∧ t.share = said ++ [.ok m] ∧ m.read = .ok (.completed t.tag r.completion)
        ∧ goAheads said = literals pre

/-- Where something is still in the queue, nothing more is sent. -/
theorem sent_of_queue {k : Connection} {t : Turn} (hb : Reached k t.before)
    (hd : Did { t.before with issued := t.before.issued + 1 } t.deeds t.after) :
    t.before.connection.queued = [] ∨ Journal.sent t.deeds = [] := by
  refine hb.settled.imp_right fun hz => ?_
  obtain ⟨b', -, hlen⟩ := hd.budget 0 hz
  exact List.length_eq_zero_iff.mp (by omega)

/-- What an earlier command left in the queue is no part of what is sent now. -/
theorem paced {k : Connection} {t : Turn} (hk : k.queued = []) (hb : Reached k t.before)
    (hform : t.command.pieces.isOk) (h : t.before.call t.command = (t.answer, t.after)) :
    t.Paced := by
  obtain ⟨hd, hc⟩ := turn_conducted hform h
  have hqueue := sent_of_queue hb hd
  have hstrip : ∀ {a rest : List Deed} {octets : Bytes}, t.deeds = a ++ rest →
      Journal.sent a = t.before.connection.queued ++ octets → Journal.sent a = octets := by
    intro a rest octets hdeeds ha
    rcases hqueue with hq | hs
    · rw [ha, hq, List.nil_append]
    · rw [hdeeds, Journal.sent_append, List.append_eq_nil_iff] at hs
      rw [hs.1, (List.append_eq_nil_iff.mp (ha.symm.trans hs.1)).2]
  refine ⟨hd.log, hc.writes_prefix, ?_, ?_, ?_, ?_⟩
  · rcases hqueue with hq | hs
    · simpa [hq] using hc.sent_prefix
    · rw [hs]
      exact List.nil_prefix
  · intro pre octets post b o b' hf hj hlen
    obtain ⟨ho, hg, a, m, rfl, hm, hw, hs⟩ := hc.literal pre post b b' hf hj hlen
    exact ⟨ho, hg, a, m, rfl, hm, hw, hstrip (by rw [hj, List.append_assoc]) hs⟩
  · intro b found b' hj
    have hq : Journal.sent t.before.journal ++ t.before.connection.queued
        = k.queued ++ Journal.written t.before.journal := hb.did.queue
    rw [Journal.sent_append, Journal.written_append, hc.pulled b b' hj, ← List.append_assoc, hq, hk,
      List.nil_append]
  · intro r hr
    obtain ⟨said, m, ht, hm, -⟩ := hc.response hr
    rcases hc.response_sent hr with ⟨hw, hs⟩ | ⟨pre, octets, post, hf, hg, hw, hs⟩
    · exact .inl ⟨hw, hstrip (List.append_nil _).symm hs⟩
    · refine .inr
        ⟨pre, octets, post, said, m, hf, hw, hstrip (List.append_nil _).symm hs, ht, hm, ?_⟩
      have hlast : goAheads [.ok m] = 0 := by
        simp [goAheads, reading?_of_read hm]
      rw [ht, goAheads_append, hlast] at hg
      exact hg

end Turn

namespace Client

/-- Every command of a run that has a form is written fragment by fragment, each literal when the
server asked for it, and nothing is read while something is still to be sent. -/
theorem turns_paced {script : List Event} {timeout : Duration} {budget : Option Nat} {c : Client}
    {k : Connection} (h : greet { script, timeout, budget } = (.ok c, k))
    (commands : List Command) :
    ∀ t ∈ turns commands c, t.command.pieces.isOk → t.Paced := by
  obtain ⟨hc, -⟩ := greet_reached h rfl
  obtain ⟨hall, -⟩ := turns_reached commands c hc
  exact fun t hs hform => Turn.paced rfl (hall t hs).1 hform (hall t hs).2

/-- A LOGIN whose arguments go as literals: the server asks for the first and refuses the second. -/
theorem turns_paced_login :
    let script : List Event := [.chunk hello.octets, .chunk (utf8 "+ go on\r\nA0001 NO no\r\n")]
    ∃ c k, greet { script, timeout := ⟨1⟩, budget := some 40 } = (.ok c, k)
      ∧ ∃ t ∈ turns [.login "é" "ü"] c, t.command.pieces.isOk ∧ literals t.fragments = 2
        ∧ t.Paced := by
  intro script
  obtain ⟨-, c, k, h, -⟩ : ∃ chunks c k, greet { script, timeout := ⟨1⟩, budget := some 40 }
      = (.ok c, k) ∧ Ahead c chunks _ [] := greet_hello [hello.octets] rfl (by simp)
  have hform : (Command.login "é" "ü").pieces.isOk := by decide
  refine ⟨c, k, h, _, List.mem_singleton_self _, hform, by rfl, ?_⟩
  exact turns_paced h [.login "é" "ü"] _ (List.mem_singleton_self _) hform

end Client

end ImapProbe
