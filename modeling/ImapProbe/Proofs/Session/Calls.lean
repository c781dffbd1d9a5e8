import ImapProbe.Proofs.Session.Determinacy
import ImapProbe.Proofs.Session.Recording

/-!
# What is asked of a server

What is said in a visit is what a session can come to, if the server was reached, and nothing
otherwise (`visit_conversed`). So the mailbox is closed if and only if it was selected, the user is
logged out once and at the end, and no mailbox is named but that of the profile (`visit_said`).
-/

namespace ImapProbe

/-- The mailbox a command acts on by its name. -/
def Command.mailbox? : Command → Option String
  | .select mailbox | .create mailbox | .delete mailbox | .append mailbox _ => some mailbox
  | .login .. | .fetch .. | .close | .logout => none

theorem fault?_select {mailbox : String} {answer : Except Fault Response} :
    Exchange.fault? ⟨.select mailbox, answer⟩ = none ↔ ∃ r, answer = .ok r ∧ r.isGranted := by
  rcases answer with e | r
  · simp [Exchange.fault?]
  · rcases hg : r.isGranted <;> simp [Exchange.fault?, hg]

theorem Opened.command_mem {cs : List Command} {xs : List Exchange} {fault : Option SessionFault}
    (h : Opened cs xs fault) : ∀ x ∈ xs, x.command ∈ cs := by
  induction h with
  | all => simp
  | stopped => simp
  | next _ _ ih =>
    exact List.forall_mem_cons.2
      ⟨List.mem_cons_self, fun x hx => List.mem_cons_of_mem _ (ih x hx)⟩

/-- The last command is reached, and lets the session go on, exactly when nothing stopped it. -/
theorem Opened.last_iff {c : Command} (cs : List Command) {xs : List Exchange}
    {fault : Option SessionFault} (hc : c ∉ cs) (h : Opened (cs ++ [c]) xs fault) :
    fault = none ↔ ∃ answer, ⟨c, answer⟩ ∈ xs ∧ Exchange.fault? ⟨c, answer⟩ = none := by
  induction cs generalizing xs with
  | nil =>
    cases h with
    | stopped hs => simp [hs]
    | next hn ho =>
      cases ho
      simp [hn]
  | cons c' cs ih =>
    simp only [List.mem_cons, not_or] at hc
    cases h with
    | stopped => simp [hc.1]
    | next _ ho => simpa [hc.1] using ih hc.2 ho

variable {p : Profile} {corpus : List Path} {t t' : FileTree}

theorem Opened.selected_iff {opening : List Exchange} {fault : Option SessionFault}
    (h : Opened p.opening opening fault) :
    fault = none ↔ ∃ r, ⟨.select p.mailbox, .ok r⟩ ∈ opening ∧ r.isGranted := by
  rw [Opened.last_iff [.login p.user p.password, .delete p.mailbox, .create p.mailbox] (by simp) h]
  simp only [fault?_select]
  constructor
  · rintro ⟨_, hm, r, rfl, hg⟩
    exact ⟨r, hm, hg⟩
  · rintro ⟨r, hm, hg⟩
    exact ⟨_, hm, r, rfl, hg⟩

/-- About a message nothing is asked but to append it and to describe it. -/
theorem Course.commands {message : Path} {n : UInt32} {acts : List Act}
    {outcome : Except ExaminationFault Unit} (h : Course p message n t acts outcome t') :
    ∀ x ∈ exchanges acts, (∃ content, x.command = .append p.mailbox content)
      ∨ ∃ d : Description, x.command = d.request n := by
  cases h with
  | unread => simp
  | fault | refused => simp
  | accepted _ _ hd =>
    simp only [exchanges_asked, List.forall_mem_cons]
    exact ⟨.inl ⟨_, rfl⟩, fun x hx => .inr (hd.requests x hx)⟩

/-- Each block is a course of the message at its place, which has lost no more than one message for
each place before it. -/
theorem Reviewed.courses {index described : Nat} {losses : Losses} {blocks : List (List Act)}
    {outcome : Except Fault (Nat × Losses)}
    (h : Reviewed p index described losses corpus t blocks outcome t') :
    ∀ (i : Nat) (acts : List Act), blocks[i]? = some acts →
      ∃ (message : Path) (l : Losses) (u : FileTree) (r : Except ExaminationFault Unit)
        (u' : FileTree), corpus[i]? = some message ∧ l.failures.length ≤ losses.failures.length + i
        ∧ Course p message (l.predict (index + i)) u acts r u' := by
  induction h with
  | done => simp
  | cut hc =>
    rintro (_ | i) acts hi <;> simp at hi
    subst hi
    exact ⟨_, _, _, _, _, rfl, Nat.le_refl _, hc⟩
  | lost hc _ ih =>
    rintro (_ | i) acts hi
    · simp only [List.getElem?_cons_zero, Option.some.injEq] at hi
      subst hi
      exact ⟨_, _, _, _, _, rfl, Nat.le_refl _, hc⟩
    · obtain ⟨message, l, u, r, u', hm, hl, hc⟩ := ih i acts hi
      refine ⟨message, l, u, r, u', hm, ?_, by rwa [Nat.add_right_comm] at hc⟩
      simp only [Losses.add, List.length_append, List.length_singleton] at hl
      omega
  | described hc _ ih =>
    rintro (_ | i) acts hi
    · simp only [List.getElem?_cons_zero, Option.some.injEq] at hi
      subst hi
      exact ⟨_, _, _, _, _, rfl, Nat.le_refl _, hc⟩
    · obtain ⟨message, l, u, r, u', hm, hl, hc⟩ := ih i acts hi
      exact ⟨message, l, u, r, u', hm, by omega, by rwa [Nat.add_right_comm] at hc⟩

section Leave

variable {opening leave : List Exchange} {blocks : List (List Act)}
  {outcome : Except SessionFault Report}

theorem Conversed.courses (h : Conversed p corpus t opening blocks leave outcome t') :
    ∀ (i : Nat) (acts : List Act), blocks[i]? = some acts →
      ∃ (message : Path) (l : Losses) (u : FileTree) (r : Except ExaminationFault Unit)
        (u' : FileTree), corpus[i]? = some message ∧ l.failures.length ≤ i
        ∧ Course p message (l.predict i) u acts r u' := by
  cases h with
  | stopped => simp
  | cut _ _ _ hr | done _ _ _ hr => simpa using hr.courses

theorem Conversed.opening_mem (h : Conversed p corpus t opening blocks leave outcome t') :
    ∀ x ∈ opening, x.command ∈ p.opening := by
  cases h with
  | stopped _ ho => exact ho.command_mem
  | cut _ _ ho | done _ _ ho => exact ho.command_mem

theorem Conversed.blocks_mem (h : Conversed p corpus t opening blocks leave outcome t') :
    ∀ x ∈ exchanges blocks.flatten, (∃ content, x.command = .append p.mailbox content)
      ∨ ∃ (d : Description) (i : Nat) (l : Losses),
        i < corpus.length ∧ l.failures.length ≤ i ∧ x.command = d.request (l.predict i) := by
  intro x hx
  obtain ⟨acts, hacts, hx⟩ : ∃ acts ∈ blocks, x ∈ exchanges acts := by
    simpa [exchanges, List.filterMap_flatten] using hx
  obtain ⟨i, hi⟩ := List.mem_iff_getElem?.1 hacts
  obtain ⟨message, l, u, r, u', hm, hl, hc⟩ := h.courses i acts hi
  rcases hc.commands x hx with ha | ⟨d, hd⟩
  · exact .inl ha
  · exact .inr ⟨d, i, l, (List.getElem?_eq_some_iff.1 hm).1, hl, hd⟩

/-- A session takes leave by logging out, and by closing the mailbox before that if it was
selected. -/
theorem Conversed.leaves (h : Conversed p corpus t opening blocks leave outcome t') :
    ∃ closing bye, leave = closing ++ [⟨.logout, bye⟩] ∧ (∀ x ∈ closing, x.command = .close)
      ∧ (closing ≠ [] ↔ ∃ r, ⟨.select p.mailbox, .ok r⟩ ∈ opening ∧ r.isGranted) := by
  cases h with
  | stopped bye ho => exact ⟨[], bye, rfl, by simp, by simp [← ho.selected_iff]⟩
  | cut closed bye ho | done closed bye ho =>
    exact ⟨[⟨.close, closed⟩], bye, rfl, by simp, by simp [← ho.selected_iff]⟩

/-- No mailbox is named but that of the profile. -/
theorem Conversed.mailbox (h : Conversed p corpus t opening blocks leave outcome t') :
    ∀ x ∈ opening ++ exchanges blocks.flatten ++ leave, ∀ mailbox,
      x.command.mailbox? = some mailbox → mailbox = p.mailbox := by
  intro x hx mailbox hm
  obtain ⟨closing, bye, rfl, hclose, -⟩ := h.leaves
  simp only [List.mem_append, List.mem_singleton] at hx
  rcases hx with (ho | hb) | hc | rfl
  · have ho := h.opening_mem x ho
    simp only [Profile.opening, List.mem_cons, List.not_mem_nil, or_false] at ho
    rcases ho with ho | ho | ho | ho <;> simp [ho, Command.mailbox?] at hm <;> exact hm.symm
  · rcases h.blocks_mem x hb with ⟨content, ha⟩ | ⟨d, i, l, -, -, hd⟩
    · simpa [ha, Command.mailbox?, eq_comm] using hm
    · simp [hd, Description.request, Command.mailbox?] at hm
  · simp [hclose x hc, Command.mailbox?] at hm
  · simp [Command.mailbox?] at hm

/-- Neither command of the leave is given before it. -/
theorem Conversed.works (h : Conversed p corpus t opening blocks leave outcome t') :
    ∀ x ∈ opening ++ exchanges blocks.flatten, x.command ≠ .close ∧ x.command ≠ .logout := by
  intro x hx
  rcases List.mem_append.1 hx with ho | hb
  · have ho := h.opening_mem x ho
    simp only [Profile.opening, List.mem_cons, List.not_mem_nil, or_false] at ho
    rcases ho with ho | ho | ho | ho <;> simp [ho]
  · rcases h.blocks_mem x hb with ⟨content, ha⟩ | ⟨d, i, l, -, -, hd⟩
    · simp [ha]
    · simp [hd, Description.request]

/-- The mailbox is selected before anything is asked about a message, and not again. -/
theorem Conversed.select_mem (h : Conversed p corpus t opening blocks leave outcome t')
    {mailbox : String} {answer : Except Fault Response}
    (hx : ⟨.select mailbox, answer⟩ ∈ opening ++ exchanges blocks.flatten ++ leave) :
    ⟨.select mailbox, answer⟩ ∈ opening := by
  obtain ⟨closing, bye, rfl, hclose, -⟩ := h.leaves
  simp only [List.mem_append, List.mem_singleton] at hx
  rcases hx with (ho | hb) | hc | hb
  · exact ho
  · have := h.blocks_mem _ hb
    simp [Description.request] at this
  · simpa using hclose _ hc
  · simp at hb

/-- The mailbox is closed if and only if it was selected. -/
theorem Conversed.close_iff (h : Conversed p corpus t opening blocks leave outcome t') :
    (∃ x ∈ opening ++ exchanges blocks.flatten ++ leave, x.command = .close)
      ↔ ∃ r, ⟨.select p.mailbox, .ok r⟩ ∈ opening ++ exchanges blocks.flatten ++ leave
        ∧ r.isGranted := by
  obtain ⟨closing, bye, hleave, hclose, hsel⟩ := h.leaves
  constructor
  · rintro ⟨x, hx, hxc⟩
    have hx : x ∈ closing := by
      rw [hleave] at hx
      simp only [List.mem_append, List.mem_singleton] at hx
      rcases hx with hw | hc | rfl
      · exact absurd hxc (h.works x (List.mem_append.2 hw)).1
      · exact hc
      · simp at hxc
    obtain ⟨r, hr, hg⟩ := hsel.1 (List.ne_nil_of_mem hx)
    exact ⟨r, by simp [hr], hg⟩
  · rintro ⟨r, hr, hg⟩
    obtain ⟨x, hx⟩ := List.exists_mem_of_ne_nil _ (hsel.2 ⟨r, h.select_mem hr, hg⟩)
    exact ⟨x, by simp [hleave, hx], hclose x hx⟩

/-- The user is logged out at the end, and not before. -/
theorem Conversed.logout_last (h : Conversed p corpus t opening blocks leave outcome t') :
    ∃ before bye, opening ++ exchanges blocks.flatten ++ leave = before ++ [⟨.logout, bye⟩]
      ∧ ∀ x ∈ before, x.command ≠ .logout := by
  obtain ⟨closing, bye, rfl, hclose, -⟩ := h.leaves
  refine ⟨opening ++ exchanges blocks.flatten ++ closing, bye,
    (List.append_assoc _ closing _).symm, fun x hx => ?_⟩
  rcases List.mem_append.1 hx with hx | hx
  · exact (h.works x hx).2
  · simp [hclose x hx]

end Leave

section Visits

variable {ν σ : Type} (net : Network ν σ) (p : Profile) (corpus : List Path) (site : Site ν)

/-- What is said in a visit is what a session can come to, if there is a connection at all. -/
theorem visit_conversed :
    (∃ e, (net.connect p site.files site.network).1 = .error e
        ∧ (visit net p corpus site).1 = .error (.unreachable p.host p.port e)
        ∧ (visit net p corpus site).2.files = site.files ∧ net.said p corpus site = [])
      ∨ (net.connect p site.files site.network).1.isOk ∧ ∃ opening blocks leave,
        net.said p corpus site = opening ++ exchanges blocks.flatten ++ leave
          ∧ Conversed p corpus site.files opening blocks leave (visit net p corpus site).1
            (visit net p corpus site).2.files := by
  have hv := visit_recording net p corpus site
  have hout : (visit net p corpus site).1
      = (visit net.recording p corpus ⟨(site.network, []), site.files⟩).1 := by rw [hv]
  have hfiles : (visit net p corpus site).2.files
      = (visit net.recording p corpus ⟨(site.network, []), site.files⟩).2.files := by rw [hv]
  rw [hout, hfiles, Network.said]
  simp only [visit, Network.recording]
  rcases net.connect p site.files site.network with ⟨e | server, network⟩
  · exact .inl ⟨e, rfl, rfl, rfl, rfl⟩
  · obtain ⟨opening, blocks, leave, hlog, hc⟩ := converse_conversed
      (show converse net.responder.keepingExchanges p corpus ⟨(server, []), site.files⟩ = _
        from rfl)
    exact .inr ⟨rfl, opening, blocks, leave, hlog, hc⟩

/-- What is said in a visit: nothing without a connection; else a session and nothing besides, each
command as the answers before it have it. The mailbox is closed exactly when it was selected, the
last command logs out, no other does, and no mailbox is named but that of the profile. -/
theorem visit_said :
    let said := net.said p corpus site
    (∀ e, (net.connect p site.files site.network).1 = .error e → said = [])
      ∧ ((net.connect p site.files site.network).1.isOk →
        (∃ opening blocks leave, said = opening ++ exchanges blocks.flatten ++ leave
          ∧ Conversed p corpus site.files opening blocks leave (visit net p corpus site).1
            (visit net p corpus site).2.files
          ∧ ∀ o b l r t, Conversed p corpus site.files o b l r t →
            answers (o ++ exchanges b.flatten ++ l) = answers said →
            o ++ exchanges b.flatten ++ l = said)
        ∧ ((∃ x ∈ said, x.command = .close)
          ↔ ∃ r, ⟨.select p.mailbox, .ok r⟩ ∈ said ∧ r.isGranted)
        ∧ ∃ before bye, said = before ++ [⟨.logout, bye⟩] ∧ ∀ x ∈ before, x.command ≠ .logout)
      ∧ ∀ x ∈ said, ∀ mailbox, x.command.mailbox? = some mailbox → mailbox = p.mailbox := by
  intro said
  rcases visit_conversed net p corpus site with
    ⟨e, he, -, -, hs⟩ | ⟨hok, opening, blocks, leave, hs, h⟩
  · have hs : said = [] := hs
    simp [hs, he, Except.isOk, Except.toBool]
  · have hs : said = opening ++ exchanges blocks.flatten ++ leave := hs
    rw [hs]
    refine ⟨fun e he => by simp [he, Except.isOk, Except.toBool] at hok, fun _ =>
      ⟨⟨opening, blocks, leave, rfl, h, fun o b l r t h' ha => ?_⟩, h.close_iff, h.logout_last⟩,
      h.mailbox⟩
    obtain ⟨rfl, rfl, rfl, -⟩ := h.unique h' ha.symm
    rfl

end Visits

end ImapProbe
