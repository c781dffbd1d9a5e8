import ImapProbe.Proofs.Client.Journal

/-!
# How a command is carried out

`Fetched` tells what a client may do to get one message, `Heard` what it may do while it waits
for a message that brings no data, and `Conducted` what it may do for a whole command, deed by
deed; the queue is part of the last, as each flush must send all of it before anything is pulled.
A client does nothing else (`nextMessage_did`, `gather_did`, `carryOut_did`, `call_did`), and it
leaves nothing in its queue that the peer might still take (`Settled`).
-/

namespace ImapProbe

open Wire

namespace Client

inductive Fetched : List Deed → Except Fault Message → Prop
  | pulled {octets : Bytes} {j : List Deed} {r : Except Fault Message} :
    Fetched j r → Fetched (.pulled (.ok octets) :: j) r
  | silence (e : Fault) : Fetched [.pulled (.error e)] (.error e)
  | message (m : Message) : Fetched [.took (.ok m)] (.ok m)
  | refused (e : Malformation) : Fetched [.took (.error e)] (.error (.malformed e))

theorem Fetched.taken_ok {j : List Deed} {m : Message} :
    Fetched j (.ok m) → Journal.taken j = [.ok m]
  | .pulled h => h.taken_ok
  | .message _ => rfl

/-- The message that stops the wait. -/
def Stop.reading : Stop → Reading
  | .goAhead => .goAhead
  | .completed tag completion => .completed tag completion

/-- Data that end the session of a client that did not ask for that. -/
def Farewell (leaving : Bool) (d : ServerData) : Prop := d.name = "BYE" ∧ !leaving

instance {leaving : Bool} {d : ServerData} : Decidable (Farewell leaving d) :=
  inferInstanceAs (Decidable (d.name = "BYE" ∧ !leaving))

inductive Heard (leaving : Bool) : List Deed → List ServerData → Except Fault Stop → Prop
  | fault {j : List Deed} {e : Fault} : Fetched j (.error e) → Heard leaving j [] (.error e)
  | unreadable {j : List Deed} {m : Message} {e : Malformation} :
    Fetched j (.ok m) → m.read = .error e → Heard leaving j [] (.error (.malformed e))
  | stop {j : List Deed} {m : Message} {s : Stop} :
    Fetched j (.ok m) → m.read = .ok s.reading → Heard leaving j [] (.ok s)
  | bye {j : List Deed} {m : Message} {d : ServerData} :
    Fetched j (.ok m) → m.read = .ok (.data d) → Farewell leaving d →
      Heard leaving j [] (.error (.bye (linesText d.parts)))
  | data {j j' : List Deed} {m : Message} {d : ServerData} {ds : List ServerData}
    {r : Except Fault Stop} :
    Fetched j (.ok m) → m.read = .ok (.data d) → ¬ Farewell leaving d → Heard leaving j' ds r →
      Heard leaving (j ++ j') (d :: ds) r

/-- The fragments a client has before it when it waits: none, or a literal first. -/
def Pending (fragments : List Fragment) : Prop :=
  fragments = [] ∨ ∃ octets rest, fragments = .literal octets :: rest

/-- A command under a tag, with the fragments still to be written, the data met so far and what is
in the queue: the deeds, and the answer. -/
inductive Conducted (tag : String) (leaving : Bool) :
    List Fragment → List ServerData → Bytes → List Deed → Except Fault Response → Prop
  | line {octets queue : Bytes} {rest : List Fragment} {data : List ServerData} {j : List Deed}
    {r : Except Fault Response} :
    Conducted tag leaving rest data (queue ++ octets) j r →
      Conducted tag leaving (.line octets :: rest) data queue (.wrote octets :: j) r
  | broken {fragments : List Fragment} {data : List ServerData} {queue sent : Bytes} :
    Pending fragments → sent <+: queue →
      Conducted tag leaving fragments data queue [.flushed sent] (.error (.io .brokenPipe))
  | asked {octets queue : Bytes} {rest : List Fragment} {data ds : List ServerData}
    {j j' : List Deed} {r : Except Fault Response} :
    Heard leaving j ds (.ok .goAhead) → Conducted tag leaving rest (data ++ ds) octets j' r →
      Conducted tag leaving (.literal octets :: rest) data queue
        (.flushed queue :: j ++ .wrote octets :: j') r
  | failed {fragments : List Fragment} {queue : Bytes} {data ds : List ServerData}
    {j : List Deed} {e : Fault} :
    Pending fragments → Heard leaving j ds (.error e) →
      Conducted tag leaving fragments data queue (.flushed queue :: j) (.error e)
  | answered {fragments : List Fragment} {queue : Bytes} {data ds : List ServerData}
    {j : List Deed} {got : String} {completion : Completion} :
    Pending fragments → Heard leaving j ds (.ok (.completed got completion)) →
      Conducted tag leaving fragments data queue (.flushed queue :: j)
        (settle tag got completion (data ++ ds))
  | stray {queue : Bytes} {data ds : List ServerData} {j : List Deed} :
    Heard leaving j ds (.ok .goAhead) →
      Conducted tag leaving [] data queue (.flushed queue :: j)
        (.error (.malformed (.strayContinuation tag)))

/-- What stays as it is while a client waits. -/
def SameOutput (c c' : Client) : Prop :=
  c'.connection.queued = c.connection.queued ∧ c'.connection.budget = c.connection.budget

theorem SameOutput.trans {c c₁ c₂ : Client} (h₁ : SameOutput c c₁) (h₂ : SameOutput c₁ c₂) :
    SameOutput c c₂ := ⟨h₂.1.trans h₁.1, h₂.2.trans h₁.2⟩

section Laws

variable {c c' : Client}

theorem took_did {r : Except Malformation Message} {a : Assembler}
    (h : c.assembler.next = (some r, a)) :
    Did c [.took r] ({ c with assembler := a }.note (.took r)) where
  journal := rfl
  issued := rfl
  queue := by simp [Journal.sent, Journal.written, Journal.writes]
  log := by simp [Journal.transfers]
  budget b h := ⟨b, h, Nat.zero_add b⟩
  script := rfl
  frames more := Assembler.gives_feed_of_next h more

theorem pulled_did {found : Except Fault Bytes} {a : Assembler} {k : Connection}
    (h : c.assembler.next = (none, a)) (hk : c.connection.pull = (found, k)) :
    Did c [.pulled found] ({ c with
      assembler := a.feed (Journal.arrived [.pulled found])
      connection := k }.note (.pulled found)) where
  journal := rfl
  issued := rfl
  queue := by
    have := (Connection.pull_spec hk).1
    simpa [Journal.sent, Journal.written, Journal.writes]
  log := (Connection.pull_spec hk).2.2.1
  budget b hb := ⟨b, (Connection.pull_spec hk).2.1.trans hb, Nat.zero_add b⟩
  script := (Connection.pull_spec hk).2.2.2
  frames more := by
    show Assembler.Gives _ [] ((a.feed (Journal.arrived [.pulled found])).feed more)
    rw [Assembler.feed_feed]
    exact Assembler.gives_feed_of_next_none h _

theorem nextMessage_did {r : Except Fault Message} (h : c.nextMessage = (r, c')) :
    ∃ j, Did c j c' ∧ SameOutput c c' ∧ Fetched j r := by
  fun_induction nextMessage c with
  | case1 c m a ha =>
    simp only [Prod.mk.injEq] at h
    obtain ⟨rfl, rfl⟩ := h
    exact ⟨_, took_did ha, ⟨rfl, rfl⟩, .message m⟩
  | case2 c e a ha =>
    simp only [Prod.mk.injEq] at h
    obtain ⟨rfl, rfl⟩ := h
    exact ⟨_, took_did ha, ⟨rfl, rfl⟩, .refused e⟩
  | case3 c a ha e k hk =>
    simp only [Prod.mk.injEq] at h
    obtain ⟨rfl, rfl⟩ := h
    have hp := Connection.pull_spec hk
    refine ⟨_, ?_, ⟨hp.1, hp.2.1⟩, .silence e⟩
    have hd := pulled_did ha hk
    rwa [show Journal.arrived [.pulled (.error e)] = [] from rfl, Assembler.feed_nil] at hd
  | case4 c a ha octets k hk ih =>
    obtain ⟨j, hj, hs, hf⟩ := ih h
    have hp := Connection.pull_spec hk
    refine ⟨_, (pulled_did ha hk).trans ?_, SameOutput.trans ⟨hp.1, hp.2.1⟩ hs, hf.pulled⟩
    rwa [show Journal.arrived [.pulled (.ok octets)] = octets from List.append_nil octets]

theorem nextReading_did {r : Except Fault Reading} (h : c.nextReading = (r, c')) :
    ∃ j, Did c j c' ∧ SameOutput c c' ∧ ((∃ e, Fetched j (.error e) ∧ r = .error e)
      ∨ ∃ m, Fetched j (.ok m) ∧ r = m.read.mapError .malformed) := by
  unfold nextReading at h
  rcases hm : c.nextMessage with ⟨e | m, c₁⟩ <;> rw [hm] at h <;>
    simp only [Prod.mk.injEq] at h <;> obtain ⟨rfl, rfl⟩ := h <;>
    obtain ⟨j, hj, hs, hf⟩ := nextMessage_did hm
  · exact ⟨j, hj, hs, .inl ⟨e, hf, rfl⟩⟩
  · exact ⟨j, hj, hs, .inr ⟨m, hf, rfl⟩⟩

theorem nextReading_ok {reading : Reading} (h : c.nextReading = (.ok reading, c')) :
    ∃ j m, Did c j c' ∧ SameOutput c c' ∧ Fetched j (.ok m) ∧ m.read = .ok reading := by
  obtain ⟨j, hj, hs, ⟨e, -, he⟩ | ⟨m, hf, hr⟩⟩ := nextReading_did h
  · simp at he
  · refine ⟨j, m, hj, hs, hf, ?_⟩
    rcases hm : m.read with e | r <;> rw [hm] at hr
    · exact nomatch (show Except.ok reading = Except.error _ from hr)
    · rw [Except.ok.inj hr]

theorem gather_did {leaving : Bool} {data : List ServerData}
    {r : Except Fault (List ServerData × Stop)} (h : gather leaving data c = (r, c')) :
    ∃ j ds s, Did c j c' ∧ SameOutput c c' ∧ Heard leaving j ds s
      ∧ r = s.map fun stop => (data ++ ds, stop) := by
  fun_induction gather leaving data c with
  | case1 data c e c₁ hn =>
    simp only [Prod.mk.injEq] at h
    obtain ⟨rfl, rfl⟩ := h
    obtain ⟨j, hj, hs, ⟨e', hf, he⟩ | ⟨m, hf, hr⟩⟩ := nextReading_did hn
    · obtain rfl : e = e' := Except.error.inj he
      exact ⟨j, [], _, hj, hs, .fault hf, rfl⟩
    · rcases hm : m.read with e' | reading <;> rw [hm] at hr
      · obtain rfl : e = .malformed e' := Except.error.inj hr
        exact ⟨j, [], _, hj, hs, .unreadable hf hm, rfl⟩
      · exact nomatch (show Except.error e = Except.ok reading from hr)
  | case2 data c c₁ hn =>
    simp only [Prod.mk.injEq] at h
    obtain ⟨rfl, rfl⟩ := h
    obtain ⟨j, m, hj, hs, hf, hm⟩ := nextReading_ok hn
    exact ⟨j, [], _, hj, hs, .stop (s := .goAhead) hf hm, by simp [Except.map]⟩
  | case3 data c got completion c₁ hn =>
    simp only [Prod.mk.injEq] at h
    obtain ⟨rfl, rfl⟩ := h
    obtain ⟨j, m, hj, hs, hf, hm⟩ := nextReading_ok hn
    exact ⟨j, [], _, hj, hs, .stop (s := .completed got completion) hf hm, by simp [Except.map]⟩
  | case4 data c d c₁ hn hbye =>
    simp only [Prod.mk.injEq] at h
    obtain ⟨rfl, rfl⟩ := h
    obtain ⟨j, m, hj, hs, hf, hm⟩ := nextReading_ok hn
    exact ⟨j, [], _, hj, hs, .bye hf hm hbye, rfl⟩
  | case5 data c d c₁ hn hbye ih =>
    obtain ⟨j, m, hj, hs, hf, hm⟩ := nextReading_ok hn
    obtain ⟨j', ds, s, hj', hs', hh, rfl⟩ := ih h
    refine ⟨j ++ j', d :: ds, s, hj.trans hj', hs.trans hs', .data hf hm hbye hh, ?_⟩
    simp only [List.append_assoc, List.singleton_append]

/-- The peer takes the whole queue, or it takes no more. -/
def Settled (c : Client) : Prop := c.connection.queued = [] ∨ c.connection.budget = some 0

theorem flush_failed {e : Fault} (h : c.flush = (.error e, c')) :
    e = .io .brokenPipe ∧ Settled c'
      ∧ ∃ sent, sent <+: c.connection.queued ∧ Did c [.flushed sent] c' := by
  have hd := Did.flush h
  simp only [Client.flush, Connection.flush, Prod.mk.injEq] at h
  obtain ⟨he, rfl⟩ := h
  split at he
  · simp at he
  · rename_i hl
    refine ⟨(Except.error.inj he).symm, .inr ?_, _, List.take_prefix _ _, hd⟩
    rcases hb : c.connection.budget with _ | b
    · simp [Connection.accepted, hb] at hl
    · simp only [Connection.accepted, hb, Option.getD_some, List.length_take] at hl ⊢
      simp only [connection_note, Option.map_some, Option.some.injEq]
      omega

theorem accepted_of_flush (h : c.flush = (.ok (), c')) :
    c.connection.accepted = c.connection.queued := by
  simp only [Client.flush, Connection.flush, Prod.mk.injEq] at h
  obtain ⟨he, -⟩ := h
  split at he
  · exact (List.take_prefix _ _ : c.connection.accepted <+: _).eq_of_length ‹_›
  · simp at he

theorem flush_done (h : c.flush = (.ok (), c')) :
    Did c [.flushed c.connection.queued] c' ∧ c'.connection.queued = [] := by
  have ha := accepted_of_flush h
  refine ⟨ha ▸ Did.flush h, ?_⟩
  obtain rfl := (Prod.mk.inj h).2
  simp [ha]

section Wait

variable {leaving : Bool} {data data' : List ServerData} {c₁ c₂ : Client}

theorem flush_gather_failed {e : Fault} (h : c.flush = (.ok (), c₁))
    (hg : gather leaving data c₁ = (.error e, c₂)) :
    ∃ j ds, Did c (.flushed c.connection.queued :: j) c₂ ∧ Settled c₂
      ∧ Heard leaving j ds (.error e) := by
  obtain ⟨hd, hq⟩ := flush_done h
  obtain ⟨j, ds, e' | stop, hj, hs, hh, hr⟩ := gather_did hg
  · obtain rfl : e = e' := Except.error.inj hr
    exact ⟨j, ds, hd.trans hj, .inl (hs.1.trans hq), hh⟩
  · exact absurd hr (by simp [Except.map])

theorem flush_gather_done {stop : Stop} (h : c.flush = (.ok (), c₁))
    (hg : gather leaving data c₁ = (.ok (data', stop), c₂)) :
    ∃ j ds, Did c (.flushed c.connection.queued :: j) c₂ ∧ c₂.connection.queued = []
      ∧ Heard leaving j ds (.ok stop) ∧ data' = data ++ ds := by
  obtain ⟨hd, hq⟩ := flush_done h
  obtain ⟨j, ds, e | stop', hj, hs, hh, hr⟩ := gather_did hg
  · exact absurd hr (by simp [Except.map])
  · obtain ⟨rfl, rfl⟩ := Prod.mk.inj (Except.ok.inj hr)
    exact ⟨j, ds, hd.trans hj, hs.1.trans hq, hh, rfl⟩

end Wait

theorem carryOut_did {tag : String} {leaving : Bool} {fragments : List Fragment}
    {data : List ServerData} {r : Except Fault Response}
    (h : carryOut tag leaving fragments data c = (r, c')) :
    ∃ j, Did c j c' ∧ Settled c'
      ∧ Conducted tag leaving fragments data c.connection.queued j r := by
  fun_induction carryOut tag leaving fragments data c with
  | case1 data c e c₁ hf | case6 octets rest data c e c₁ hf =>
    simp only [Prod.mk.injEq] at h
    obtain ⟨rfl, rfl⟩ := h
    obtain ⟨rfl, hs, sent, hp, hd⟩ := flush_failed hf
    exact ⟨_, hd, hs, .broken (by simp [Pending]) hp⟩
  | case2 data c c₁ hf e c₂ hg | case7 octets rest data c c₁ hf e c₂ hg =>
    simp only [Prod.mk.injEq] at h
    obtain ⟨rfl, rfl⟩ := h
    obtain ⟨j, ds, hd, hs, hh⟩ := flush_gather_failed hf hg
    exact ⟨_, hd, hs, .failed (by simp [Pending]) hh⟩
  | case3 data c c₁ hf data' c₂ hg =>
    simp only [Prod.mk.injEq] at h
    obtain ⟨rfl, rfl⟩ := h
    obtain ⟨j, ds, hd, hq, hh, -⟩ := flush_gather_done hf hg
    exact ⟨_, hd, .inl hq, .stray hh⟩
  | case4 data c c₁ hf data' got completion c₂ hg
  | case9 octets rest data c c₁ hf data' got completion c₂ hg =>
    simp only [Prod.mk.injEq] at h
    obtain ⟨rfl, rfl⟩ := h
    obtain ⟨j, ds, hd, hq, hh, rfl⟩ := flush_gather_done hf hg
    exact ⟨_, hd, .inl hq, .answered (by simp [Pending]) hh⟩
  | case5 octets rest data c ih =>
    obtain ⟨j, hd, hs, hc⟩ := ih h
    exact ⟨_, (Did.write octets c).trans hd, hs, hc.line⟩
  | case8 octets rest data c c₁ hf data' c₂ hg ih =>
    obtain ⟨j, ds, hd, hq, hh, rfl⟩ := flush_gather_done hf hg
    obtain ⟨j', hd', hs, hc⟩ := ih h
    refine ⟨_, hd.trans ((Did.write octets c₂).trans hd'), hs, .asked hh ?_⟩
    rwa [show (c₂.write octets).connection.queued = octets by
      simp [write, Connection.write, hq]] at hc

/-- A command with no form does nothing; any other is carried out under the next tag. -/
theorem call_did {command : Command} {r : Except Fault Response}
    (h : c.call command = (r, c')) :
    (∃ e, command.pieces = .error e ∧ r = .error (.encoding e) ∧ c' = c)
      ∨ ∃ pieces j, command.pieces = .ok pieces ∧ Did { c with issued := c.issued + 1 } j c'
        ∧ Settled c' ∧ Conducted (tag c.issued) (command == .logout)
          (Command.written (tag c.issued) pieces) [] c.connection.queued j r := by
  rcases hp : command.pieces with e | pieces <;> rw [call, hp] at h
  · obtain ⟨rfl, rfl⟩ := Prod.mk.inj h
    exact .inl ⟨e, rfl, rfl, rfl⟩
  · obtain ⟨j, hd, hs, hc⟩ := carryOut_did h
    exact .inr ⟨pieces, j, rfl, hd, hs, hc⟩

end Laws

end Client

end ImapProbe
