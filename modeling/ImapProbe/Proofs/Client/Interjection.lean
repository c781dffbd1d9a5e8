import ImapProbe.Proofs.Client.Future
import ImapProbe.Proofs.Session.Recording

/-!
# A client that hears one message more

Of two clients that send the same, the second may hear one message that the first does not
(`Shadows`). Where that message brings data of another name than FETCH and BYE, both stay so in
whatever they do, and every command is answered alike to both (`Shadows.call`).
-/

namespace ImapProbe

open Wire

/-- The parts of the data that tell of FETCH. -/
def fetched (data : List ServerData) : List Part :=
  (data.filter fun d => capitals d.name == capitals "FETCH").flatMap (·.parts)

theorem fetched_append (data data' : List ServerData) :
    fetched (data ++ data') = fetched data ++ fetched data' := by
  rw [fetched, List.filter_append, List.flatMap_append]
  rfl

namespace Client

/-- A message with data of another name than FETCH and BYE: it ends no wait, and tells a session
nothing. -/
structure Aside (x : Message) (d : ServerData) : Prop where
  read : x.read = .ok (.data d)
  other : capitals d.name ≠ capitals "FETCH"
  on : d.name ≠ "BYE"

/-- What comes of a wait for a client, and for one that heard more data. -/
inductive WaitAlike :
    Except Fault (List ServerData × Stop) → Except Fault (List ServerData × Stop) → Prop
  | fault (e : Fault) : WaitAlike (.error e) (.error e)
  | stop {data data' : List ServerData} (s : Stop) : fetched data' = fetched data →
      WaitAlike (.ok (data, s)) (.ok (data', s))

/-- The second client sends what the first does, and hears the same, or this message besides. -/
structure Shadows (x : Message) (c c' : Client) : Prop where
  sends : c.SendsAs c'
  future : Inserted 0 (.ok x) c.future c'.future

section Steps

variable {c c' c'' : Client}

theorem SendsAs.symm (h : c.SendsAs c') : c'.SendsAs c :=
  ⟨⟨h.output.1.symm, h.output.2.symm⟩, h.sent.symm, h.issued.symm⟩

theorem SendsAs.trans (h : c.SendsAs c') (h' : c'.SendsAs c'') : c.SendsAs c'' :=
  ⟨h.output.trans h'.output, h'.sent.trans h.sent, h'.issued.trans h.issued⟩

theorem nextReading_eq (c : Client) :
    c.nextReading = (c.nextMessage.1.bind (·.read.mapError .malformed), c.nextMessage.2) := by
  unfold nextReading
  rcases c.nextMessage with ⟨e | m, c₁⟩ <;> rfl

variable {x : Message}

theorem Shadows.write (h : Shadows x c c') (octets : Bytes) :
    Shadows x (c.write octets) (c'.write octets) := by
  obtain ⟨⟨⟨hq, hb⟩, hs, hi⟩, hf⟩ := h
  exact ⟨⟨⟨congrArg (· ++ octets) hq, hb⟩, hs, hi⟩, hf⟩

theorem Shadows.flush (h : Shadows x c c') :
    ∃ done c₁ c₁', c.flush = (done, c₁) ∧ c'.flush = (done, c₁') ∧ Shadows x c₁ c₁' := by
  obtain ⟨⟨⟨hq, hb⟩, hs, hi⟩, hf⟩ := h
  have ha : c'.connection.accepted = c.connection.accepted := by
    simp only [Connection.accepted, hq, hb]
  refine ⟨c.flush.1, c.flush.2, c'.flush.2, rfl, Prod.ext ?_ rfl, ⟨⟨?_, ?_⟩, ?_, hi⟩, hf⟩
  · simp only [Client.flush, Connection.flush, ha, hq]
  · simp only [Client.flush, Connection.flush, connection_note, ha, hq]
  · simp only [Client.flush, Connection.flush, connection_note, ha, hb]
  · have hd : Did c _ c.flush.2 := Did.flush rfl
    have hd' : Did c' _ c'.flush.2 := Did.flush rfl
    rw [hd.sent, hd'.sent, hs, ha]

/-- Both clients hear the same next, or the second one hears the message here. -/
theorem Shadows.nextMessage (h : Shadows x c c') :
    c'.nextMessage.1 = c.nextMessage.1 ∧ Shadows x c.nextMessage.2 c'.nextMessage.2
      ∨ c'.nextMessage.1 = .ok x ∧ c.SendsAs c'.nextMessage.2
        ∧ c'.nextMessage.2.future = c.future := by
  obtain ⟨h₁, h₂, h₃⟩ := nextMessage_future c
  obtain ⟨h₁', h₂', h₃'⟩ := nextMessage_future c'
  rcases h.future.step with ⟨hhead, htail⟩ | ⟨-, hhead, htail⟩
  · refine .inl ⟨by rw [h₁, h₁', hhead], h₃.symm.trans (h.sends.trans h₃'), ?_⟩
    rwa [h₂, h₂']
  · exact .inr ⟨by rw [h₁', hhead], h.sends.trans h₃', h₂'.trans htail⟩

/-- Where both clients hear the same next, they go on alike. -/
theorem nextMessage_of_future (hs : c.SendsAs c') (hf : c'.future = c.future) :
    c'.nextMessage.1 = c.nextMessage.1 ∧ Shadows x c.nextMessage.2 c'.nextMessage.2 := by
  obtain ⟨h₁, h₂, h₃⟩ := nextMessage_future c
  obtain ⟨h₁', h₂', h₃'⟩ := nextMessage_future c'
  exact ⟨by rw [h₁, h₁', hf], h₃.symm.trans (hs.trans h₃'), .inl (by rw [h₂, h₂', hf])⟩

end Steps

section Commands

variable {x : Message} {d : ServerData}

theorem Aside.fetched_concat (h : Aside x d) (data : List ServerData) :
    fetched (data ++ [d]) = fetched data := by
  have hd : fetched [d] = [] := by simp [fetched, h.other]
  rw [fetched_append, hd, List.append_nil]

/-- A client that hears the message goes on waiting as one that does not. -/
theorem Shadows.gather_aligned (haside : Aside x d) (leaving : Bool) {c c' : Client}
    (h : Shadows x c c') (data : List ServerData) :
    ∃ data' c'', gather leaving data c' = gather leaving data' c''
      ∧ fetched data' = fetched data ∧ c''.nextReading.1 = c.nextReading.1
      ∧ Shadows x c.nextReading.2 c''.nextReading.2 := by
  simp only [nextReading_eq]
  rcases h.nextMessage with ⟨hm, hs⟩ | ⟨hm, hs, hf⟩
  · exact ⟨data, c', rfl, rfl, by rw [hm], hs⟩
  · obtain ⟨hm', hs'⟩ := nextMessage_of_future (x := x) hs hf
    refine ⟨data ++ [d], c'.nextMessage.2, gather_of_data ?_ fun hb => haside.on hb.1,
      haside.fetched_concat data, by rw [hm'], hs'⟩
    rw [nextReading_eq, hm]
    simp only [Except.bind, haside.read]
    rfl

theorem gather_eq (leaving : Bool) (data : List ServerData) (c : Client) :
    gather leaving data c = match c.nextReading with
      | (.error e, c) => (.error e, c)
      | (.ok .goAhead, c) => (.ok (data, .goAhead), c)
      | (.ok (.completed tag completion), c) => (.ok (data, .completed tag completion), c)
      | (.ok (.data d), c) =>
        if d.name = "BYE" ∧ !leaving then (.error (.bye (linesText d.parts)), c)
        else gather leaving (data ++ [d]) c := by
  rw [gather.eq_def]
  split <;> simp_all

theorem Shadows.gather (haside : Aside x d) (leaving : Bool) {c c' : Client}
    {data data' : List ServerData} (h : Shadows x c c') (hdata : fetched data' = fetched data) :
    ∃ r r' c₁ c₁', Client.gather leaving data c = (r, c₁)
      ∧ Client.gather leaving data' c' = (r', c₁') ∧ WaitAlike r r' ∧ Shadows x c₁ c₁' := by
  obtain ⟨data'', c'', hg, hdata', hr, hs⟩ := h.gather_aligned haside leaving data'
  rw [hg, gather_eq leaving data'', gather_eq leaving data]
  rcases hn : c.nextReading with ⟨r, c₁⟩
  rcases hn' : c''.nextReading with ⟨r', c₁'⟩
  rw [hn, hn'] at hr hs
  obtain rfl : r' = r := hr
  rcases r' with e | _ | told | ⟨tag, completion⟩
  · exact ⟨_, _, _, _, rfl, rfl, .fault e, hs⟩
  · exact ⟨_, _, _, _, rfl, rfl, .stop _ (hdata'.trans hdata), hs⟩
  · simp only
    split
    · exact ⟨_, _, _, _, rfl, rfl, .fault _, hs⟩
    · have := bound_nextReading hn
      refine Shadows.gather haside leaving hs ?_
      rw [fetched_append, fetched_append, hdata', hdata]
  · exact ⟨_, _, _, _, rfl, rfl, .stop _ (hdata'.trans hdata), hs⟩
termination_by c.bound

theorem settle_alike {data data' : List ServerData} (h : fetched data' = fetched data)
    (tag got : String) (completion : Completion) :
    AnswerAlike (settle tag got completion data) (settle tag got completion data') := by
  unfold settle
  split
  · exact .response rfl h
  · exact .fault _

theorem Shadows.carryOut (haside : Aside x d) (tag : String) (leaving : Bool) :
    ∀ (fragments : List Fragment) {data data' : List ServerData} {c c' : Client},
      Shadows x c c' → fetched data' = fetched data →
      ∃ r r' c₁ c₁', Client.carryOut tag leaving fragments data c = (r, c₁)
        ∧ Client.carryOut tag leaving fragments data' c' = (r', c₁')
        ∧ AnswerAlike r r' ∧ Shadows x c₁ c₁'
  | [], data, data', c, c', h, hdata => by
    obtain ⟨done, c₁, c₁', hf, hf', h₁⟩ := h.flush
    simp only [Client.carryOut, hf, hf']
    rcases done with e | u
    · exact ⟨_, _, _, _, rfl, rfl, .fault e, h₁⟩
    obtain ⟨r, r', c₂, c₂', hg, hg', hr, h₂⟩ := h₁.gather haside leaving hdata
    simp only [hg, hg']
    cases hr with
    | fault e => exact ⟨_, _, _, _, rfl, rfl, .fault e, h₂⟩
    | stop s hd =>
      rcases s with _ | ⟨got, completion⟩
      · exact ⟨_, _, _, _, rfl, rfl, .fault _, h₂⟩
      · exact ⟨_, _, _, _, rfl, rfl, settle_alike hd tag got completion, h₂⟩
  | .line octets :: rest, data, data', c, c', h, hdata =>
    Shadows.carryOut haside tag leaving rest (h.write octets) hdata
  | .literal octets :: rest, data, data', c, c', h, hdata => by
    obtain ⟨done, c₁, c₁', hf, hf', h₁⟩ := h.flush
    simp only [Client.carryOut, hf, hf']
    rcases done with e | u
    · exact ⟨_, _, _, _, rfl, rfl, .fault e, h₁⟩
    obtain ⟨r, r', c₂, c₂', hg, hg', hr, h₂⟩ := h₁.gather haside leaving hdata
    simp only [hg, hg']
    cases hr with
    | fault e => exact ⟨_, _, _, _, rfl, rfl, .fault e, h₂⟩
    | stop s hd =>
      rcases s with _ | ⟨got, completion⟩
      · exact Shadows.carryOut haside tag leaving rest (h₂.write octets) hd
      · exact ⟨_, _, _, _, rfl, rfl, settle_alike hd tag got completion, h₂⟩

/-- A command is answered alike, and whatever comes of it the clients stay alike. -/
theorem Shadows.call (haside : Aside x d) (command : Command) {c c' : Client} (h : Shadows x c c') :
    AnswerAlike (c.call command).1 (c'.call command).1
      ∧ Shadows x (c.call command).2 (c'.call command).2 := by
  rcases hp : command.pieces with e | pieces
  · simp only [Client.call, hp]
    exact ⟨.fault _, h⟩
  · have hdrawn : Shadows x { c with issued := c.issued + 1 }
        { c' with issued := c.issued + 1 } := ⟨⟨h.sends.output, h.sends.sent, rfl⟩, h.future⟩
    obtain ⟨r, r', c₁, c₁', hc, hc', hr, h₁⟩ := hdrawn.carryOut haside (tag c.issued)
      (command == .logout) (Command.written (tag c.issued) pieces) (rfl : fetched [] = fetched [])
    simp only [Client.call, hp, h.sends.issued, hc, hc']
    exact ⟨hr, h₁⟩

end Commands

end Client

end ImapProbe
