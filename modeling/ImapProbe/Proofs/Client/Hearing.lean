import ImapProbe.Proofs.Client.Journal
import ImapProbe.Proofs.Utterance

/-!
# Utterances that a client hears

A client that has a stream of octets before it (`Ahead`), partly read and partly in the portions
that arrive next, takes the utterances of the stream one after another, wherever the portions end:
one message (`nextMessage_hears`), then all data up to the message that stops the wait
(`gather_hears`).
-/

namespace ImapProbe

open Wire

/-- The first portion that is not empty is what a pull finds. -/
theorem Connection.pull_chunks {rest : List Event} :
    ∀ (chunks : List Bytes) (k : Connection), k.script = chunks.map .chunk ++ rest →
      chunks.flatten ≠ [] →
      ∃ (octets : Bytes) (chunks' : List Bytes) (k' : Connection), k.pull = (.ok octets, k')
        ∧ k'.script = chunks'.map .chunk ++ rest
        ∧ chunks.flatten = octets ++ chunks'.flatten ∧ chunks'.length < chunks.length
  | [], _, _, h => absurd rfl h
  | [] :: chunks, ⟨script, timeout, budget, queued, log⟩, hk, h => by
    obtain rfl : script = .chunk [] :: (chunks.map Event.chunk ++ rest) := hk
    obtain ⟨octets, chunks', k', hp, hs, hf, hl⟩ :=
      pull_chunks chunks ⟨chunks.map .chunk ++ rest, timeout, budget, queued, log⟩ rfl h
    refine ⟨octets, chunks', k', ?_, hs, hf, Nat.lt_succ_of_lt hl⟩
    rw [Connection.pull, hp]
  | (b :: bs) :: chunks, ⟨script, timeout, budget, queued, log⟩, hk, _ => by
    obtain rfl : script = .chunk (b :: bs) :: (chunks.map Event.chunk ++ rest) := hk
    exact ⟨b :: bs, chunks, _, by rw [Connection.pull], rfl, rfl, Nat.lt_succ_self _⟩

theorem arriving_chunks (rest : List Event) :
    ∀ chunks : List Bytes, arriving (chunks.map .chunk ++ rest) = chunks.flatten ++ arriving rest
  | [] => rfl
  | octets :: chunks => by
    rw [List.map_cons, List.cons_append, arriving, arriving_chunks rest chunks, List.flatten_cons,
      List.append_assoc]

namespace Client

/-- The octets that a client is to read next, and the portions in which they arrive; more events
may follow. -/
structure Ahead (c : Client) (chunks : List Bytes) (rest : List Event) (stream : Bytes) : Prop where
  script : c.connection.script = chunks.map .chunk ++ rest
  next : (c.assembler.feed chunks.flatten).next
    = (Assembler.idle greatestMessage { unread := stream }).next

section Equations

variable {c c' : Client} {a : Assembler} {k : Connection}

theorem nextMessage_of_next {m : Message} (h : c.assembler.next = (some (.ok m), a)) :
    c.nextMessage = (.ok m, { c with assembler := a }.note (.took (.ok m))) := by
  rw [nextMessage.eq_def]
  split <;> simp_all

theorem nextMessage_of_pull {octets : Bytes} (h : c.assembler.next = (none, a))
    (hk : c.connection.pull = (.ok octets, k)) :
    c.nextMessage = ({ c with assembler := a.feed octets, connection := k }.note
      (.pulled (.ok octets))).nextMessage := by
  rw [nextMessage.eq_def]
  split <;> rename_i h' <;> rw [h] at h'
  · simp at h'
  · simp at h'
  · obtain rfl := (Prod.mk.inj h').2
    split <;> rename_i hk' <;> rw [hk] at hk' <;> simp_all

theorem gather_of_data {leaving : Bool} {data : List ServerData} {d : ServerData}
    (h : c.nextReading = (.ok (.data d), c')) (hbye : ¬ (d.name = "BYE" ∧ !leaving)) :
    gather leaving data c = gather leaving (data ++ [d]) c' := by
  rw [gather.eq_def]
  split <;> rename_i h' <;> rw [h] at h' <;> simp_all

theorem gather_of_completed {leaving : Bool} {data : List ServerData} {tag : String}
    {completion : Completion} (h : c.nextReading = (.ok (.completed tag completion), c')) :
    gather leaving data c = (.ok (data, .completed tag completion), c') := by
  rw [gather.eq_def]
  split <;> rename_i h' <;> rw [h] at h' <;> simp_all

end Equations

section Utterances

variable {rest : List Event} {stream : Bytes} {u : Utterance}

/-- However the stream is cut, the client takes the utterance it begins with: as long as that is
not complete, some portion is still to come. -/
theorem nextMessage_hears (hu : u.octets.length ≤ greatestMessage) (chunks : List Bytes)
    (c : Client) (h : Ahead c chunks rest (u.octets ++ stream)) :
    ∃ chunks' c', c.nextMessage = (.ok u.message, c') ∧ Ahead c' chunks' rest stream := by
  have hnext := h.next
  rw [Assembler.next_utterance, Utterance.result, if_pos hu] at hnext
  rcases hn : c.assembler.next with ⟨_ | r, a⟩
  · have hne : chunks.flatten ≠ [] := fun he => by
      rw [he, Assembler.feed_nil, hn] at hnext
      simp at hnext
    obtain ⟨octets, chunks', k, hp, hs, hf, hlt⟩ := Connection.pull_chunks chunks _ h.script hne
    rw [nextMessage_of_pull hn hp]
    refine nextMessage_hears hu chunks' _ ⟨hs, ?_⟩
    have hfeed := Assembler.next_feed_none hn chunks.flatten
    rw [h.next, hf, ← Assembler.feed_feed] at hfeed
    exact hfeed.symm
  · have hfeed := Assembler.next_feed hn chunks.flatten
    rw [hnext] at hfeed
    obtain ⟨hr, ha⟩ := Prod.mk.inj hfeed
    obtain rfl := Option.some.inj hr
    exact ⟨chunks, _, nextMessage_of_next hn, h.script, congrArg Assembler.next ha.symm⟩
termination_by chunks.length

theorem nextReading_hears {reading : Reading} (hu : u.octets.length ≤ greatestMessage)
    (hr : u.message.read = .ok reading) {chunks : List Bytes} {c : Client}
    (h : Ahead c chunks rest (u.octets ++ stream)) :
    ∃ chunks' c', c.nextReading = (.ok reading, c') ∧ Ahead c' chunks' rest stream := by
  obtain ⟨chunks', c', hm, h'⟩ := nextMessage_hears hu chunks c h
  exact ⟨chunks', c', by simp only [nextReading, hm, hr]; rfl, h'⟩

/-- Data are gathered in order, and the wait goes on behind them. -/
theorem gather_hears (leaving : Bool) (datum : Utterance → ServerData) :
    ∀ (said : List Utterance) (data : List ServerData) {chunks : List Bytes} {c : Client},
      (∀ u ∈ said, u.octets.length ≤ greatestMessage ∧ u.message.read = .ok (.data (datum u))
        ∧ ¬ ((datum u).name = "BYE" ∧ !leaving)) →
      Ahead c chunks rest (said.flatMap Utterance.octets ++ stream) →
      ∃ chunks' c', gather leaving data c = gather leaving (data ++ said.map datum) c'
        ∧ Ahead c' chunks' rest stream
  | [], data, chunks, c, _, h => ⟨chunks, c, by simp, h⟩
  | u :: said, data, chunks, c, hall, h => by
    obtain ⟨hu, hr, hbye⟩ := hall u (List.mem_cons_self ..)
    rw [List.flatMap_cons, List.append_assoc] at h
    obtain ⟨chunks₁, c₁, hn, h₁⟩ := nextReading_hears hu hr h
    obtain ⟨chunks', c', hg, h'⟩ := gather_hears leaving datum said (data ++ [datum u])
      (fun v hv => hall v (List.mem_cons_of_mem _ hv)) h₁
    refine ⟨chunks', c', ?_, h'⟩
    rw [gather_of_data hn hbye, hg, List.map_cons, List.append_assoc, List.singleton_append]

end Utterances

end Client

end ImapProbe
