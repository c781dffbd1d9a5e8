import ImapProbe.Network.Switchboard
import ImapProbe.Proofs.Client.Sending
import ImapProbe.Proofs.Schedule
import Mathlib.Data.Stream.Init

/-!
# What a client is still to hear

What a client hears from now on, message after message and fault after fault, depends on what its
assembler holds and on the events to come (`nextMessage_future`), and not on the portions in which
the octets arrive (`future_spread`). A message that stands between two others is heard between
them, and all the rest as without it (`future_inserted`).
-/

namespace ImapProbe

open Wire

/-- The second stream is the first, or the first with one more element behind `n` others at
least. -/
def Inserted {α : Type} (n : Nat) (x : α) (f g : Stream' α) : Prop :=
  g = f ∨ ∃ front rest, n ≤ front.length ∧ f = front ++ₛ rest ∧ g = front ++ₛ Stream'.cons x rest

namespace Inserted

variable {α : Type} {n k : Nat} {x : α} {f g : Stream' α}

theorem refl (n : Nat) (x : α) (f : Stream' α) : Inserted n x f f := .inl rfl

theorem cons (y : α) :
    Inserted n x f g → Inserted (n + 1) x (Stream'.cons y f) (Stream'.cons y g)
  | .inl h => .inl (by rw [h])
  | .inr ⟨front, rest, hn, hf, hg⟩ =>
    .inr ⟨y :: front, rest, Nat.succ_le_succ hn, by rw [hf, Stream'.cons_append_stream],
      by rw [hg, Stream'.cons_append_stream]⟩

theorem mono (hk : k ≤ n) : Inserted n x f g → Inserted k x f g
  | .inl h => .inl h
  | .inr ⟨front, rest, hn, h⟩ => .inr ⟨front, rest, Nat.le_trans hk hn, h⟩

/-- Either both streams go on alike, or the second has the element here and then all of the
first. -/
theorem step : Inserted n x f g →
    g.head = f.head ∧ Inserted (n - 1) x f.tail g.tail ∨ n = 0 ∧ g.head = x ∧ g.tail = f
  | .inl h => .inl (by rw [h]; exact ⟨rfl, .refl ..⟩)
  | .inr ⟨[], rest, hn, hf, hg⟩ =>
    .inr ⟨Nat.le_zero.1 hn, by rw [hg]; rfl, by rw [hg, hf]; rfl⟩
  | .inr ⟨y :: front, rest, hn, hf, hg⟩ =>
    .inl ⟨by rw [hg, hf]; rfl, .inr ⟨front, rest, Nat.sub_le_of_le_add hn, by rw [hf]; rfl,
      by rw [hg]; rfl⟩⟩

end Inserted

/-- Events octet by octet. -/
def spread (script : List Event) : List Event :=
  script.flatMap fun
    | .chunk octets => octets.map fun b => .chunk [b]
    | e => [e]

/-- What is heard next, what the assembler is then, and the events still to come. -/
def hear (timeout : Duration) (a : Assembler) (script : List Event) :
    Except Fault Message × Assembler × List Event :=
  match a.next with
  | (some r, a) => (r.mapError .malformed, a, script)
  | (none, a) =>
    match script with
    | [] => (.error .closed, a, [])
    | .stall :: rest => (.error (.timeout timeout), a, .stall :: rest)
    | .failure cause :: rest => (.error (.io cause), a, rest)
    | .chunk octets :: rest => hear timeout (a.feed octets) rest

/-- All that is heard, one after another. -/
def future (timeout : Duration) (a : Assembler) (script : List Event) :
    Stream' (Except Fault Message) :=
  Stream'.corec' (fun i => hear timeout i.1 i.2) (a, script)

section Futures

variable (timeout : Duration) {a a' : Assembler} {script script' : List Event}

theorem future_eq (a : Assembler) (script : List Event) :
    future timeout a script = Stream'.cons (hear timeout a script).1
      (future timeout (hear timeout a script).2.1 (hear timeout a script).2.2) :=
  Stream'.corec'_eq _ _

theorem hear_of_some {r : Except Malformation Message} (h : a.next = (some r, a')) :
    hear timeout a script = (r.mapError .malformed, a', script) := by
  rw [hear.eq_def, h]

theorem hear_of_none (h : a.next = (none, a')) :
    hear timeout a script = match script with
      | [] => (.error .closed, a', [])
      | .stall :: rest => (.error (.timeout timeout), a', .stall :: rest)
      | .failure cause :: rest => (.error (.io cause), a', rest)
      | .chunk octets :: rest => hear timeout (a'.feed octets) rest := by
  rw [hear.eq_def, h]

theorem future_of_some {r : Except Malformation Message} (h : a.next = (some r, a'))
    (script : List Event) :
    future timeout a script = Stream'.cons (r.mapError .malformed) (future timeout a' script) := by
  rw [future_eq, hear_of_some timeout h]

/-- It is the next results of the assembler that count. -/
theorem future_congr (h : a.next = a'.next) (script : List Event) :
    future timeout a script = future timeout a' script := by
  rw [future_eq, future_eq timeout a', hear.eq_def, hear.eq_def timeout a', h]

/-- Octets may be fed before the assembler is asked. -/
theorem future_chunk (octets : Bytes) (script : List Event) :
    ∀ a : Assembler, future timeout a (.chunk octets :: script)
      = future timeout (a.feed octets) script
  | a => by
    rcases h : a.next with ⟨_ | r, a'⟩
    · rw [future_eq, hear_of_none timeout h, ← future_eq]
      exact future_congr timeout (Assembler.next_feed_none h octets).symm script
    · have := Assembler.effort_lt_of_next h
      rw [future_of_some timeout h, future_chunk octets script a',
        future_of_some timeout (Assembler.next_feed h octets)]
termination_by a => a.cutter.effort

theorem future_failure (cause : IoFault) (h : a.next = (none, a')) (script : List Event) :
    future timeout a (.failure cause :: script)
      = Stream'.cons (.error (.io cause)) (future timeout a' script) := by
  rw [future_eq, hear_of_none timeout h]

theorem exists_future_stall (a : Assembler) :
    ∃ r a', ∀ script, future timeout a (.stall :: script)
      = Stream'.cons r (future timeout a' (.stall :: script)) := by
  rcases h : a.next with ⟨_ | r, a'⟩
  · exact ⟨_, a', fun script => by rw [future_eq, hear_of_none timeout h]⟩
  · exact ⟨_, a', fun script => future_of_some timeout h _⟩

/-- Nothing is heard behind a silence. -/
theorem future_stall (a : Assembler) (script script' : List Event) :
    future timeout a (.stall :: script) = future timeout a (.stall :: script') := by
  refine Stream'.ext fun n => ?_
  induction n generalizing a with
  | zero =>
    obtain ⟨r, a', h⟩ := exists_future_stall timeout a
    rw [h, h]
    rfl
  | succ n ih =>
    obtain ⟨r, a', h⟩ := exists_future_stall timeout a
    rw [h, h]
    exact ih a'

theorem future_failure_congr (cause : IoFault)
    (h : ∀ a, future timeout a script = future timeout a script') :
    ∀ a : Assembler, future timeout a (.failure cause :: script)
      = future timeout a (.failure cause :: script')
  | a => by
    rcases hn : a.next with ⟨_ | r, a'⟩
    · rw [future_failure timeout cause hn, future_failure timeout cause hn, h]
    · have := Assembler.effort_lt_of_next hn
      rw [future_of_some timeout hn, future_of_some timeout hn, future_failure_congr cause h a']
termination_by a => a.cutter.effort

theorem future_octets (script : List Event) :
    ∀ (octets : Bytes) (a : Assembler),
      future timeout a (octets.map (fun b => .chunk [b]) ++ script)
        = future timeout (a.feed octets) script
  | [], a => by rw [Assembler.feed_nil]; rfl
  | b :: octets, a => by
    rw [List.map_cons, List.cons_append, future_chunk, future_octets script octets,
      Assembler.feed_feed]
    rfl

/-- The portions in which octets arrive make no difference. -/
theorem future_spread :
    ∀ (script : List Event) (a : Assembler),
      future timeout a (spread script) = future timeout a script
  | [], _ => rfl
  | .chunk octets :: script, a => by
    rw [future_chunk, ← future_spread script]
    exact future_octets timeout (spread script) octets a
  | .failure cause :: script, a => future_failure_congr timeout cause (future_spread script) a
  | .stall :: script, a => future_stall timeout a (spread script) script

end Futures

section Insertion

open Assembler (idle Gives)

variable (timeout : Duration) {limit : Nat} {u : Utterance} (hu : u.octets.length ≤ limit)
  {earlier later : List Event}

include hu

/-- Between two messages one more is heard, and then what is heard without it. -/
theorem future_utterance (later : List Event) :
    ∀ {rs : List (Except Malformation Message)} {a : Assembler}, Gives a rs (idle limit {}) →
      Inserted rs.length (.ok u.message) (future timeout a later)
        (future timeout (a.feed u.octets) later)
  | [], a, .here h => by
    have hidle : (idle limit {}).next = (none, idle limit {}) := Assembler.next_of_none rfl
    have hnext := Assembler.next_utterance limit u []
    rw [Utterance.result, if_pos hu, List.append_nil] at hnext
    refine .inr ⟨[], future timeout a later, Nat.le_refl _, rfl, ?_⟩
    rw [future_congr timeout h]
    exact future_of_some timeout
      ((Assembler.next_feed_none (h.trans hidle) u.octets).trans hnext) later
  | r :: rs, a, .result h g => by
    rw [future_of_some timeout h, future_of_some timeout (Assembler.next_feed h u.octets)]
    exact (future_utterance later g).cons _

omit hu in
theorem future_failure_inserted {x : Except Fault Message} (cause : IoFault)
    {script script' : List Event} {bytes : Bytes}
    (h : ∀ {rs : List (Except Malformation Message)} {a : Assembler},
      Gives (a.feed bytes) rs (idle limit {}) →
        Inserted rs.length x (future timeout a script) (future timeout a script')) :
    ∀ {rs : List (Except Malformation Message)} (a : Assembler),
      Gives (a.feed bytes) rs (idle limit {}) →
        Inserted rs.length x (future timeout a (.failure cause :: script))
          (future timeout a (.failure cause :: script'))
  | rs, a, g => by
    rcases hn : a.next with ⟨_ | r, a'⟩
    · rw [future_failure timeout cause hn, future_failure timeout cause hn]
      have g' : Gives (a'.feed bytes) rs (idle limit {}) :=
        (Gives.here (Assembler.next_feed_none hn bytes).symm).trans g
      exact ((h g').cons _).mono (Nat.le_succ _)
    · have := Assembler.effort_lt_of_next hn
      have hfeed := Assembler.next_feed hn bytes
      rw [future_of_some timeout hn, future_of_some timeout hn]
      cases g with
      | here hidle =>
        rw [hfeed, Assembler.next_of_none (a := idle limit {}) rfl] at hidle
        simp at hidle
      | result h' g =>
        rw [hfeed] at h'
        obtain ⟨-, rfl⟩ := Prod.mk.inj h'
        exact (future_failure_inserted cause h a' g).cons _
termination_by _ a => a.cutter.effort

omit hu in
theorem gives_utterances_of_idle :
    ∀ said : List Utterance, Gives ((idle limit {}).feed (said.flatMap Utterance.octets))
      (said.map (Utterance.result limit)) (idle limit {})
  | [] => .refl _
  | v :: said => by
    rw [List.flatMap_cons, List.map_cons]
    exact .result (Assembler.next_utterance limit v _) (gives_utterances_of_idle said)

/-- Behind octets that frame to whole messages one more message is heard between two others. -/
theorem future_inserted :
    ∀ (earlier : List Event) {rs : List (Except Malformation Message)} {a : Assembler},
      Gives (a.feed (arriving earlier)) rs (idle limit {}) →
      Inserted rs.length (.ok u.message) (future timeout a (earlier ++ later))
        (future timeout a (earlier ++ (u.octets.map (fun b => .chunk [b]) ++ later)))
  | [], rs, a, g => by
    rw [arriving, Assembler.feed_nil] at g
    rw [List.nil_append, List.nil_append, future_octets]
    exact future_utterance timeout hu later g
  | .chunk octets :: earlier, rs, a, g => by
    rw [arriving, ← Assembler.feed_feed] at g
    rw [List.cons_append, List.cons_append, future_chunk, future_chunk]
    exact future_inserted earlier g
  | .stall :: earlier, rs, a, _ =>
    .inl (future_stall timeout a _ _)
  | .failure cause :: earlier, rs, a, g =>
    future_failure_inserted timeout cause (future_inserted earlier) a g

end Insertion

theorem Connection.timeout_pull (k : Connection) : k.pull.2.timeout = k.timeout := by
  fun_induction Connection.pull k with
  | case4 timeout budget queued log rest ih => exact ih
  | case1 | case2 | case3 | case5 => rfl

/-- One pull takes what is heard next from the script, or octets that come before it. -/
theorem hear_pull (k : Connection) {a a' : Assembler} (h : a.next = (none, a')) :
    hear k.timeout a k.script = match k.pull with
      | (.error e, k') => (.error e, a', k'.script)
      | (.ok octets, k') => hear k.timeout (a'.feed octets) k'.script := by
  rw [hear_of_none _ h]
  fun_induction Connection.pull k with
  | case4 timeout budget queued log rest ih =>
    simp only [Assembler.feed_nil]
    rw [hear_of_none _ (Assembler.next_of_next_none h)]
    exact ih
  | case1 | case2 | case3 | case5 => rfl

/-- A client has sent and is to send what another has and is. -/
structure Client.SendsAs (c c' : Client) : Prop where
  output : SameOutput c c'
  sent : Switchboard.sent c'.connection = Switchboard.sent c.connection
  issued : c'.issued = c.issued

theorem Did.sent {c c' : Client} {j : List Deed} (h : Did c j c') :
    Switchboard.sent c'.connection = Switchboard.sent c.connection ++ Journal.sent j := by
  rw [Switchboard.sent, h.log, List.flatMap_append]
  refine congrArg (Switchboard.sent c.connection ++ ·) ?_
  clear h
  induction j with
  | nil => rfl
  | cons d j ih =>
    rw [← List.singleton_append, Journal.transfers_append, Journal.sent_append,
      List.flatMap_append, ih]
    refine congrArg (· ++ Journal.sent j) ?_
    rcases d with octets | (_ | _) | (_ | _) | found <;> rfl

namespace Client

variable {c c' : Client}

/-- All that a client is still to hear. -/
def future (c : Client) : Stream' (Except Fault Message) :=
  ImapProbe.future c.connection.timeout c.assembler c.connection.script

theorem nextMessage_hear (c : Client) :
    hear c.connection.timeout c.assembler c.connection.script
      = (c.nextMessage.1, c.nextMessage.2.assembler, c.nextMessage.2.connection.script)
      ∧ c.nextMessage.2.connection.timeout = c.connection.timeout := by
  fun_induction nextMessage c with
  | case1 c m a ha | case2 c e a ha => exact ⟨hear_of_some _ ha, rfl⟩
  | case3 c a ha e k hk =>
    have htimeout := c.connection.timeout_pull
    rw [hear_pull c.connection ha, hk]
    rw [hk] at htimeout
    exact ⟨rfl, htimeout⟩
  | case4 c a ha octets k hk ih =>
    have htimeout := c.connection.timeout_pull
    rw [hear_pull c.connection ha, hk]
    rw [hk] at htimeout
    simp only [connection_note, assembler_note] at ih htimeout
    rw [htimeout] at ih
    exact ih

/-- A client takes what it is to hear next, and is to hear the rest. -/
theorem nextMessage_future (c : Client) :
    c.nextMessage.1 = c.future.head ∧ c.nextMessage.2.future = c.future.tail
      ∧ c.SendsAs c.nextMessage.2 := by
  obtain ⟨hhear, htimeout⟩ := nextMessage_hear c
  obtain ⟨j, hd, hs, hf⟩ := nextMessage_did (c := c) rfl
  have heq : c.future = Stream'.cons c.nextMessage.1 c.nextMessage.2.future := by
    rw [future, future_eq, hhear, ← htimeout]
    rfl
  exact ⟨by rw [heq]; rfl, by rw [heq]; rfl, hs, by rw [hd.sent, hf.quiet.2, List.append_nil],
    hd.issued⟩

end Client

end ImapProbe
