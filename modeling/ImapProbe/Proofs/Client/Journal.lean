import ImapProbe.Client.Basic
import ImapProbe.Proofs.Framing

/-!
# What a client did

Whatever a client does keeps the books straight (`Did`): what it wrote is what it sent and what
is still in its queue, the log of its connection tells what it sent and received, what arrived is
gone from the script, and what it took are the messages framed in what arrived, in order.
-/

namespace ImapProbe

open Wire

namespace Journal

/-- What was put into the queue, write by write. -/
def writes (j : List Deed) : List Bytes :=
  j.filterMap fun
    | .wrote octets => some octets
    | _ => none

def written (j : List Deed) : Bytes := (writes j).flatten

def sent (j : List Deed) : Bytes :=
  j.flatMap fun
    | .flushed octets => octets
    | _ => []

def arrived (j : List Deed) : Bytes :=
  j.flatMap fun
    | .pulled (.ok octets) => octets
    | _ => []

def taken (j : List Deed) : List (Except Malformation Message) :=
  j.filterMap fun
    | .took found => some found
    | _ => none

/-- What went over the connection. -/
def transfers (j : List Deed) : List Transfer :=
  j.filterMap fun
    | .flushed octets => if octets.isEmpty then none else some (.sent octets)
    | .pulled (.ok octets) => some (.received octets)
    | _ => none

section Append

variable (j j' : List Deed)

@[simp] theorem writes_append : writes (j ++ j') = writes j ++ writes j' := List.filterMap_append

@[simp] theorem written_append : written (j ++ j') = written j ++ written j' := by
  simp [written]

@[simp] theorem sent_append : sent (j ++ j') = sent j ++ sent j' := List.flatMap_append

@[simp] theorem arrived_append : arrived (j ++ j') = arrived j ++ arrived j' :=
  List.flatMap_append

@[simp] theorem taken_append : taken (j ++ j') = taken j ++ taken j' := List.filterMap_append

@[simp] theorem transfers_append : transfers (j ++ j') = transfers j ++ transfers j' :=
  List.filterMap_append

end Append

section Cons

variable (octets : Bytes) (found : Except Malformation Message) (j : List Deed)

@[simp] theorem writes_nil : writes [] = [] := rfl

@[simp] theorem writes_wrote : writes (.wrote octets :: j) = octets :: writes j := rfl

@[simp] theorem writes_flushed : writes (.flushed octets :: j) = writes j := rfl

@[simp] theorem writes_took : writes (.took found :: j) = writes j := rfl

@[simp] theorem sent_nil : sent [] = [] := rfl

@[simp] theorem sent_wrote : sent (.wrote octets :: j) = sent j := rfl

@[simp] theorem sent_flushed : sent (.flushed octets :: j) = octets ++ sent j := rfl

@[simp] theorem sent_took : sent (.took found :: j) = sent j := rfl

@[simp] theorem taken_wrote : taken (.wrote octets :: j) = taken j := rfl

@[simp] theorem taken_flushed : taken (.flushed octets :: j) = taken j := rfl

end Cons

end Journal

/-- The octets a script brings: nothing arrives once it is silent. -/
def arriving : List Event → Bytes
  | [] => []
  | .chunk octets :: rest => octets ++ arriving rest
  | .failure _ :: rest => arriving rest
  | .stall :: _ => []

theorem Connection.accepted_append_drop (k : Connection) :
    k.accepted ++ k.queued.drop k.accepted.length = k.queued := by
  rw [accepted, List.length_take]
  rcases Nat.le_total (k.budget.getD k.queued.length) k.queued.length with h | h
  · rw [Nat.min_eq_left h, List.take_append_drop]
  · rw [Nat.min_eq_right h, List.take_of_length_le h, List.drop_length, List.append_nil]

theorem Connection.pull_spec {k k' : Connection} {found : Except Fault Bytes}
    (h : k.pull = (found, k')) :
    k'.queued = k.queued ∧ k'.budget = k.budget
      ∧ k'.log = k.log ++ Journal.transfers [.pulled found]
      ∧ arriving k.script = Journal.arrived [.pulled found] ++ arriving k'.script := by
  fun_induction Connection.pull k with
  | case1 | case2 | case3 =>
    simp only [Prod.mk.injEq] at h
    obtain ⟨rfl, rfl⟩ := h
    simp [Journal.transfers, Journal.arrived, arriving]
  | case4 timeout budget queued log rest ih =>
    simpa [arriving] using ih h
  | case5 =>
    simp only [Prod.mk.injEq] at h
    obtain ⟨rfl, rfl⟩ := h
    simp [Journal.transfers, Journal.arrived, arriving]

/-- The deeds that led from one state of a client to another. -/
structure Did (c : Client) (j : List Deed) (c' : Client) : Prop where
  journal : c'.journal = c.journal ++ j
  issued : c'.issued = c.issued
  queue : Journal.sent j ++ c'.connection.queued = c.connection.queued ++ Journal.written j
  log : c'.connection.log = c.connection.log ++ Journal.transfers j
  budget : ∀ b, c.connection.budget = some b →
    ∃ b', c'.connection.budget = some b' ∧ (Journal.sent j).length + b' = b
  script : arriving c.connection.script = Journal.arrived j ++ arriving c'.connection.script
  frames : ∀ more, Assembler.Gives (c.assembler.feed (Journal.arrived j ++ more)) (Journal.taken j)
    (c'.assembler.feed more)

namespace Did

variable {c c₁ c₂ : Client} {j j₁ j₂ : List Deed}

theorem trans (h₁ : Did c j₁ c₁) (h₂ : Did c₁ j₂ c₂) : Did c (j₁ ++ j₂) c₂ where
  journal := by rw [h₂.journal, h₁.journal, List.append_assoc]
  issued := h₂.issued.trans h₁.issued
  queue := by
    rw [Journal.sent_append, List.append_assoc, h₂.queue, ← List.append_assoc, h₁.queue,
      Journal.written_append, List.append_assoc]
  log := by rw [h₂.log, h₁.log, Journal.transfers_append, List.append_assoc]
  budget b h := by
    obtain ⟨b₁, hb₁, h₁⟩ := h₁.budget b h
    obtain ⟨b₂, hb₂, h₂⟩ := h₂.budget b₁ hb₁
    refine ⟨b₂, hb₂, ?_⟩
    rw [Journal.sent_append, List.length_append]
    omega
  script := by rw [h₁.script, h₂.script, Journal.arrived_append, List.append_assoc]
  frames more := by
    rw [Journal.arrived_append, Journal.taken_append, List.append_assoc]
    exact (h₁.frames _).trans (h₂.frames more)

theorem write (octets : Bytes) (c : Client) : Did c [.wrote octets] (c.write octets) where
  journal := rfl
  issued := rfl
  queue := by simp [Client.write, Connection.write, Journal.sent, Journal.written, Journal.writes]
  log := by simp [Client.write, Connection.write, Journal.transfers]
  budget b h := ⟨b, h, Nat.zero_add b⟩
  script := rfl
  frames _ := .refl _

theorem flush {done : Except Fault Unit} (h : c.flush = (done, c₁)) :
    Did c [.flushed c.connection.accepted] c₁ := by
  simp only [Client.flush, Prod.mk.injEq] at h
  obtain ⟨-, rfl⟩ := h
  refine ⟨rfl, rfl, ?_, ?_, fun b h => ⟨b - c.connection.accepted.length, ?_, ?_⟩, rfl,
    fun _ => .refl _⟩
  · simp [Journal.sent, Journal.written, Journal.writes, Connection.flush,
      Connection.accepted_append_drop]
  · by_cases he : c.connection.accepted = [] <;>
      simp [Journal.transfers, Connection.flush, he]
  · simp [Connection.flush, h]
  · have hle : c.connection.accepted.length ≤ b := by
      rw [Connection.accepted, h, Option.getD_some, List.length_take]
      exact Nat.min_le_left _ _
    simp only [Journal.sent, List.flatMap_cons, List.flatMap_nil, List.append_nil]
    omega

end Did

end ImapProbe
