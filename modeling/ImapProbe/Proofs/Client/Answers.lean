import ImapProbe.Proofs.Client.Turns
import Mathlib.Data.List.Nodup

/-!
# Which messages answer a command

The messages consumed during a turn decide its answer: a message that stops a wait, or ends the
session, decides what comes of the wait (`Heard.verdict`), and so of the command
(`Conducted.response`, `Conducted.ends`, `Conducted.goAheads_le`). As long as the counter does not
run over, no two commands of a run have one tag (`tag_injective`, `nodup_tags`), and no message is
consumed twice (`turns_answered`).
-/

namespace ImapProbe

open Wire

namespace Client

section Readings

/-- What a message means; nothing when it was refused or cannot be read. -/
def reading? : Except Malformation Message → Option Reading
  | .ok m => m.read.toOption
  | .error _ => none

def data? : Reading → Option ServerData
  | .data d => some d
  | _ => none

def untagged (share : List (Except Malformation Message)) : List ServerData :=
  (share.filterMap reading?).filterMap data?

def goAheads (share : List (Except Malformation Message)) : Nat :=
  (share.filterMap reading?).count .goAhead

@[simp] theorem untagged_append (share share' : List (Except Malformation Message)) :
    untagged (share ++ share') = untagged share ++ untagged share' := by
  simp [untagged]

@[simp] theorem goAheads_append (share share' : List (Except Malformation Message)) :
    goAheads (share ++ share') = goAheads share + goAheads share' := by
  simp [goAheads]

def literals (fragments : List Fragment) : Nat :=
  fragments.countP fun
    | .line _ => false
    | .literal _ => true

/-- What a reading makes of a wait, if it ends it. -/
def verdict (leaving : Bool) : Reading → Option (Except Fault Stop)
  | .goAhead => some (.ok .goAhead)
  | .completed tag completion => some (.ok (.completed tag completion))
  | .data d =>
    if Farewell leaving d then some (.error (.bye (linesText d.parts))) else none

theorem reading?_of_read {m : Message} {reading : Reading} (h : m.read = .ok reading) :
    reading? (.ok m) = some reading := by
  rw [reading?, h, Except.toOption]

end Readings

section Waits

variable {leaving : Bool} {j : List Deed} {ds : List ServerData}

theorem Fetched.reading?_error {e : Fault} :
    ∀ {j : List Deed}, Fetched j (.error e) → ∀ f ∈ Journal.taken j, reading? f = none
  | _, .pulled h, f, hf => h.reading?_error f hf
  | _, .silence _, f, hf => by simp [Journal.taken] at hf
  | _, .refused _, f, hf => by
    obtain rfl : f = .error _ := by simpa [Journal.taken] using hf
    rfl

theorem Heard.verdict {r : Except Fault Stop} (h : Heard leaving j ds r) :
    ∀ f ∈ Journal.taken j, ∀ reading v, reading? f = some reading →
      verdict leaving reading = some v → r = v := by
  induction h with
  | fault hf =>
    intro f hm reading v hr
    rw [hf.reading?_error f hm] at hr
    simp at hr
  | unreadable hf hread =>
    intro f hm reading v hr
    obtain rfl : f = .ok _ := by simpa [hf.taken_ok] using hm
    simp [reading?, hread, Except.toOption] at hr
  | @stop j m s hf hread =>
    intro f hm reading v hr hv
    obtain rfl : f = .ok _ := by simpa [hf.taken_ok] using hm
    rw [reading?_of_read hread] at hr
    obtain rfl := Option.some.inj hr
    rcases s with _ | ⟨got, completion⟩ <;> exact Option.some.inj hv
  | bye hf hread hbye =>
    intro f hm reading v hr hv
    obtain rfl : f = .ok _ := by simpa [hf.taken_ok] using hm
    rw [reading?_of_read hread] at hr
    obtain rfl := Option.some.inj hr
    rw [Client.verdict, if_pos hbye] at hv
    exact Option.some.inj hv
  | data hf hread hbye _ ih =>
    intro f hm reading v hr hv
    rw [Journal.taken_append, hf.taken_ok] at hm
    rcases List.mem_append.mp hm with hm | hm
    · obtain rfl : f = .ok _ := by simpa using hm
      rw [reading?_of_read hread] at hr
      obtain rfl := Option.some.inj hr
      rw [Client.verdict, if_neg hbye] at hv
      simp at hv
    · exact ih f hm reading v hr hv

/-- A wait that a message stops consumes the data met, and that message last. -/
theorem Heard.taken_ok {s : Stop} (h : Heard leaving j ds (.ok s)) :
    ∃ said m, Journal.taken j = said ++ [.ok m] ∧ m.read = .ok s.reading
      ∧ said.filterMap reading? = ds.map .data := by
  generalize hr : Except.ok s = r at h
  induction h with
  | fault | unreadable | bye => simp at hr
  | stop hf hread =>
    obtain rfl := Except.ok.inj hr
    exact ⟨[], _, hf.taken_ok, hread, rfl⟩
  | @data _ _ m d ds r hf hread _ _ ih =>
    obtain ⟨said, m', ht, hm, hs⟩ := ih hr
    refine ⟨.ok m :: said, m', ?_, hm, ?_⟩
    · rw [Journal.taken_append, hf.taken_ok, ht]
      rfl
    · rw [List.filterMap_cons, reading?_of_read hread, hs, List.map_cons]

end Waits

section Commands

variable {tag : String} {leaving : Bool} {fragments : List Fragment} {data : List ServerData}
  {queue : Bytes} {j : List Deed} {r : Except Fault Response}

theorem settle_ok {got : String} {completion : Completion} {response : Response}
    (h : settle tag got completion data = .ok response) :
    got = tag ∧ response = ⟨completion, data⟩ := by
  unfold settle at h
  split at h
  · exact ⟨‹_›, (Except.ok.inj h).symm⟩
  · simp at h

/-- What comes of a command when a wait came to this. -/
def Ends (tag : String) (r : Except Fault Response) : Except Fault Stop → Prop
  | .error e => r = .error e
  | .ok (.completed got completion) => ∃ data, r = settle tag got completion data
  | .ok .goAhead => True

theorem Conducted.ends (h : Conducted tag leaving fragments data queue j r) :
    ∀ f ∈ Journal.taken j, ∀ reading v, reading? f = some reading →
      verdict leaving reading = some v → Ends tag r v := by
  induction h with
  | line _ ih => exact ih
  | broken => simp [Journal.taken]
  | asked hh _ ih =>
    intro f hf reading v hr hv
    rcases List.mem_append.mp (by simpa using hf) with hf | hf
    · rw [← hh.verdict f hf reading v hr hv]
      trivial
    · exact ih f hf reading v hr hv
  | failed _ hh =>
    intro f hf reading v hr hv
    rw [← hh.verdict f hf reading v hr hv]
    rfl
  | answered _ hh =>
    intro f hf reading v hr hv
    rw [← hh.verdict f hf reading v hr hv]
    exact ⟨_, rfl⟩
  | stray hh =>
    intro f hf reading v hr hv
    rw [← hh.verdict f hf reading v hr hv]
    trivial

theorem untagged_eq {said : List (Except Malformation Message)} {ds : List ServerData}
    (h : said.filterMap reading? = ds.map .data) : untagged said = ds := by
  rw [untagged, h, List.filterMap_map]
  exact List.filterMap_some

theorem Heard.asked {ds : List ServerData} (h : Heard leaving j ds (.ok .goAhead)) :
    untagged (Journal.taken j) = ds ∧ goAheads (Journal.taken j) = 1 := by
  obtain ⟨said, m, ht, hm, hs⟩ := h.taken_ok
  have hr : (Journal.taken j).filterMap reading? = ds.map .data ++ [.goAhead] := by
    rw [ht, List.filterMap_append, hs]
    simp [reading?_of_read hm, Stop.reading]
  constructor
  · rw [untagged, hr, List.filterMap_append, List.filterMap_map]
    exact (List.append_nil _).trans List.filterMap_some
  · rw [goAheads, hr, List.count_append, List.count_eq_zero.mpr (by simp)]
    rfl

theorem Heard.not_asked {ds : List ServerData} {s : Except Fault Stop} (h : Heard leaving j ds s)
    (hs : s ≠ .ok .goAhead) : goAheads (Journal.taken j) = 0 := by
  refine List.count_eq_zero.mpr fun hg => hs ?_
  obtain ⟨f, hf, hr⟩ := List.mem_filterMap.mp hg
  exact h.verdict f hf .goAhead _ hr rfl

theorem Conducted.goAheads_le (h : Conducted tag leaving fragments data queue j r) :
    goAheads (Journal.taken j) ≤ literals fragments
      ∨ r = .error (.malformed (.strayContinuation tag)) := by
  induction h with
  | line _ ih => simpa [literals] using ih
  | broken => exact .inl (Nat.zero_le _)
  | asked hh _ ih =>
    refine ih.imp_left fun ih => ?_
    have h₁ := hh.asked.2
    simp only [literals, List.countP_cons_of_pos] at ih ⊢
    simp only [List.cons_append, Journal.taken_flushed, Journal.taken_append, Journal.taken_wrote,
      goAheads_append]
    omega
  | failed _ hh | answered _ hh =>
    rw [Journal.taken_flushed, hh.not_asked (by simp)]
    exact .inl (Nat.zero_le _)
  | stray => exact .inr rfl

theorem Conducted.response (h : Conducted tag leaving fragments data queue j r)
    {response : Response} (hr : r = .ok response) :
    ∃ said m, Journal.taken j = said ++ [.ok m]
      ∧ m.read = .ok (.completed tag response.completion)
      ∧ response.data = data ++ untagged said := by
  induction h with
  | line _ ih => exact ih hr
  | broken | failed | stray => simp at hr
  | @asked octets _ _ _ ds j j' _ hh _ ih =>
    obtain ⟨said, m, ht, hm, hd⟩ := ih hr
    refine ⟨Journal.taken j ++ said, m, by simp [ht], hm, ?_⟩
    rw [hd, untagged_append, hh.asked.1, List.append_assoc]
  | answered _ hh =>
    obtain ⟨said, m, ht, hm, hs⟩ := hh.taken_ok
    obtain ⟨rfl, rfl⟩ := settle_ok hr
    exact ⟨said, m, ht, hm, by rw [untagged_eq hs]⟩

end Commands

section Tags

theorem tag_injective {n k : Nat} (h : tag n = tag k) : n = k := by
  have hl := congrArg String.toList h
  simp only [tag, String.toList_append, String.toList_ofList, List.append_cancel_left_eq] at hl
  have hv := congrArg (Nat.ofDigitChars 10 · 0) hl
  simp only [Nat.ofDigitChars_append, Nat.ofDigitChars_replicate_zero, Nat.mul_zero,
    Nat.ofDigitChars_ten_toDigits] at hv
  omega

theorem issued_le_of_mem_turns :
    ∀ (commands : List Command) (c : Client), ∀ t ∈ turns commands c, c.issued ≤ t.before.issued
  | [], c => by simp [turns]
  | command :: rest, c => by
    rcases h : c.call command with ⟨r, c'⟩
    rw [turns, h]
    rintro t (_ | ⟨_, hs⟩)
    · exact Nat.le_refl _
    · exact Nat.le_trans (call_issued h).1 (issued_le_of_mem_turns rest c' t hs)

theorem nodup_tags :
    ∀ (commands : List Command) (c : Client),
      (((turns commands c).filter (·.command.pieces.isOk)).map Turn.tag).Nodup
  | [], _ => List.nodup_nil
  | command :: rest, c => by
    rcases h : c.call command with ⟨r, c'⟩
    rw [turns, h, List.filter_cons]
    split
    · rename_i hok
      rw [List.map_cons, List.nodup_cons]
      refine ⟨fun hm => ?_, nodup_tags rest c'⟩
      obtain ⟨t, hs, ht⟩ := List.mem_map.mp hm
      have hle := issued_le_of_mem_turns rest c' t (List.mem_filter.mp hs).1
      have hlt := (call_issued h).2 hok
      have := tag_injective ht
      simp only at this
      omega
    · exact nodup_tags rest c'

end Tags

end Client

namespace Turn

open Client

/-- How the messages consumed during a turn decide its answer. -/
structure Answered (t : Turn) : Prop where
  response : ∀ r, t.answer = .ok r →
    ∃ said m, t.share = said ++ [.ok m] ∧ m.read = .ok (.completed t.tag r.completion)
      ∧ r.data = untagged said
  farewell : t.command ≠ .logout → ∀ f ∈ t.share, ∀ d, reading? f = some (.data d) →
    d.name = "BYE" → t.answer = .error (.bye (linesText d.parts))
  foreign : ∀ f ∈ t.share, ∀ got completion, reading? f = some (.completed got completion) →
    got ≠ t.tag → t.answer = .error (.malformed (.foreignTag got t.tag))
  stray : ∀ before f after, t.share = before ++ f :: after → reading? f = some .goAhead →
    literals t.fragments ≤ goAheads before →
      t.answer = .error (.malformed (.strayContinuation t.tag))

theorem answered {t : Turn} (h : t.before.call t.command = (t.answer, t.after)) :
    t.Answered := by
  rcases turn_did h with ⟨e, -, ha, hj⟩ | ⟨-, -, hc⟩
  · have hs : t.share = [] := by rw [share, hj, Journal.taken, List.filterMap_nil]
    refine ⟨?_, ?_, ?_, ?_⟩ <;> simp [hs, ha]
  · refine ⟨?_, ?_, ?_, ?_⟩
    · intro r hr
      obtain ⟨said, m, ht, hm, hd⟩ := hc.response hr
      exact ⟨said, m, ht, hm, hd⟩
    · intro hl f hf d hr hbye
      refine hc.ends f hf _ (.error (.bye (linesText d.parts))) hr ?_
      rw [verdict, if_pos ⟨hbye, by simpa using hl⟩]
    · intro f hf got completion hr hne
      obtain ⟨data, ha⟩ := hc.ends f hf _ (.ok (.completed got completion)) hr rfl
      rw [ha, settle, if_neg hne]
    · intro before f after hs hr hle
      refine hc.goAheads_le.resolve_left fun hle' => ?_
      rw [show Journal.taken t.deeds = _ from hs, goAheads_append] at hle'
      have hf : goAheads (f :: after) = goAheads after + 1 := by
        simp [goAheads, hr]
      omega

end Turn

namespace Client

/-- A run from its greeting on consumes the messages of the server in order and each of them once,
and no answer rests on a message consumed before. The commands of a run have different tags, up to
the number of commands that a 32-bit counter can tell apart. -/
theorem turns_answered {script : List Event} {timeout : Duration} {budget : Option Nat}
    {c : Client} {k : Connection} (h : greet { script, timeout, budget } = (.ok c, k))
    (commands : List Command) :
    (∃ greeting, .ok greeting :: (turns commands c).flatMap Turn.share <+: framed script)
      ∧ (commands.length < UInt32.size - 1 →
        (((turns commands c).filter (·.command.pieces.isOk)).map Turn.tag).Nodup)
      ∧ ∀ t ∈ turns commands c, t.Answered := by
  obtain ⟨hc, -, -, greeting, hg⟩ := greet_reached h rfl
  obtain ⟨hall, c', hc', hj⟩ := turns_reached commands c hc
  refine ⟨⟨greeting, ?_⟩, fun _ => nodup_tags commands c, fun t hs => Turn.answered (hall t hs).2⟩
  have hp := hc'.taken_prefix
  have ht : Journal.taken ((turns commands c).flatMap Turn.deeds)
      = (turns commands c).flatMap Turn.share := List.filterMap_flatMap
  rwa [hj, Journal.taken_append, hg, ht] at hp

/-- A run in which the completion of a command comes after the command failed: the next command
fails on it, and the one behind that is answered. -/
theorem turns_answered_late :
    let script : List Event := [.chunk hello.octets, .failure .connectionReset,
      .chunk (utf8 "A0001 OK late\r\n* 1 EXISTS\r\nA0003 OK done\r\n")]
    let commands : List Command := [.close, .close, .close]
    ∃ c k, greet { script, timeout := ⟨1⟩ } = (.ok c, k)
      ∧ (∃ greeting, .ok greeting :: (turns commands c).flatMap Turn.share <+: framed script)
      ∧ (((turns commands c).filter (·.command.pieces.isOk)).map Turn.tag).Nodup
      ∧ (∀ t ∈ turns commands c, t.Answered)
      ∧ (turns commands c).map (·.answer)
        = [.error (.io .connectionReset), .error (.malformed (.foreignTag "A0001" "A0002")),
          .ok ⟨⟨.ok, "done"⟩, [⟨"EXISTS", [.line (utf8 "1 EXISTS")]⟩]⟩] := by
  intro script commands
  have hrun : (greet { script, timeout := ⟨1⟩ }).1.toOption.map
        (fun c => (turns commands c).map (·.answer))
      = some [.error (.io .connectionReset), .error (.malformed (.foreignTag "A0001" "A0002")),
          .ok ⟨⟨.ok, "done"⟩, [⟨"EXISTS", [.line (utf8 "1 EXISTS")]⟩]⟩] := by
    decide +kernel
  obtain ⟨c, k, h, hanswers⟩ := greeted_of_map hrun
  obtain ⟨htaken, hnodup, hanswered⟩ := turns_answered h commands
  exact ⟨c, k, h, htaken, hnodup (by decide), hanswered, hanswers⟩

end Client

end ImapProbe
