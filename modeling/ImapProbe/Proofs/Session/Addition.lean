import ImapProbe.Proofs.Folding
import ImapProbe.Proofs.Session.Tally
import ImapProbe.Text.Utf8
import Mathlib.Data.List.Flatten

/-!
# What a server adds to an answer

All data of FETCH in an answer go into the artifact, whatever message they are about: nobody looks
at their numbers. So data that a server adds to the answer that was asked for stay out of the
artifact exactly when they stand before the first parenthesis and bring none (`artifact_told_iff`,
`describe_told`).
-/

namespace ImapProbe

/-- Data of FETCH under the number of a message. -/
structure ServerData.Concerns (n : Nat) (d : ServerData) : Prop where
  fetch : capitals d.name = capitals "FETCH"
  number : utf8 (toString n ++ " ") <+: folded d.parts

theorem ServerData.Concerns.folded_ne_nil {n : Nat} {d : ServerData} (h : d.Concerns n) :
    folded d.parts ≠ [] := fun hnil => by
  have hspace := h.number
  rw [hnil, List.prefix_nil, utf8_append] at hspace
  exact absurd (List.append_eq_nil_iff.1 hspace).2 (by decide)

section Cuts

/-- The octets of pieces, and the octets of those that are not marked. -/
def whole (pieces : List (Bytes × Bool)) : Bytes := pieces.flatMap (·.1)

def unmarked (pieces : List (Bytes × Bool)) : Bytes := whole (pieces.filter (!·.2))

variable {octets : Bytes} {pieces : List (Bytes × Bool)}

theorem length_opened_pos (h : 40 ∈ octets) : 0 < (opened octets).length :=
  List.length_pos_iff.2 fun hnil => opened_eq_nil_iff.1 hnil h

theorem length_unmarked_le (pieces : List (Bytes × Bool)) :
    (unmarked pieces).length ≤ (whole pieces).length :=
  (List.filter_sublist.flatMap _).length_le

theorem whole_cons (octets : Bytes) (mark : Bool) (pieces : List (Bytes × Bool)) :
    whole ((octets, mark) :: pieces) = octets ++ whole pieces := List.flatMap_cons

theorem unmarked_cons (octets : Bytes) (mark : Bool) (pieces : List (Bytes × Bool)) :
    unmarked ((octets, mark) :: pieces)
      = if mark then unmarked pieces else octets ++ unmarked pieces := by
  rcases mark <;> rfl

/-- Marked pieces that hold octets are missed. -/
theorem whole_eq_unmarked_iff (hfull : ∀ x ∈ pieces, x.2 → x.1 ≠ []) :
    whole pieces = unmarked pieces ↔ ∀ x ∈ pieces, x.2 = false := by
  induction pieces with
  | nil => simp [whole, unmarked]
  | cons x pieces ih =>
    obtain ⟨octets, mark⟩ := x
    obtain ⟨hx, hfull⟩ := List.forall_mem_cons.1 hfull
    have hle := length_unmarked_le pieces
    rw [List.forall_mem_cons, ← ih hfull, whole_cons, unmarked_cons]
    rcases mark
    · simp
    · have hpos : 0 < octets.length := List.length_pos_iff.2 (hx rfl)
      refine iff_of_false (fun heq => ?_) (by simp)
      have hlen := congrArg List.length heq
      simp only [List.length_append, if_true] at hlen
      omega

/-- Marked pieces that hold octets leave what is opened as it is exactly when they all come before
the first piece with a parenthesis: where what is opened begins in a marked piece, it is longer than
without that piece. -/
theorem opened_whole_iff (hfull : ∀ x ∈ pieces, x.2 → x.1 ≠ []) :
    opened (whole pieces) = opened (unmarked pieces)
      ↔ ∀ x ∈ pieces.dropWhile (fun x => 40 ∉ x.1), x.2 = false := by
  induction pieces with
  | nil => simp [whole, unmarked]
  | cons x pieces ih =>
    obtain ⟨octets, mark⟩ := x
    have hrest := (List.forall_mem_cons.1 hfull).2
    rw [whole_cons, unmarked_cons]
    by_cases h : 40 ∈ octets
    · rw [List.dropWhile_cons_of_neg (by simpa using h), opened_append_of_mem h,
        List.forall_mem_cons, ← whole_eq_unmarked_iff hrest]
      rcases mark
      · simp [opened_append_of_mem h]
      · refine iff_of_false (fun heq => ?_) (by simp)
        have hlen := congrArg List.length heq
        have hpos := length_opened_pos h
        have hle := length_unmarked_le pieces
        have hopened := (opened_suffix (unmarked pieces)).length_le
        simp only [List.length_append, if_true] at hlen
        omega
    · rw [List.dropWhile_cons_of_pos (by simpa using h), ← ih hrest, opened_append_of_notMem h]
      rcases mark
      · rw [if_neg (by simp), opened_append_of_notMem h]
      · rfl

end Cuts

/-- The data of an answer; those that were added are marked. -/
abbrev Telling := List (ServerData × Bool)

namespace Telling

/-- The answer as it came. -/
def told (t : Telling) (completion : Completion) : Response := ⟨completion, t.map (·.1)⟩

/-- The answer less what was added. -/
def asked (t : Telling) (completion : Completion) : Response := told (t.filter (!·.2)) completion

def fetches (t : Telling) : Telling := t.filter fun x => capitals x.1.name == capitals "FETCH"

/-- From the first data of FETCH with a parenthesis on, nothing was added. -/
def AddedBefore (t : Telling) : Prop :=
  ∀ x ∈ t.fetches.dropWhile (fun x => 40 ∉ folded x.1.parts), x.2 = false

instance (t : Telling) : Decidable t.AddedBefore := by
  unfold AddedBefore
  infer_instance

/-- The octets of the data of FETCH. -/
def pieces (t : Telling) : List (Bytes × Bool) :=
  t.fetches.map fun x => (folded x.1.parts, x.2)

variable (t : Telling) (completion : Completion)

theorem folded_told : folded ((t.told completion).parts "FETCH") = whole t.pieces := by
  rw [Response.parts, told, List.filter_map, folded, List.flatMap_assoc, List.flatMap_map, whole,
    pieces, List.flatMap_map]
  rfl

theorem folded_asked : folded ((t.asked completion).parts "FETCH") = unmarked t.pieces := by
  rw [asked, folded_told, unmarked, pieces, pieces, List.filter_map, fetches, fetches,
    List.filter_filter, List.filter_filter]
  simp only [Function.comp_def, Bool.and_comm]

variable {t}

/-- What was added stays out of the artifact exactly when it all stands before the first
parenthesis, and has none. -/
theorem artifact_told_iff (hadded : ∀ x ∈ t, x.2 → ∃ n, x.1.Concerns n) :
    artifact ((t.told completion).parts "FETCH") = artifact ((t.asked completion).parts "FETCH")
      ↔ t.AddedBefore := by
  have hfull : ∀ x ∈ t.pieces, x.2 → x.1 ≠ [] := by
    simp only [pieces, List.forall_mem_map]
    intro x hx hmark
    obtain ⟨n, hn⟩ := hadded x (List.mem_filter.1 hx).1 hmark
    exact hn.folded_ne_nil
  have h := opened_whole_iff hfull
  rw [← folded_told t completion, ← folded_asked t completion] at h
  refine h.trans ?_
  rw [pieces, List.dropWhile_map, List.forall_mem_map]
  rfl

/-- An answer in which all was added has an artifact exactly when something added has a
parenthesis. -/
theorem artifact_added_iff (hadded : ∀ x ∈ t, x.2 → ∃ n, x.1.Concerns n) (hall : ∀ x ∈ t, x.2) :
    artifact ((t.told completion).parts "FETCH") = [] ↔ ∀ x ∈ t, 40 ∉ folded x.1.parts := by
  have hfetches : t.fetches = t := List.filter_eq_self.2 fun x hx => by
    obtain ⟨n, hn⟩ := hadded x hx (hall x hx)
    simp [hn.fetch]
  rw [artifact_eq_nil_iff, folded_told, whole, pieces, hfetches, List.flatMap_map,
    List.mem_flatMap]
  simp only [not_exists, not_and]

end Telling

section Descriptions

variable {σ : Type} {via : Responder σ} {p : Profile} {message : Path} {n : UInt32}
  {d : Description} {a a' b : Desk σ} {r r' : Response}

/-- What comes of an answer: an artifact that is written where the command was granted, unless
there is none or no file takes it. -/
theorem describe_eq (p : Profile) (message : Path)
    (h : (via.call (d.request n) a.server).1 = .ok r) :
    ∃ server, describe via p message n d a =
      if r.isGranted then
        if artifact (r.parts "FETCH") = [] then
          (.error (.problem (.fetch d) (.noData d)), { a with server })
        else match a.files.write (artifactFile message p.suffix d) (artifact (r.parts "FETCH")) with
          | .error e => (.error (.problem (.write d) (.io e)), { a with server })
          | .ok files => (.ok (), { server, files })
      else (.error (.problem (.fetch d) (.refused r.completion)), { a with server }) := by
  rcases hc : via.call (d.request n) a.server with ⟨answer, server⟩
  rw [hc] at h
  obtain rfl : answer = .ok r := h
  rw [Description.request, onlyNumber] at hc
  refine ⟨server, ?_⟩
  simp only [describe, demand, hc, List.isEmpty_iff]
  rcases r.isGranted <;> rfl

/-- What comes of an answer rests on its completion and its artifact. -/
theorem describe_congr (hfiles : b.files = a.files)
    (ha : (via.call (d.request n) a.server).1 = .ok r)
    (hb : (via.call (d.request n) b.server).1 = .ok r') (hcompletion : r'.completion = r.completion)
    (hart : artifact (r'.parts "FETCH") = artifact (r.parts "FETCH")) :
    (describe via p message n d b).1 = (describe via p message n d a).1
      ∧ (describe via p message n d b).2.files = (describe via p message n d a).2.files := by
  obtain ⟨s, hda⟩ := describe_eq p message ha
  obtain ⟨s', hdb⟩ := describe_eq p message hb
  rw [Response.isGranted_congr hcompletion, hcompletion, hart, hfiles] at hdb
  rw [hda, hdb]
  split
  · split
    · exact ⟨rfl, rfl⟩
    · rcases a.files.write (artifactFile message p.suffix d) (artifact (r.parts "FETCH")) <;>
        exact ⟨rfl, rfl⟩
  · exact ⟨rfl, rfl⟩

theorem describe_noData_iff (ha : (via.call (d.request n) a.server).1 = .ok r)
    (hg : r.isGranted) :
    (describe via p message n d a).1 = .error (.problem (.fetch d) (.noData d))
      ↔ artifact (r.parts "FETCH") = [] := by
  obtain ⟨s, hda⟩ := describe_eq p message ha
  rw [hda, if_pos hg]
  split
  · rename_i hempty
    simp [hempty]
  · rename_i hfull
    rcases a.files.write (artifactFile message p.suffix d) (artifact (r.parts "FETCH")) <;>
      simp [hfull]

/-- What is written is the artifact of the answer. -/
theorem describe_wrote (ha : (via.call (d.request n) a.server).1 = .ok r)
    (h : describe via p message n d a = (.ok (), a')) :
    ∃ place, a.files.target? (artifactFile message p.suffix d) = some place
      ∧ a'.files.get? place = some (.file (artifact (r.parts "FETCH"))) := by
  obtain ⟨s, hda⟩ := describe_eq p message ha
  rw [hda] at h
  split at h
  · split at h
    · simp at h
    · split at h <;> rename_i hw
      · simp at h
      · obtain ⟨-, rfl⟩ := Prod.mk.inj h
        obtain ⟨place, hplace, hfree, rfl⟩ := FileTree.write_ok hw
        exact ⟨place, hplace, by rw [FileTree.get?_set hfree.not_given, if_pos rfl]⟩
  · simp at h

/-- Data of FETCH that a server adds to the answer about a message, whatever message they are
about, leave the artifact as it is exactly when they stand before the first parenthesis and have
none; an answer of nothing else has no data exactly when none of it has a parenthesis. -/
theorem describe_told (via : Responder σ) (p : Profile) (message : Path) (n : UInt32)
    (d : Description) (t : Telling) (completion : Completion)
    (hadded : ∀ x ∈ t, x.2 → ∃ m, x.1.Concerns m) (hfiles : b.files = a.files)
    (ha : (via.call (d.request n) a.server).1 = .ok (t.asked completion))
    (hb : (via.call (d.request n) b.server).1 = .ok (t.told completion)) :
    (artifact ((t.told completion).parts "FETCH") = artifact ((t.asked completion).parts "FETCH")
        ↔ t.AddedBefore)
      ∧ (t.AddedBefore → (describe via p message n d b).1 = (describe via p message n d a).1
        ∧ (describe via p message n d b).2.files = (describe via p message n d a).2.files)
      ∧ (∀ a' b', describe via p message n d a = (.ok (), a') →
        describe via p message n d b = (.ok (), b') →
        ∃ place, a.files.target? (artifactFile message p.suffix d) = some place
          ∧ (b'.files.get? place = a'.files.get? place ↔ t.AddedBefore))
      ∧ ((∀ x ∈ t, x.2) → completion.status = .ok →
        ((describe via p message n d b).1 = .error (.problem (.fetch d) (.noData d))
          ↔ ∀ x ∈ t, 40 ∉ folded x.1.parts)) := by
  have hiff := Telling.artifact_told_iff completion hadded
  refine ⟨hiff, fun h => describe_congr hfiles ha hb rfl (hiff.2 h), fun a' b' hwa hwb => ?_,
    fun hall hok => ?_⟩
  · obtain ⟨place, hplace, hgot⟩ := describe_wrote ha hwa
    obtain ⟨place', hplace', hgot'⟩ := describe_wrote hb hwb
    rw [hfiles, hplace, Option.some.injEq] at hplace'
    subst hplace'
    refine ⟨place, hplace, ?_⟩
    rw [hgot, hgot', Option.some.injEq, Entry.file.injEq, hiff]
  · rw [describe_noData_iff hb (by simp [Response.isGranted, Telling.told, hok])]
    exact Telling.artifact_added_iff completion hadded hall

/-- What a server says of the third message when it is asked, and of the first when it is not. -/
def thirdBody : ServerData := ⟨"FETCH", [.line (utf8 "3 FETCH (BODY (X))")]⟩

def firstFlags : ServerData := ⟨"FETCH", [.line (utf8 "1 FETCH (FLAGS (\\Seen))")]⟩

theorem firstFlags_concerns : firstFlags.Concerns 1 := ⟨rfl, by decide⟩

/-- A desk whose server gives these data and grants the command. -/
def answering (data : List ServerData) : Desk (List (Except Fault Response)) :=
  ⟨[.ok ⟨⟨.ok, "done"⟩, data⟩], {}⟩

/-- The artifact of a granted answer stands in the file beside the message. -/
theorem describe_answering (data : List ServerData)
    (hfull : artifact (Response.parts ⟨⟨.ok, "done"⟩, data⟩ "FETCH") ≠ []) :
    ∃ desk', describe Responder.ofAnswers twoLetters.profile ⟨"c.eml"⟩ 3 .body (answering data)
        = (.ok (), desk')
      ∧ desk'.files.get? ["c.fake.body"]
        = some (.file (artifact (Response.parts ⟨⟨.ok, "done"⟩, data⟩ "FETCH"))) := by
  generalize hoctets : artifact (Response.parts ⟨⟨.ok, "done"⟩, data⟩ "FETCH") = octets at hfull ⊢
  have hfile : artifactFile ⟨"c.eml"⟩ twoLetters.profile.suffix .body = ⟨"c.fake.body"⟩ := by decide
  have hwrite : ({} : FileTree).write ⟨"c.fake.body"⟩ octets
      = .ok (({} : FileTree).set ["c.fake.body"] (.file octets)) :=
    FileTree.write_of_missing (by decide) (by rfl) rfl
  rw [← hfile] at hwrite
  exact ⟨_, describe_of_call rfl rfl hoctets hfull hwrite,
    by rw [FileTree.get?_set (by decide), if_pos rfl]⟩

/-- The flags of another message, behind the body that was asked for. -/
theorem describe_told_flags :
    let t : Telling := [(thirdBody, false), (firstFlags, true)]
    let describing := describe Responder.ofAnswers twoLetters.profile ⟨"c.eml"⟩ 3 .body
    ¬t.AddedBefore ∧ ∃ a' b' place, describing (answering [thirdBody]) = (.ok (), a')
      ∧ describing (answering [thirdBody, firstFlags]) = (.ok (), b')
      ∧ b'.files.get? place ≠ a'.files.get? place := by
  intro t describing
  have hbefore : ¬t.AddedBefore := by decide
  obtain ⟨a', ha, -⟩ := describe_answering [thirdBody] (by decide)
  obtain ⟨b', hb, -⟩ := describe_answering [thirdBody, firstFlags] (by decide)
  have hadded : ∀ x ∈ t, x.2 → ∃ m, x.1.Concerns m := by
    simpa [t] using ⟨1, firstFlags_concerns⟩
  obtain ⟨-, -, hwritten, -⟩ := describe_told (a := answering [thirdBody])
    (b := answering [thirdBody, firstFlags]) Responder.ofAnswers twoLetters.profile ⟨"c.eml"⟩ 3
    .body t ⟨.ok, "done"⟩ hadded rfl rfl rfl
  obtain ⟨place, -, hiff⟩ := hwritten a' b' ha hb
  exact ⟨hbefore, a', b', place, ha, hb, fun heq => hbefore (hiff.1 heq)⟩

/-- The flags of another message become part of the artifact, behind the data asked for or before
them, and are an artifact of their own where there are no other data. -/
theorem artifact_flagged :
    let left (data : List ServerData) := (describe Responder.ofAnswers twoLetters.profile
      ⟨"c.eml"⟩ 3 .body (answering data)).2.files.get? ["c.fake.body"]
    firstFlags.Concerns 1 ∧ left [thirdBody] = some (.file (utf8 "(BODY (X))"))
      ∧ left [thirdBody, firstFlags] = some (.file (utf8 "(BODY (X))1 FETCH (FLAGS (\\Seen))"))
      ∧ left [firstFlags, thirdBody] = some (.file (utf8 "(FLAGS (\\Seen))3 FETCH (BODY (X))"))
      ∧ left [firstFlags] = some (.file (utf8 "(FLAGS (\\Seen))")) := by
  intro left
  have hleft : ∀ data, artifact (Response.parts ⟨⟨.ok, "done"⟩, data⟩ "FETCH") ≠ [] →
      left data = some (.file (artifact (Response.parts ⟨⟨.ok, "done"⟩, data⟩ "FETCH"))) :=
    fun data hfull => by
      obtain ⟨desk', hd, hgot⟩ := describe_answering data hfull
      simp only [left, hd, hgot]
  refine ⟨firstFlags_concerns, ?_, ?_, ?_, ?_⟩ <;> rw [hleft _ (by decide)] <;> decide

end Descriptions

end ImapProbe
