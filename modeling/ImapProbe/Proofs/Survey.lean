import ImapProbe.CommandLine.Program
import ImapProbe.Proofs.Roster
import ImapProbe.Proofs.Session.Tally

/-!
# Surveys

A survey visits the profiles that a roster gives for its target, in the order of the table, each
once and each at the site that the visit before it left, whatever came of that one. It succeeds
exactly when all visits ended with a report, and before the target and the corpus are known to be
good nothing is called (`survey_visits`).
-/

namespace ImapProbe

variable {ν σ : Type} (net : Network ν σ)

/-- A network that works as another does, and keeps the profiles it was to connect, in order. -/
def Network.noting : Network (ν × List Profile) σ where
  responder := net.responder
  connect p files n :=
    let (connection, network) := net.connect p files n.1
    (connection, network, n.2 ++ [p])
  hangUp s n := (net.hangUp s n.1, n.2)

/-- Profiles are visited one after another, each at the site the visit before it left. -/
inductive Toured (corpus : List Path) :
    List Profile → Site ν → List (Except SessionFault Report) → Site ν → Prop
  | home (site : Site ν) : Toured corpus [] site [] site
  | next {p : Profile} {ps : List Profile} {site site' site'' : Site ν}
    {outcome : Except SessionFault Report} {outcomes : List (Except SessionFault Report)} :
    visit net p corpus site = (outcome, site') → Toured corpus ps site' outcomes site'' →
      Toured corpus (p :: ps) site (outcome :: outcomes) site''

/-- The identifiers of the profiles whose visit ended without a report. -/
def unreported (ps : List Profile) (outcomes : List (Except SessionFault Report)) : List String :=
  ((ps.zip outcomes).filter fun v => !v.2.isOk).map (·.1.id)

theorem unreported_eq (ps : List Profile) (outcomes : List (Except SessionFault Report)) :
    unreported ps outcomes
      = ((ps.zip (outcomes.map (·.isOk))).filter fun v => !v.2).map (·.1.id) := by
  rw [unreported, List.zip_map_right, List.filter_map, List.map_map]
  rfl

section Visits

variable (corpus : List Path)

theorem visitAll_toured : ∀ (ps : List Profile) (site : Site ν),
    ∃ outcomes, (visitAll net corpus ps site).1 = ps.zip outcomes
      ∧ outcomes.length = ps.length
      ∧ Toured net corpus ps site outcomes (visitAll net corpus ps site).2
  | [], site => ⟨[], rfl, rfl, .home site⟩
  | p :: ps, site => by
    obtain ⟨outcomes, hz, hl, ht⟩ := visitAll_toured ps (visit net p corpus site).2
    exact ⟨(visit net p corpus site).1 :: outcomes, by simp [visitAll, hz], by simp [hl],
      .next rfl ht⟩

theorem visit_noting (p : Profile) (network : ν) (noted : List Profile) (files : FileTree) :
    visit net.noting p corpus ⟨(network, noted), files⟩
      = ((visit net p corpus ⟨network, files⟩).1,
        ⟨((visit net p corpus ⟨network, files⟩).2.network, noted ++ [p]),
          (visit net p corpus ⟨network, files⟩).2.files⟩) := by
  rcases hc : net.connect p files network with ⟨e | server, network'⟩ <;>
    simp only [visit, Network.noting, hc]

/-- Every profile is connected once, in order. -/
theorem visitAll_noting : ∀ (ps : List Profile) (network : ν) (noted : List Profile)
    (files : FileTree),
    visitAll net.noting corpus ps ⟨(network, noted), files⟩
      = ((visitAll net corpus ps ⟨network, files⟩).1,
        ⟨((visitAll net corpus ps ⟨network, files⟩).2.network, noted ++ ps),
          (visitAll net corpus ps ⟨network, files⟩).2.files⟩)
  | [], _, _, _ => by simp [visitAll]
  | p :: ps, network, noted, files => by
    simp only [visitAll, visit_noting, visitAll_noting ps]
    simp

theorem endedEarly_zip : ∀ (ps : List Profile) (outcomes : List (Except SessionFault Report)),
    endedEarly (ps.zip outcomes) = unreported ps outcomes
  | [], _ => rfl
  | _ :: _, [] => rfl
  | p :: ps, outcome :: outcomes => by
    have ih := endedEarly_zip ps outcomes
    simp only [endedEarly, unreported] at ih
    rcases outcome with e | report <;> simp [endedEarly, unreported, ih, Except.isOk, Except.toBool]

theorem unreported_eq_nil_iff : ∀ {ps : List Profile}
    {outcomes : List (Except SessionFault Report)}, outcomes.length = ps.length →
      (unreported ps outcomes = [] ↔ ∀ o ∈ outcomes, o.isOk)
  | [], [], _ => by simp [unreported]
  | p :: ps, outcome :: outcomes, h => by
    have ih := @unreported_eq_nil_iff ps outcomes (by simpa using h)
    rcases ho : outcome.isOk <;> simp_all [unreported]

end Visits

variable {table : List Profile} {roster : Roster}

/-- What becomes of a survey whose target and corpus are good. -/
theorem survey_eq {r : RunRequest} {profiles : List Profile} {messages : List Path}
    (hchoose : roster.choose r.target = .ok profiles) {site : Site ν}
    (hcorpus : openCorpus site.files r.corpus r.extension = .ok messages) :
    let asked := profiles.map (·.adjust r.adjustment)
    ∃ outcomes, outcomes.length = asked.length
      ∧ Toured net messages asked site outcomes (visitAll net messages asked site).2
      ∧ survey net roster r site
        = (if unreported asked outcomes = [] then .ok ()
            else .error (.endedEarly (unreported asked outcomes)),
          (visitAll net messages asked site).2) := by
  intro asked
  obtain ⟨outcomes, hzip, hlength, htoured⟩ := visitAll_toured net messages asked site
  refine ⟨outcomes, hlength, htoured, ?_⟩
  simp only [survey, hchoose, hcorpus]
  rw [hzip, endedEarly_zip]
  rcases unreported asked outcomes <;> rfl

/-- What a survey does: nothing for a target that names no profile or a corpus that cannot be read;
else one visit to each profile the target names, adjusted, in the order of the table. -/
theorem survey_visits (h : Roster.ofProfiles table = .ok roster) (r : RunRequest) (site : Site ν) :
    let asked := (Roster.chosen table r.target).map (·.adjust r.adjustment)
    let result := survey net roster r site
    let called := (survey net.noting roster r ⟨(site.network, []), site.files⟩).2.network.2
    (asked = [] → called = []
        ∧ result = (.error (.roster (.unknown r.target (table.map (·.id)))), site))
      ∧ (asked ≠ [] → ∀ e, site.files.list r.corpus = .error e → called = []
        ∧ result = (.error (.preparation (.directory r.corpus e)), site))
      ∧ (asked ≠ [] → ∀ names, site.files.list r.corpus = .ok names → called = asked
        ∧ ∃ messages outcomes, corpus site.files r.corpus r.extension = .ok messages
          ∧ outcomes.length = asked.length ∧ Toured net messages asked site outcomes result.2
          ∧ (result.1 = .ok () ↔ ∀ o ∈ outcomes, o.isOk)
          ∧ ∀ e, result.1 = .error e → e = .endedEarly (unreported asked outcomes)
            ∧ e.message = toString (unreported asked outcomes).length ++ " profile(s) aborted: "
              ++ ", ".intercalate (unreported asked outcomes)) := by
  intro asked result called
  have hasked : asked = [] ↔ Roster.chosen table r.target = [] := List.map_eq_nil_iff
  have hchoose := @Roster.choose_eq table roster r.target h
  refine ⟨fun hnone => ?_, fun hsome e hlist => ?_, fun hsome names hlist => ?_⟩
  · rw [if_pos (hasked.1 hnone)] at hchoose
    exact ⟨by simp only [called, survey, hchoose], by simp only [result, survey, hchoose]⟩
  · rw [if_neg (mt hasked.2 hsome)] at hchoose
    have hcorpus : openCorpus site.files r.corpus r.extension
        = .error (.directory r.corpus e) := by
      rw [openCorpus, corpus, hlist]
      rfl
    exact ⟨by simp only [called, survey, hchoose, hcorpus],
      by simp only [result, survey, hchoose, hcorpus]⟩
  · rw [if_neg (mt hasked.2 hsome)] at hchoose
    obtain ⟨messages, hmessages⟩ :
        ∃ messages, corpus site.files r.corpus r.extension = .ok messages := by
      simp only [corpus, hlist, Except.ok.injEq, exists_eq']
    have hcorpus : openCorpus site.files r.corpus r.extension = .ok messages := by
      rw [openCorpus, hmessages]
      rfl
    obtain ⟨outcomes, hlength, htoured, heq⟩ := survey_eq net hchoose hcorpus
    obtain ⟨_, -, -, hnoted⟩ :=
      @survey_eq _ _ net.noting roster r _ _ hchoose ⟨(site.network, []), site.files⟩ hcorpus
    have hresult : result.1 = if unreported asked outcomes = [] then .ok ()
        else .error (.endedEarly (unreported asked outcomes)) := by
      simp only [result, heq, asked]
    refine ⟨?_, messages, outcomes, hmessages, hlength, ?_, ?_, fun e he => ?_⟩
    · simp only [called, hnoted, visitAll_noting, List.nil_append, asked]
    · simpa only [result, heq] using htoured
    · rw [hresult, ← unreported_eq_nil_iff hlength]
      by_cases hu : unreported asked outcomes = []
      · simp only [hu, if_true, asked]
      · simp [hu, asked]
    · rw [hresult] at he
      split at he
      · simp at he
      · obtain rfl := Except.error.inj he
        exact ⟨rfl, rfl⟩

variable {net} in
theorem Toured.isOk_eq {corpus : List Path} {ps : List Profile} {site site' : Site ν}
    {outcomes : List (Except SessionFault Report)} {f : Profile → Bool}
    (hf : ∀ p site, (visit net p corpus site).1.isOk = f p)
    (h : Toured net corpus ps site outcomes site') : outcomes.map (·.isOk) = ps.map f := by
  induction h with
  | home => rfl
  | @next p ps site _ _ _ _ hv _ ih => rw [List.map_cons, List.map_cons, ← hf p site, hv, ih]

section Letter

open FileTree

/-- The corpus of a directory with one file of its extension. -/
theorem corpus_here {t : FileTree} {extension name : String} {message : Path} {content : Bytes}
    (hnames : t.namesIn [] = [name]) (hchild : Path.child ⟨"."⟩ name = message)
    (hstop : t.stopAt .look message.text = .ok ([name], some []))
    (hget : t.get? [name] = some (.file content)) (hext : hasExtension extension name) :
    corpus t ⟨"."⟩ extension = .ok [message] := by
  have hlist : t.list ⟨"."⟩ = .ok [name] := by
    rw [list, find_here, ← hnames]
  have hfile : t.isFile message = true := by
    rw [isFile, find_eq, hstop]
    simp [Except.bind, arrive, hget]
  simp [corpus, hlist, hchild, hfile, hext]

theorem oneLetter_corpus : corpus oneLetter.files ⟨"."⟩ "eml" = .ok [⟨"./a.eml"⟩] := by
  have hnames : oneLetter.files.namesIn [] = ["a.eml"] := rfl
  exact corpus_here hnames (by decide) (stopAt_beside (by rfl) (by decide) (.inr ⟨_, rfl⟩)) rfl
    (by decide)

/-- A network of servers that grant everything, less one that cannot be reached. -/
def allBut (id : String) : Network Unit Unit where
  responder := granting
  connect p _ s := if p.id = id then (.error .closed, s) else (.ok s, s)
  hangUp s _ := s

theorem isGranted_granting (c : Command) (s : Unit) :
    ∃ r, (granting.call c s).1 = .ok r ∧ r.isGranted := by
  cases c <;> exact ⟨_, rfl, rfl⟩

theorem visit_allBut (id : String) (p : Profile) (corpus : List Path) (site : Site Unit) :
    (visit (allBut id) p corpus site).1.isOk = decide (p.id ≠ id) := by
  by_cases hp : p.id = id
  · simp [visit, allBut, hp, Except.isOk, Except.toBool]
  · have hconnect : ((allBut id).connect p site.files site.network).1.isOk := by
      simp [allBut, hp, Except.isOk, Except.toBool]
    rw [visit_granted p corpus site isGranted_granting hconnect, decide_eq_true hp]

/-- The second server of the test bed cannot be reached; the others are visited all the same, with
the letter. -/
theorem survey_visits_testBed :
    let r : RunRequest := ⟨"all", ⟨"."⟩, "eml", {}, none, 30⟩
    corpus oneLetter.files r.corpus r.extension = .ok [⟨"./a.eml"⟩]
      ∧ ∃ roster, Roster.ofProfiles TestBed.profiles = .ok roster
        ∧ (survey (allBut "maddy").noting roster r ⟨((), []), oneLetter.files⟩).2.network.2.map
            (·.id)
          = ["dovecot", "maddy", "cyrus", "courier", "stalwart"]
        ∧ ∃ e, (survey (allBut "maddy") roster r oneLetter).1 = .error e
          ∧ e.message = "1 profile(s) aborted: maddy" := by
  intro r
  have hroster : Roster.ofProfiles TestBed.profiles = .ok ⟨TestBed.profiles⟩ := by
    rw [Roster.ofProfiles, TestBed.fault?_profiles]
    rfl
  have hlist : oneLetter.files.list ⟨"."⟩ = .ok ["a.eml"] := by
    rw [list, find_here]
    rfl
  obtain ⟨-, -, hgood⟩ := survey_visits (allBut "maddy") hroster r oneLetter
  obtain ⟨hcalled, messages, outcomes, -, -, htoured, hok, herr⟩ := hgood (by decide) _ hlist
  have hoks := htoured.isOk_eq fun p site => visit_allBut "maddy" p messages site
  refine ⟨oneLetter_corpus, _, hroster, by rw [hcalled]; decide, ?_⟩
  rcases hv : (survey (allBut "maddy") ⟨TestBed.profiles⟩ r oneLetter).1 with e | u
  · exact ⟨e, rfl, by rw [(herr e hv).2, unreported_eq, hoks]; decide⟩
  · have hall : ∀ reported ∈ outcomes.map (·.isOk), reported = true :=
      List.forall_mem_map.2 (hok.1 hv)
    rw [hoks] at hall
    exact absurd hall (by decide)

end Letter

end ImapProbe
