import ImapProbe.CommandLine.Program
import ImapProbe.Proofs.Storage.Rewriting
import ImapProbe.Proofs.Storage.Strewn

/-!
# Line feeds with carriage returns

A carriage return is put before each line feed, so none begins what is converted
(`head?_withCrlf`), and taking out the carriage return of each CRLF gives back what was converted,
lone carriage returns and all (`withoutCrlf_withCrlf`). A file is converted once: what is converted
holds a CRLF where there was a line feed, and is what it was where there was none
(`convertToCrlf_once`).
-/

namespace ImapProbe

open Bytes FileTree

/-- Takes out the carriage return of each CRLF. -/
def withoutCrlf : Bytes → Bytes
  | [] => []
  | b :: bs => if b = cr ∧ bs.head? = some lf then withoutCrlf bs else b :: withoutCrlf bs

section Octets

variable {b : UInt8} {content before after : Bytes}

theorem withCrlf_lf (content : Bytes) : withCrlf (lf :: content) = cr :: lf :: withCrlf content :=
  rfl

theorem withCrlf_cons (h : b ≠ lf) (content : Bytes) :
    withCrlf (b :: content) = b :: withCrlf content := by
  rw [withCrlf, List.flatMap_cons, if_neg h]
  rfl

theorem withCrlf_append (content more : Bytes) :
    withCrlf (content ++ more) = withCrlf content ++ withCrlf more :=
  List.flatMap_append

theorem head?_withCrlf : ∀ content : Bytes, (withCrlf content).head? ≠ some lf
  | [] => by simp [withCrlf]
  | b :: content => by
    by_cases hb : b = lf
    · rw [hb, withCrlf_lf, List.head?_cons]
      decide
    · rw [withCrlf_cons hb, List.head?_cons]
      simpa using hb

theorem withoutCrlf_crlf (content : Bytes) :
    withoutCrlf (cr :: lf :: content) = lf :: withoutCrlf content := by
  rw [withoutCrlf, if_pos ⟨rfl, rfl⟩, withoutCrlf, if_neg (fun h => absurd h.1 (by decide))]

theorem withoutCrlf_withCrlf (content : Bytes) : withoutCrlf (withCrlf content) = content := by
  induction content with
  | nil => rfl
  | cons b content ih =>
    by_cases hb : b = lf
    · rw [hb, withCrlf_lf, withoutCrlf_crlf, ih]
    · rw [withCrlf_cons hb, withoutCrlf, if_neg fun h => head?_withCrlf content h.2, ih]

theorem count_withCrlf (content : Bytes) : (withCrlf content).count lf = content.count lf := by
  induction content with
  | nil => rfl
  | cons b content ih =>
    by_cases hb : b = lf
    · rw [hb, withCrlf_lf, List.count_cons_of_ne (by decide), List.count_cons_self,
        List.count_cons_self, ih]
    · rw [withCrlf_cons hb, List.count_cons_of_ne hb, List.count_cons_of_ne hb, ih]

/-- No line feed is without its carriage return. -/
theorem returned_withCrlf :
    ∀ {content before : Bytes}, withCrlf content = before ++ lf :: after → [cr] <:+ before
  | [], _, h => by simp [withCrlf] at h
  | b :: content, before, h => by
    by_cases hb : b = lf
    · rw [hb, withCrlf_lf] at h
      rcases before with _ | ⟨c, _ | ⟨d, before⟩⟩
      · simp [cr, lf] at h
      · obtain ⟨rfl, -⟩ := List.cons.inj h
        exact List.suffix_rfl
      · have hrest := (List.cons.inj (List.cons.inj h).2).2
        exact (returned_withCrlf hrest).trans ⟨[c, d], rfl⟩
    · rw [withCrlf_cons hb] at h
      rcases before with _ | ⟨c, before⟩
      · exact absurd (List.cons.inj h).1 hb
      · exact (returned_withCrlf (List.cons.inj h).2).trans (List.suffix_cons c before)

theorem crlf_infix_withCrlf (h : lf ∈ content) : crlf <:+: withCrlf content := by
  obtain ⟨before, after, rfl⟩ := List.append_of_mem h
  rw [withCrlf_append, withCrlf_lf]
  exact ⟨withCrlf before, withCrlf after, by simp [crlf]⟩

theorem withCrlf_of_notMem (h : lf ∉ content) : withCrlf content = content := by
  induction content with
  | nil => rfl
  | cons b content ih =>
    obtain ⟨hb, hcontent⟩ := not_or.1 (mt List.mem_cons.2 h)
    rw [withCrlf_cons (Ne.symm hb), ih hcontent]

theorem lf_mem_of_crlf (h : crlf <:+: content) : lf ∈ content := h.subset (by simp [crlf])

end Octets

section Files

variable {t : FileTree} {path : Path} {content : Bytes}

theorem convertToCrlf_refused (hread : t.read path = .ok content) (h : crlf <:+: content) :
    convertToCrlf t path = .error (.alreadyCrlf path) := by
  simp only [convertToCrlf, hread, Except.mapError, bind, Except.bind, if_pos (holds_iff.2 h)]
  rfl

/-- A file without a CRLF is converted where it lies, and reads as what it was converted to. -/
theorem convertToCrlf_converted (hread : t.read path = .ok content) (h : ¬crlf <:+: content) :
    ∃ place, t.source? path = some place ∧ t.IsFree place
      ∧ convertToCrlf t path = .ok (t.set place (.file (withCrlf content)))
      ∧ (t.set place (.file (withCrlf content))).read path = .ok (withCrlf content) := by
  obtain ⟨place, hsource, hfree, hwrite, hagain⟩ := write_of_read hread (withCrlf content)
  refine ⟨place, hsource, hfree, ?_, hagain⟩
  simp only [convertToCrlf, hread, Except.mapError, bind, Except.bind, if_neg (mt holds_iff.1 h),
    hwrite]

/-- A conversion is refused as one of a file with CRLF, and whoever asks for it finds everything as
it was. -/
def Declined (t : FileTree) (path : Path) : Prop :=
  convertToCrlf t path = .error (.alreadyCrlf path)
    ∧ ∀ (i : Invocation) (network : Switchboard), i.request = .convertToCrlf path →
      perform i ⟨network, t⟩ = (.error (.preparation (.alreadyCrlf path)), ⟨network, t⟩)

theorem declined_of_crlf (hread : t.read path = .ok content) (h : crlf <:+: content) :
    Declined t path := by
  have hrefused := convertToCrlf_refused hread h
  refine ⟨hrefused, fun i network hi => ?_⟩
  simp only [perform, hi, hrefused]

/-- What has no line feed is written as it was, and once more. -/
theorem convertToCrlf_again {place : Place} (hsource : t.source? path = some place)
    (hfree : t.IsFree place) (h : lf ∉ content)
    (hread : (t.set place (.file content)).read path = .ok content) :
    convertToCrlf (t.set place (.file content)) path = .ok (t.set place (.file content)) := by
  obtain ⟨place', hsource', -, hconverted, -⟩ := convertToCrlf_converted hread (mt lf_mem_of_crlf h)
  obtain rfl : place = place' := by
    rw [source?_congr hfree.sameWays, hsource] at hsource'
    exact Option.some.inj hsource'
  rw [hconverted, withCrlf_of_notMem h]
  exact congrArg Except.ok (setAll_setAll t [(place, content)])

end Files

/-- A file that holds a CRLF is refused and left as it was. Any other is converted: in what it then
holds a carriage return stands before each line feed, the line feeds are as many as they were, and
without the carriage returns of its CRLFs it is what it was. So a second conversion doubles nothing:
it is refused where there was a line feed, and changes nothing where there was none. -/
theorem convertToCrlf_once {t : FileTree} {path : Path} {content : Bytes}
    (hread : t.read path = .ok content) :
    (crlf <:+: content → Declined t path)
      ∧ (¬crlf <:+: content → ∃ u, convertToCrlf t path = .ok u
        ∧ t.Strewn (fun place => t.source? path = some place) u
        ∧ u.read path = .ok (withCrlf content)
        ∧ (∀ before after, withCrlf content = before ++ lf :: after → [cr] <:+ before)
        ∧ (withCrlf content).count lf = content.count lf
        ∧ withoutCrlf (withCrlf content) = content
        ∧ (lf ∈ content → Declined u path)
        ∧ (lf ∉ content → withCrlf content = content ∧ convertToCrlf u path = .ok u)) := by
  refine ⟨declined_of_crlf hread, fun h => ?_⟩
  obtain ⟨place, hsource, hfree, hconverted, hagain⟩ := convertToCrlf_converted hread h
  refine ⟨t.set place (.file (withCrlf content)), hconverted, strewn_set hfree hsource, hagain,
    fun _ _ => returned_withCrlf, count_withCrlf content, withoutCrlf_withCrlf content,
    fun hlf => declined_of_crlf hagain (crlf_infix_withCrlf hlf), fun hlf => ?_⟩
  rw [withCrlf_of_notMem hlf] at hagain ⊢
  exact ⟨rfl, convertToCrlf_again hsource hfree hlf hagain⟩

/-- A letter with lone carriage returns before and behind its line feeds, and at its end. -/
def returns : FileTree := ⟨[(["m.eml"], .file (utf8 "a\n\rb\r\rc\n\n\r"))]⟩

theorem read_returns : returns.read ⟨"m.eml"⟩ = .ok (utf8 "a\n\rb\r\rc\n\n\r") := by
  have hstop : returns.stopAt .look "m.eml" = returns.stop .look greatestLinks [] ["m.eml"] := rfl
  exact read_of_stops (hstop.trans
    (stop_eq_of_free (by decide) (by decide) (by simp) (by decide) (.inr ⟨_, rfl⟩))) rfl

theorem convertToCrlf_once_returns :
    returns.read ⟨"m.eml"⟩ = .ok (utf8 "a\n\rb\r\rc\n\n\r")
      ∧ ∃ u, convertToCrlf returns ⟨"m.eml"⟩ = .ok u
        ∧ u.read ⟨"m.eml"⟩ = .ok (utf8 "a\r\n\rb\r\rc\r\n\r\n\r")
        ∧ withoutCrlf (utf8 "a\r\n\rb\r\rc\r\n\r\n\r") = utf8 "a\n\rb\r\rc\n\n\r"
        ∧ Declined u ⟨"m.eml"⟩ := by
  have hcrlf : ¬crlf <:+: utf8 "a\n\rb\r\rc\n\n\r" := mt holds_iff.2 (by decide)
  obtain ⟨u, hconverted, -, hread, -, -, hwithout, hrefused, -⟩ :=
    (convertToCrlf_once read_returns).2 hcrlf
  have hwith : withCrlf (utf8 "a\n\rb\r\rc\n\n\r") = utf8 "a\r\n\rb\r\rc\r\n\r\n\r" := by decide
  rw [hwith] at hread hwithout
  exact ⟨read_returns, u, hconverted, hread, hwithout, hrefused (by decide)⟩

end ImapProbe
