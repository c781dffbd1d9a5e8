import ImapProbe.Proofs.Storage.Writing

/-!
# Files that others left

Files were left at some places of a tree, and it is as it was everywhere else (`Strewn`). A file at
none of these places is read and written as before. But for one thing: a path that would go on
behind such a place fails there for another reason, as it now meets a file where there was nothing
(`read_strewn`, `write_strewn`).
-/

namespace ImapProbe.FileTree

variable {t t' u u' v : FileTree} {P Q : Place → Prop} {place q : Place} {content : Bytes}

/-- Files were left at places that were free, and nothing else was changed. -/
def Strewn (P : Place → Prop) (t u : FileTree) : Prop :=
  ∀ q, u.get? q = t.get? q ∨ P q ∧ t.IsFree q ∧ ∃ content, u.get? q = some (.file content)

theorem Strewn.refl (P : Place → Prop) (t : FileTree) : t.Strewn P t := fun _ => .inl rfl

theorem Strewn.mono (h : t.Strewn P u) (hPQ : ∀ q, P q → Q q) : t.Strewn Q u := fun q =>
  (h q).imp_right fun ⟨hq, hrest⟩ => ⟨hPQ q hq, hrest⟩

theorem Strewn.get? (h : t.Strewn P u) (hq : ¬P q) : u.get? q = t.get? q :=
  (h q).resolve_right fun ⟨hp, _⟩ => hq hp

theorem Strewn.sameWays (h : t.Strewn P u) : t.SameWays u := fun q =>
  (h q).imp_right fun ⟨_, hfree, hfile⟩ => ⟨hfree, .inr hfile⟩

theorem Strewn.trans (h : t.Strewn P u) (h' : u.Strewn P v) : t.Strewn P v := fun q => by
  rcases h' q with hv | ⟨hq, hu, hv⟩
  · rw [hv]
    exact h q
  · exact .inr ⟨hq, h.sameWays.symm.isFree hu, hv⟩

theorem strewn_set (h : t.IsFree place) (hp : P place) :
    t.Strewn P (t.set place (.file content)) := fun q => by
  rw [get?_set h.not_given]
  split <;> rename_i hq
  · exact .inr (hq ▸ ⟨hp, h, content, rfl⟩)
  · exact .inl rfl

theorem Strewn.set (h : t.Strewn P u) (hfree : t.IsFree place) :
    (t.set place (.file content)).Strewn P (u.set place (.file content)) := fun q => by
  rw [get?_set hfree.not_given, get?_set (h.sameWays.isFree hfree).not_given]
  split <;> rename_i hq
  · exact .inl rfl
  · exact (h q).imp_right fun ⟨hq, hfree', hfile⟩ =>
      ⟨hq, by simpa only [IsFree, get?_set hfree.not_given, if_neg ‹_›] using hfree', hfile⟩

theorem Written.strewn : ∀ {ws : List (Path × Bytes)} {t t' : FileTree}, Written ws t t' →
    t.Strewn (fun place => ∃ w ∈ ws, t.target? w.1 = some place) t'
  | [], t, _, h => by
    obtain rfl : _ = t := h
    exact .refl _ _
  | (path, content) :: ws, t, t', ⟨u, hw, h⟩ => by
    obtain ⟨q, hq, hfree, rfl⟩ := write_ok hw
    refine (strewn_set hfree ⟨_, List.mem_cons_self, hq⟩).trans (h.strewn.mono ?_)
    rintro place ⟨w, hw, hplace⟩
    exact ⟨w, List.mem_cons_of_mem _ hw, by rwa [target?_set hfree] at hplace⟩

/-- A path goes on behind one of these places, where it stops. -/
def GoesBehind (t : FileTree) (P : Place → Prop) (purpose : Purpose) (path : Path) : Prop :=
  ∃ place name rest, P place ∧ t.stopAt purpose path.text = .ok (place, some (name :: rest))

theorem SameWays.goesBehind_iff (h : t.SameWays u) {purpose : Purpose} {path : Path} :
    u.GoesBehind P purpose path ↔ t.GoesBehind P purpose path := by
  simp only [GoesBehind, stopAt_congr h]

variable {purpose : Purpose} {path : Path}

theorem not_goesBehind (h : t.stopAt purpose path.text = .ok (place, some [])) :
    ¬t.GoesBehind P purpose path := by
  rintro ⟨q, name, rest, -, hq⟩
  rw [h] at hq
  simp at hq

theorem find_strewn (h : t.Strewn P u)
    (hplace : ∀ place, ending (t.find purpose path.text) = some place → ¬P place) :
    u.find purpose path.text = t.find purpose path.text
      ∨ t.GoesBehind P purpose path ∧ t.find purpose path.text = .error .noSuchFile
        ∧ u.find purpose path.text = .error .notDirectory := by
  rw [ending_find] at hplace
  rw [find_eq, find_eq, stopAt_congr h.sameWays]
  rcases hs : t.stopAt purpose path.text with e | ⟨place, _ | _ | ⟨name, rest⟩⟩ <;>
    rw [hs] at hplace
  · exact .inl rfl
  · exact .inl rfl
  · left
    simp only [Except.bind, arrive, h.get? (hplace place rfl)]
  · rcases h place with hu | ⟨hp, ht | ⟨content, ht⟩, content', hu⟩
    · left
      simp only [Except.bind, arrive, hu]
    · exact .inr ⟨⟨place, name, rest, hp, hs⟩, by simp [Except.bind, arrive, ht],
        by simp [Except.bind, arrive, hu]⟩
    · left
      simp [Except.bind, arrive, ht, hu]

theorem read_strewn (h : t.Strewn P u)
    (hplace : ∀ place, t.source? path = some place → ¬P place) :
    u.read path = t.read path
      ∨ t.GoesBehind P .look path ∧ t.read path = .error .noSuchFile
        ∧ u.read path = .error .notDirectory := by
  rcases find_strewn h hplace with hf | ⟨hbehind, ht, hu⟩
  · left
    simp only [read, hf]
  · exact .inr ⟨hbehind, by simp only [read, ht], by simp only [read, hu]⟩

/-- A file is written to both trees at one place, or to neither. -/
theorem write_strewn (h : t.Strewn P u) (path : Path) (content : Bytes) :
    (∃ place, t.IsFree place ∧ t.write path content = .ok (t.set place (.file content))
        ∧ u.write path content = .ok (u.set place (.file content)))
      ∨ (∃ e, t.write path content = .error e ∧ u.write path content = .error e)
      ∨ t.GoesBehind P .write path ∧ t.write path content = .error .noSuchFile
        ∧ u.write path content = .error .notDirectory := by
  have hstop : u.stopAt .write path.text = t.stopAt .write path.text := stopAt_congr h.sameWays
  have hfailed : ∀ {v : FileTree} {e : IoFault},
      v.find .write path.text = .error e → v.write path content = .error e :=
    fun hv => by rw [write, hv]
  rcases hs : t.stopAt .write path.text with e | ⟨place, _ | _ | ⟨name, rest⟩⟩ <;> rw [hs] at hstop
  · exact .inr (.inl ⟨e, hfailed (by rw [find_eq, hs]; rfl), hfailed (by rw [find_eq, hstop]; rfl)⟩)
  · exact .inr (.inl ⟨.isDirectory, write_of_directory hs, write_of_directory hstop⟩)
  · exact .inl ⟨place, stopAt_free hs, write_of_stops hs, write_of_stops hstop⟩
  · have hnone : ∀ place, ending (t.find .write path.text) = some place → ¬P place := by
      rw [ending_find, hs]
      simp [Except.toOption, landing]
    rcases find_strewn h hnone with hf | ⟨hbehind, ht, hu⟩
    · have hfound : ∃ e, t.find .write path.text = .error e := by
        rcases hget : t.get? place <;> simp [find_eq, hs, Except.bind, arrive, hget]
      obtain ⟨e, he⟩ := hfound
      exact .inr (.inl ⟨e, hfailed he, hfailed (hf.trans he)⟩)
    · exact .inr (.inr ⟨hbehind, hfailed ht, hfailed hu⟩)

end ImapProbe.FileTree
