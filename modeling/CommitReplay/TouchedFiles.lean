import CommitReplay.WorktreeFiles

/-! What `touched_files` lists: of the parent's paths those that differ, and of the others those that
no rule of the parent hides, each directory above them included. -/
namespace CommitReplay.TouchedFiles

open CommitReplay.PathTrees CommitReplay.PythonText CommitReplay.WorktreeFiles
open CommitReplay.WorktreeFiles.Workspace

variable {ws : Workspace} {p d : Path} {e : Entry} {m : Mark}

lemma mem_marked {marks : List (Mark × Path)} : p ∈ marked m marks ↔ (m, p) ∈ marks := by
  rw [marked, List.mem_map]
  constructor
  · rintro ⟨x, hx, rfl⟩
    obtain ⟨hx, hm⟩ := List.mem_filter.mp hx
    rwa [← of_decide_eq_true hm]
  · intro h
    exact ⟨(m, p), List.mem_filter.mpr ⟨h, decide_eq_true rfl⟩, rfl⟩

lemma fst_of_mem_visit {x : Path × Entry} (h : (m, p) ∈ ws.visit x) : p = x.1 := by
  rw [visit] at h
  by_cases hgit : x.1.getLast? = some ".git"
  · rw [if_pos hgit] at h
    cases h
  · rw [if_neg hgit] at h
    split at h <;> [skip; split_ifs at h; skip; split_ifs at h] <;> simp at h <;> tauto

lemma mem_scan : (m, p) ∈ ws.scan d ↔
    ∃ e, ws.tree.get? p = some e ∧ p.dropLast = d ∧ (m, p) ∈ ws.visit (p, e) := by
  rw [scan, List.mem_flatMap]
  constructor
  · rintro ⟨⟨q, e⟩, hx, hm⟩
    obtain rfl : p = q := fst_of_mem_visit hm
    obtain ⟨hget, hd⟩ := Tree.mem_children.mp hx
    exact ⟨e, hget, hd, hm⟩
  · rintro ⟨e, hget, hd, hm⟩
    exact ⟨(p, e), Tree.mem_children.mpr ⟨hget, hd⟩, hm⟩

lemma marked_flatMap (ds : List Path) :
    marked m (ds.flatMap ws.scan) = ds.flatMap fun d => marked m (ws.scan d) := by
  simp only [marked, List.filter_flatMap, List.map_flatMap]

/-- The walk reads the directories that it enters. -/
lemma walk_eq (n : ℕ) (level : List Path) : ws.walk n level =
    (entered (fun d => marked .subdir (ws.scan d)) ws.nextLevel n level).flatMap ws.scan := by
  induction n generalizing level with
  | zero => rfl
  | succ n ih => rw [walk, entered, List.flatMap_append, ih, marked_flatMap]

/-- A directory is gone on with where it is a submodule of neither name nor mode, and the parent
tracks something under it or no rule of the parent hides it. -/
def Walked (ws : Workspace) (d : Path) : Prop :=
  d.getLast? ≠ some ".git" ∧ (∀ entry ∈ ws.tracked d, entry.mode ≠ .gitlink) ∧
    (ws.isTrackedDir d = true ∨ ws.notIgnoredByParent d = true)

lemma mem_subdirs : d ∈ marked .subdir (ws.scan d.dropLast) ↔ ws.tree.get? d = some .dir ∧
    d.getLast? ≠ some ".git" ∧ ∀ entry ∈ ws.tracked d, entry.mode ≠ .gitlink := by
  rw [mem_marked, mem_scan]
  constructor
  · rintro ⟨e, hget, -, hm⟩
    rw [visit] at hm
    by_cases hgit : d.getLast? = some ".git"
    · rw [if_pos hgit] at hm
      cases hm
    · rw [if_neg hgit] at hm
      refine ⟨?_, hgit, fun entry hentry hmode => ?_⟩
      · cases e with
        | dir => exact hget
        | file | link => cases ht : ws.tracked d <;> simp [ht] at hm
      · rw [Option.mem_def] at hentry
        cases e with
        | dir => simp [hentry, hmode] at hm
        | file | link => simp [hentry] at hm
  · rintro ⟨hget, hgit, hmode⟩
    refine ⟨.dir, hget, rfl, ?_⟩
    rw [visit, if_neg hgit]
    cases ht : ws.tracked d with
    | none => simp
    | some entry => simp [hmode entry ht]

/-- The walk marks a path where it goes on with every directory above it. -/
lemma mem_walk (hget : ws.tree.get? p = some e) : (m, p) ∈ ws.walk (ws.tree.height + 1) [[]] ↔
    (∀ d ∈ above p, Walked ws d) ∧ (m, p) ∈ ws.visit (p, e) := by
  have hsub : ∀ d, ∀ c ∈ marked .subdir (ws.scan d), c ≠ [] ∧ c.dropLast = d := by
    intro d c hc
    obtain ⟨e, hget, hd, -⟩ := mem_scan.mp (mem_marked.mp hc)
    exact ⟨Tree.ne_nil_of_get? hget, hd⟩
  have hnext : ∀ ds c, c ∈ ws.nextLevel ds ↔
      c ∈ ds ∧ (ws.isTrackedDir c = true ∨ ws.notIgnoredByParent c = true) := by
    intro ds c
    rw [nextLevel, List.mem_filter, Bool.or_eq_true]
  have hscan : (m, p) ∈ ws.scan p.dropLast ↔ (m, p) ∈ ws.visit (p, e) := by
    rw [mem_scan]
    constructor
    · rintro ⟨e', hget', -, hm⟩
      rw [hget] at hget'
      rwa [Option.some.inj hget']
    · exact fun hm => ⟨e, hget, rfl, hm⟩
  have habove : ∀ c, c ∈ above p ↔ [] <+: c ∧ c <+: p.dropLast ∧ c ≠ [] := by
    intro c
    rw [above, List.mem_filter, List.mem_inits, decide_eq_true_eq]
    exact ⟨fun h => ⟨List.nil_prefix, h⟩, fun h => h.2⟩
  have henter : p.dropLast ∈ entered (fun d => marked .subdir (ws.scan d)) ws.nextLevel
      (ws.tree.height + 1) [[]] ↔ ∀ d ∈ above p, Walked ws d := by
    rw [mem_entered hsub hnext]
    have hlen := Tree.length_le_height hget
    have hlast : p.dropLast.length = p.length - 1 := List.length_dropLast
    constructor
    · rintro ⟨b, hb, -, -, hway⟩ d hd
      obtain rfl := List.mem_singleton.mp hb
      obtain ⟨hnil, hpre, hne⟩ := (habove d).mp hd
      obtain ⟨hsubdir, hgo⟩ := hway d hnil hpre hne
      obtain ⟨-, hgit, hmode⟩ := mem_subdirs.mp hsubdir
      exact ⟨hgit, hmode, hgo⟩
    · intro h
      refine ⟨[], List.mem_singleton_self _, List.nil_prefix, by simp; omega, ?_⟩
      intro c hnil hpre hne
      have hc := (habove c).mpr ⟨hnil, hpre, hne⟩
      obtain ⟨hgit, hmode, hgo⟩ := h c hc
      obtain ⟨e', hget', hdir⟩ := Tree.get?_above hget hc
      have hisdir : e' = .dir := by cases e' <;> first | rfl | cases hdir
      exact ⟨mem_subdirs.mpr ⟨hisdir ▸ hget', hgit, hmode⟩, hgo⟩
  rw [walk_eq, List.mem_flatMap]
  constructor
  · rintro ⟨d, hd, hm⟩
    obtain ⟨-, -, rfl, -⟩ := mem_scan.mp hm
    exact ⟨henter.mp hd, hscan.mp hm⟩
  · intro h
    exact ⟨p.dropLast, henter.mpr h.1, hscan.mpr h.2⟩

lemma exists_of_mem_walk {n : ℕ} {level : List Path} (h : (m, p) ∈ ws.walk n level) :
    ∃ e, ws.tree.get? p = some e := by
  rw [walk_eq, List.mem_flatMap] at h
  obtain ⟨d, -, hm⟩ := h
  obtain ⟨e, hget, -⟩ := mem_scan.mp hm
  exact ⟨e, hget⟩

lemma mem_touchedFiles : p ∈ ws.touchedFiles ↔ ws.harnessUnchanged p = false ∧
    p ∈ ws.touchedSet := by
  rw [touchedFiles, List.mem_mergeSort, List.mem_filter, List.mem_dedup, Bool.not_eq_true',
    and_comm]

section Parent

variable {t : CommitTree} {o : Object}

lemma get?_eq_some : t.get? p = some o ↔ (p, o) ∈ t.objects := by
  constructor
  · intro h
    obtain ⟨x, hx, rfl⟩ := Option.map_eq_some_iff.mp h
    have hp : x.1 = p := by simpa using List.find?_some hx
    rw [← hp]
    exact List.mem_of_find?_eq_some hx
  · intro h
    obtain ⟨x, hx⟩ := Option.isSome_iff_exists.mp
      (List.find?_isSome.mpr ⟨(p, o), h, decide_eq_true rfl⟩ :
        (t.objects.find? (·.1 = p)).isSome)
    have hp : x.1 = p := by simpa using List.find?_some hx
    have heq := List.inj_on_of_nodup_map t.nodup (List.mem_of_find?_eq_some hx) h hp
    rw [CommitTree.get?, hx, heq]
    rfl

lemma tracked_eq_none : ws.tracked p = none ↔ ws.parent.get? p = none := Option.map_eq_none_iff

/-- Above a path of the parent are directories that it tracks something under. -/
lemma walked_of_parent (h : ws.parent.get? p = some o) (hd : d ∈ above p) : Walked ws d := by
  have hmem := get?_eq_some.mp h
  refine ⟨fun hgit => ?_, fun entry hentry => ?_, .inl ?_⟩
  · have hpre := (mem_above.mp hd).2.1
    exact ws.parent.plain _ hmem (hpre.subset (List.mem_of_getLast? hgit))
  · obtain ⟨o', ho', -⟩ := Option.map_eq_some_iff.mp hentry
    exact absurd hd (ws.parent.leaves _ (get?_eq_some.mp ho') _ hmem)
  · exact List.any_eq_true.mpr ⟨(p, o), hmem, decide_eq_true hd⟩

end Parent

/-- Whether an entry stands for one of the parent's tree. -/
def changed (ws : Workspace) (entry : TreeEntry) : Option Entry → Bool
  | none => true
  | some .dir => entry.mode ≠ .gitlink
  | some e => !ws.entryUnchanged entry e

/-- A path of the parent is touched where what stands there has changed. -/
theorem mem_touchedFiles_of_tracked {entry : TreeEntry} (h : ws.tracked p = some entry) :
    p ∈ ws.touchedFiles ↔
      ws.harnessUnchanged p = false ∧ changed ws entry (ws.tree.get? p) = true := by
  obtain ⟨o, ho, -⟩ := Option.map_eq_some_iff.mp h
  have hmem := get?_eq_some.mp ho
  have hplain : p.getLast? ≠ some ".git" := fun hgit =>
    ws.parent.plain _ hmem (List.mem_of_getLast? hgit)
  rw [mem_touchedFiles, touchedSet, List.mem_append, List.mem_append, mem_marked]
  refine and_congr_right fun _ => ?_
  have hcandidate : ¬ (Mark.candidate, p) ∈ ws.walk (ws.tree.height + 1) [[]] := by
    intro hm
    obtain ⟨e, hget⟩ := exists_of_mem_walk hm
    have hvisit := ((mem_walk hget).mp hm).2
    rw [visit, if_neg hplain, h] at hvisit
    cases e <;> simp at hvisit
    all_goals split_ifs at hvisit <;> simp at hvisit
  have hdeleted : p ∈ (ws.parent.objects.map Prod.fst).filter
      (· ∉ marked .seen (ws.walk (ws.tree.height + 1) [[]])) ↔
      ¬ (Mark.seen, p) ∈ ws.walk (ws.tree.height + 1) [[]] := by
    rw [List.mem_filter, decide_eq_true_eq, mem_marked]
    exact and_iff_right (List.mem_map.mpr ⟨_, hmem, rfl⟩)
  have hlist : ¬ p ∈ (marked .candidate (ws.walk (ws.tree.height + 1) [[]])).filter
      ws.notIgnoredByParent := fun hp => hcandidate (mem_marked.mp (List.mem_of_mem_filter hp))
  rw [hdeleted, or_iff_left hlist]
  cases hget : ws.tree.get? p with
  | none =>
    refine iff_of_true (.inr fun hm => ?_) rfl
    obtain ⟨e, he⟩ := exists_of_mem_walk hm
    rw [hget] at he
    cases he
  | some e =>
    have hwalked : ∀ d ∈ above p, Walked ws d := fun d hd => walked_of_parent ho hd
    rw [mem_walk hget, mem_walk hget, and_iff_right hwalked, and_iff_right hwalked, visit,
      if_neg hplain, h]
    cases e with
    | dir => by_cases hmode : entry.mode = .gitlink <;> simp [changed, hmode]
    | file bytes exec =>
      cases hu : ws.entryUnchanged entry (.file bytes exec) <;> simp [changed, hu]
    | link target => cases hu : ws.entryUnchanged entry (.link target) <;> simp [changed, hu]

/-- Another path is touched where it is a file or a link and no rule of the parent hides it. -/
theorem mem_touchedFiles_of_untracked (h : ws.parent.get? p = none) :
    p ∈ ws.touchedFiles ↔ ws.harnessUnchanged p = false ∧
      ∃ e, ws.tree.get? p = some e ∧ e ≠ .dir ∧ p.getLast? ≠ some ".git" ∧
        (∀ d ∈ above p, Walked ws d) ∧ ws.notIgnoredByParent p = true := by
  have hnone := tracked_eq_none.mpr h
  rw [mem_touchedFiles, touchedSet, List.mem_append, List.mem_append, mem_marked]
  refine and_congr_right fun _ => ?_
  have htouched : ¬ (Mark.touched, p) ∈ ws.walk (ws.tree.height + 1) [[]] := by
    intro hm
    obtain ⟨e, hget⟩ := exists_of_mem_walk hm
    have hvisit := ((mem_walk hget).mp hm).2
    rw [visit, hnone] at hvisit
    cases e <;> split_ifs at hvisit <;> simp at hvisit
  have hdeleted : ¬ p ∈ (ws.parent.objects.map Prod.fst).filter
      (· ∉ marked .seen (ws.walk (ws.tree.height + 1) [[]])) := by
    intro hp
    obtain ⟨x, hx, rfl⟩ := List.mem_map.mp (List.mem_of_mem_filter hp)
    rw [get?_eq_some.mpr hx] at h
    cases h
  rw [or_iff_right (not_or_intro htouched hdeleted), List.mem_filter, mem_marked]
  constructor
  · rintro ⟨hm, hshown⟩
    obtain ⟨e, hget⟩ := exists_of_mem_walk hm
    obtain ⟨hwalked, hvisit⟩ := (mem_walk hget).mp hm
    rw [visit, hnone] at hvisit
    by_cases hgit : p.getLast? = some ".git"
    · rw [if_pos hgit] at hvisit
      cases hvisit
    · rw [if_neg hgit] at hvisit
      refine ⟨e, hget, ?_, hgit, hwalked, hshown⟩
      rintro rfl
      simp at hvisit
  · rintro ⟨e, hget, hdir, hgit, hwalked, hshown⟩
    refine ⟨(mem_walk hget).mpr ⟨hwalked, ?_⟩, hshown⟩
    rw [visit, if_neg hgit, hnone]
    cases e with
    | dir => exact absurd rfl hdir
    | file | link => simp

end CommitReplay.TouchedFiles
