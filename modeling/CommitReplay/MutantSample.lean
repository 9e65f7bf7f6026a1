import CommitReplay.GradeRows
import CommitReplay.RoundRobin

/-! The sample of a task's mutants: each file's candidates ranked by a hash, and the files read in turn until
the plan is full or every file is exhausted. -/
namespace CommitReplay.MutantSample

open CommitReplay.GradeRows CommitReplay.RoundRobin

section Sample

/-- One candidate fault. -/
structure Mutant where
  mutantId : String
  op : String
  line : ℤ
  col : ℤ
  description : String
  mutatedSource : String
  path : String
deriving DecidableEq, Repr

/-- The candidates of each file, a file once. -/
structure PerFile where
  files : List (String × List Mutant)
  nodup : (files.map Prod.fst).Nodup

variable (sha256 : Sha256) (taskId : String)

/-- `rank_key`: a mutant's place in its file's sample. -/
def rankKey (m : Mutant) : String :=
  sha256.hex (taskId ++ "|" ++ m.path ++ "|" ++ toString m.line ++ "|" ++ toString m.col ++ "|" ++ m.op).toList

/-- The rank, and what breaks its ties. -/
def sampleKey (m : Mutant) : String ×ₗ String ×ₗ String :=
  toLex (rankKey sha256 taskId m, toLex (m.description, m.mutatedSource))

/-- A file's candidates as they are ranked. -/
def rank (ms : List Mutant) : List Mutant :=
  ms.insertionSort fun m m' => sampleKey sha256 taskId m ≤ sampleKey sha256 taskId m'

/-- The files in path order, their candidates ranked. -/
def ranked (perFile : PerFile) : List (String × List Mutant) :=
  (perFile.files.map fun f => (f.1, rank sha256 taskId f.2)).insertionSort fun f g => f.1 ≤ g.1

/-- The plan's size: one mutant for each file that has one, and none where none are asked for. -/
def cap (files : List (String × List Mutant)) (maxMutants : ℤ) : ℕ :=
  if 0 < maxMutants then max maxMutants.toNat (files.countP fun f => f.2 ≠ []) else 0

/-- A file's turn. -/
def take (cap depth : ℕ) (out : List Mutant) (f : String × List Mutant) : List Mutant :=
  if cap ≤ out.length then out
  else match f.2[depth]? with
    | some m => out ++ [m]
    | none => out

/-- Round after round, until the plan is full or every file is exhausted. -/
def rounds (cap : ℕ) (files : List (String × List Mutant)) (depth : ℕ) (out : List Mutant) : List Mutant :=
  if h : out.length < cap ∧ ∃ f ∈ files, depth < f.2.length then
    rounds cap files (depth + 1) (files.foldl (take cap depth) out)
  else out
termination_by (files.map (·.2.length)).sum - depth
decreasing_by
  obtain ⟨-, f, hf, hlt⟩ := h
  have hle : f.2.length ≤ (files.map (·.2.length)).sum :=
    List.single_le_sum (fun _ _ => Nat.zero_le _) _ (List.mem_map.mpr ⟨f, hf, rfl⟩)
  omega

/-- `sample_mutants`. -/
def sampleMutants (perFile : PerFile) (maxMutants : ℤ) : List Mutant :=
  let files := ranked sha256 taskId perFile
  rounds (cap files maxMutants) files 0 []

end Sample

section Places

variable {files : List (String × List Mutant)} {depth n : ℕ} {out : List Mutant}

/-- How many candidates each file has. -/
def lengths (files : List (String × List Mutant)) : List (String × ℕ) := files.map fun f => (f.1, f.2.length)

/-- The candidate at a place of a file. -/
def mutantAt (files : List (String × List Mutant)) (c : String × ℕ) : Option Mutant :=
  (files.lookup c.1).bind (·[c.2]?)

lemma map_fst_lengths : (lengths files).map Prod.fst = files.map Prod.fst := by
  simp [lengths]

lemma sum_lengths : ((lengths files).map Prod.snd).sum = (files.map (·.2.length)).sum := by
  simp [lengths, Function.comp_def]

lemma mutantAt_mem (h : (files.map Prod.fst).Nodup) {f : String × List Mutant} (hf : f ∈ files) :
    mutantAt files (f.1, depth) = f.2[depth]? := by
  have hlookup : files.lookup f.1 = some f.2 := by
    induction files with
    | nil => cases hf
    | cons g files ih =>
      rw [List.map_cons, List.nodup_cons] at h
      rcases List.mem_cons.mp hf with rfl | hf
      · rw [List.lookup_cons_self]
      · have hne : f.1 ≠ g.1 := fun he => h.1 (List.mem_map.mpr ⟨f, hf, he⟩)
        rw [List.lookup_cons, beq_false_of_ne hne]
        exact ih h.2 hf
  rw [mutantAt, hlookup, Option.bind_some]

lemma filterMap_turn (h : (files.map Prod.fst).Nodup) :
    (turn (lengths files) depth).filterMap (mutantAt files) = files.filterMap (·.2[depth]?) := by
  have hall : ∀ gs, gs ⊆ files → (turn (lengths gs) depth).filterMap (mutantAt files) =
      gs.filterMap (·.2[depth]?) := by
    intro gs hgs
    induction gs with
    | nil => rfl
    | cons g gs ih =>
      have hg := hgs List.mem_cons_self
      have ih := ih fun f hf => hgs (List.mem_cons_of_mem _ hf)
      rw [List.filterMap_cons, ← ih, lengths, List.map_cons, turn, List.filter_cons]
      by_cases hlt : depth < g.2.length
      · simp [hlt, mutantAt_mem h hg, turn, lengths]
      · simp [hlt, turn, lengths]
  exact hall files (List.Subset.refl _)

lemma filterMap_take {α β : Type} {f : α → Option β} {l : List α} (h : ∀ a ∈ l, (f a).isSome = true) :
    (l.take n).filterMap f = (l.filterMap f).take n := by
  induction l generalizing n with
  | nil => simp
  | cons a l ih =>
    obtain ⟨b, hb⟩ := Option.isSome_iff_exists.mp (h a List.mem_cons_self)
    cases n with
    | zero => rfl
    | succ n =>
      rw [List.take_succ_cons, List.filterMap_cons_some hb, List.filterMap_cons_some hb, List.take_succ_cons,
        ih fun x hx => h x (List.mem_cons_of_mem _ hx)]

lemma map_some_filterMap {α β : Type} {f : α → Option β} {l : List α} (h : ∀ a ∈ l, (f a).isSome = true) :
    (l.filterMap f).map some = l.map f := by
  induction l with
  | nil => rfl
  | cons a l ih =>
    obtain ⟨b, hb⟩ := Option.isSome_iff_exists.mp (h a List.mem_cons_self)
    rw [List.filterMap_cons_some hb, List.map_cons, List.map_cons, hb,
      ih fun x hx => h x (List.mem_cons_of_mem _ hx)]

lemma take_append_take (l m : List Mutant) (n : ℕ) : (l.take n ++ m).take n = (l ++ m).take n := by
  rcases le_total n l.length with hle | hle
  · rw [List.take_append_of_le_length (by simp [hle]), List.take_append_of_le_length hle, List.take_take,
      Nat.min_self]
  · rw [List.take_of_length_le hle]

/-- A round adds each file's candidate at its depth, as far as there is room. -/
lemma foldl_take (gs : List (String × List Mutant)) (hle : out.length ≤ n) :
    gs.foldl (take n depth) out = (out ++ gs.filterMap (·.2[depth]?)).take n := by
  induction gs generalizing out with
  | nil => simp [List.take_of_length_le hle]
  | cons g gs ih =>
    rw [List.foldl_cons, take]
    split_ifs with hfull
    · rw [ih hle, List.take_append_of_le_length hfull, List.take_append_of_le_length hfull]
    · rw [List.filterMap_cons]
      cases g.2[depth]? with
      | none => exact ih hle
      | some m =>
        have hroom : (out ++ [m]).length ≤ n := by
          rw [List.length_append, List.length_singleton]
          omega
        exact (ih hroom).trans (by rw [List.append_assoc, List.singleton_append])

/-- The rounds from a depth on give the places of the turns from there, as far as there is room. -/
theorem rounds_eq (h : (files.map Prod.fst).Nodup) (hle : out.length ≤ n) {rest : ℕ}
    (hrest : depth + rest = (files.map (·.2.length)).sum ∨ (files.map (·.2.length)).sum ≤ depth ∧ rest = 0) :
    rounds n files depth out =
      (out ++ (turnsFrom (lengths files) depth rest).filterMap (mutantAt files)).take n := by
  induction rest generalizing depth out with
  | zero =>
    have hnone : ¬∃ f ∈ files, depth < f.2.length := by
      rintro ⟨f, hf, hlt⟩
      have hsum : f.2.length ≤ (files.map (·.2.length)).sum :=
        List.single_le_sum (fun _ _ => Nat.zero_le _) _ (List.mem_map.mpr ⟨f, hf, rfl⟩)
      omega
    rw [rounds, dif_neg fun hin => hnone hin.2]
    simp [turnsFrom, List.take_of_length_le hle]
  | succ rest ih =>
    have hturns : turnsFrom (lengths files) depth (rest + 1) =
        turn (lengths files) depth ++ turnsFrom (lengths files) (depth + 1) rest := by
      rw [turnsFrom, List.range'_succ, List.flatMap_cons]
      rfl
    have hround : files.foldl (take n depth) out = (out ++ files.filterMap (·.2[depth]?)).take n :=
      foldl_take files hle
    have hroom : (files.foldl (take n depth) out).length ≤ n := by
      rw [hround]
      exact List.length_take_le _ _
    have hnext := @ih (depth + 1) _ hroom (by omega)
    rw [hround, take_append_take, ← filterMap_turn h, List.append_assoc, ← List.filterMap_append,
      ← hturns] at hnext
    rw [rounds]
    split_ifs with hopen
    · rw [hround, ← filterMap_turn h]
      exact hnext
    · rcases not_and_or.mp hopen with hfull | hnone
      · rw [List.take_append_of_le_length (not_lt.mp hfull), List.take_of_length_le hle]
      · have hempty : turnsFrom (lengths files) depth (rest + 1) = [] := by
          refine List.eq_nil_iff_forall_not_mem.mpr fun c hc => hnone ?_
          obtain ⟨d, hd, hc⟩ := List.mem_flatMap.mp hc
          obtain ⟨-, len, hlen, hlt⟩ := mem_turn.mp hc
          obtain ⟨f, hf, he⟩ := List.mem_map.mp hlen
          have hdepth := (List.mem_range'_1.mp hd).1
          exact ⟨f, hf, (Prod.mk.inj he).2 ▸ by omega⟩
        rw [hempty, List.filterMap_nil, List.append_nil, List.take_of_length_le hle]

end Places

section Fairness

variable {sha256 : Sha256} {taskId : String} {perFile other : PerFile} {maxMutants : ℤ}

lemma ranked_perm : (ranked sha256 taskId perFile).Perm
    (perFile.files.map fun f => (f.1, rank sha256 taskId f.2)) :=
  List.perm_insertionSort _ _

lemma nodup_ranked : ((ranked sha256 taskId perFile).map Prod.fst).Nodup := by
  refine (ranked_perm.map Prod.fst).nodup_iff.mpr ?_
  rw [List.map_map]
  exact perFile.nodup

lemma isSome_mutantAt {files : List (String × List Mutant)} (h : (files.map Prod.fst).Nodup) :
    ∀ c ∈ turns (lengths files), (mutantAt files c).isSome = true := by
  intro c hc
  obtain ⟨len, hlen, hlt⟩ := mem_turns.mp hc
  obtain ⟨f, hf, he⟩ := List.mem_map.mp hlen
  obtain ⟨hpath, rfl⟩ := Prod.mk.inj he
  rw [← Prod.mk.eta (p := c), ← hpath, mutantAt_mem h hf, List.getElem?_eq_getElem hlt]
  rfl

/-- A sample takes the front of the turns through the ranked files. -/
theorem sampleMutants_eq : sampleMutants sha256 taskId perFile maxMutants =
    ((turns (lengths (ranked sha256 taskId perFile))).take
      (cap (ranked sha256 taskId perFile) maxMutants)).filterMap (mutantAt (ranked sha256 taskId perFile)) := by
  rw [filterMap_take (isSome_mutantAt nodup_ranked), sampleMutants,
    rounds_eq nodup_ranked (Nat.zero_le _) (.inl (Nat.zero_add _)), List.nil_append, turns, sum_lengths]

/-- What a sample takes of the files, each with its candidates as they are ranked. -/
structure Fair (files : List (String × List Mutant)) (maxMutants : ℤ) (picks : List (String × ℕ))
    (out : List Mutant) : Prop where
  out_eq : out.map some = picks.map (mutantAt files)
  length_eq : picks.length = min (files.map (·.2.length)).sum (cap files maxMutants)
  nodup : picks.Nodup
  /-- The front of each file. -/
  front : ∀ f ∈ files, taken (lengths files) (cap files maxMutants) f.1 ≤ f.2.length ∧
    picks.filter (·.1 = f.1) =
      (List.range (taken (lengths files) (cap files maxMutants) f.1)).map fun i => (f.1, i)
  even : ∀ f ∈ files, ∀ g ∈ files,
    taken (lengths files) (cap files maxMutants) g.1 < g.2.length →
      taken (lengths files) (cap files maxMutants) f.1 ≤ taken (lengths files) (cap files maxMutants) g.1 + 1
  reaches : 0 < maxMutants → ∀ f ∈ files, f.2 ≠ [] → 0 < taken (lengths files) (cap files maxMutants) f.1

lemma mem_lengths {files : List (String × List Mutant)} {f : String × List Mutant} (hf : f ∈ files) :
    (f.1, f.2.length) ∈ lengths files :=
  List.mem_map.mpr ⟨f, hf, rfl⟩

/-- A plan of one or more has room for every file that has a candidate. -/
lemma filter_le_cap {files : List (String × List Mutant)} (h : 0 < maxMutants) :
    ((lengths files).filter fun c => 0 < c.2).length ≤ cap files maxMutants := by
  have hcount : ((lengths files).filter fun c => 0 < c.2).length = files.countP fun f => f.2 ≠ [] := by
    rw [← List.countP_eq_length_filter, lengths, List.countP_map]
    exact List.countP_congr fun f _ => by simp [List.length_pos_iff]
  rw [hcount, cap, if_pos h]
  exact le_max_right _ _

theorem fair_sample : Fair (ranked sha256 taskId perFile) maxMutants
    ((turns (lengths (ranked sha256 taskId perFile))).take (cap (ranked sha256 taskId perFile) maxMutants))
    (sampleMutants sha256 taskId perFile maxMutants) := by
  have hnodup : ((lengths (ranked sha256 taskId perFile)).map Prod.fst).Nodup := by
    rw [map_fst_lengths]
    exact nodup_ranked
  refine ⟨?_, ?_, (nodup_turns hnodup).sublist (List.take_sublist _ _), fun f hf => ⟨?_, ?_⟩,
    fun f hf g hg hopen => ?_, fun hmax f hf hne => ?_⟩
  · rw [sampleMutants_eq]
    exact map_some_filterMap fun c hc => isSome_mutantAt nodup_ranked c (List.mem_of_mem_take hc)
  · rw [List.length_take, length_turns hnodup, sum_lengths, Nat.min_comm]
  · exact taken_le hnodup (mem_lengths hf)
  · exact filter_take hnodup (mem_lengths hf)
  · exact taken_le_succ hnodup (mem_lengths hf) (mem_lengths hg) hopen
  · exact taken_pos hnodup (mem_lengths hf) (List.length_pos_iff.mpr hne) (filter_le_cap hmax)

lemma insertionSort_eq_of_perm {α β : Type} [LinearOrder β] {key : α → β} {l l' : List α} (h : l.Perm l')
    (hkey : (l.map key).Nodup) :
    l.insertionSort (fun a b => key a ≤ key b) = l'.insertionSort fun a b => key a ≤ key b := by
  refine (((List.perm_insertionSort _ l).trans h).trans (List.perm_insertionSort _ l').symm).eq_of_pairwise
    (fun a b ha hb hab hba => ?_) (List.pairwise_insertionSort _ l) (List.pairwise_insertionSort _ l')
  exact List.inj_on_of_nodup_map hkey ((List.mem_insertionSort _).mp ha)
    (h.mem_iff.mpr ((List.mem_insertionSort _).mp hb)) (le_antisymm hab hba)

/-- The order in which the files come does not matter. -/
lemma ranked_eq_of_perm (h : other.files.Perm perFile.files) :
    ranked sha256 taskId other = ranked sha256 taskId perFile := by
  refine insertionSort_eq_of_perm (h.map _) ?_
  rw [List.map_map]
  exact other.nodup

/-- A file whose candidates come in another order, no two with one rank, tie-breaks included. -/
def Shuffled (sha256 : Sha256) (taskId : String) (f g : String × List Mutant) : Prop :=
  f.1 = g.1 ∧ f.2.Perm g.2 ∧ (f.2.map (sampleKey sha256 taskId)).Nodup

/-- Nor does the order in which a file's candidates come. -/
lemma ranked_eq_of_shuffled (h : List.Forall₂ (Shuffled sha256 taskId) other.files perFile.files) :
    ranked sha256 taskId other = ranked sha256 taskId perFile := by
  have hmap : (other.files.map fun f => (f.1, rank sha256 taskId f.2)) =
      perFile.files.map fun f => (f.1, rank sha256 taskId f.2) := by
    refine List.forall₂_eq_eq_eq ▸ List.forall₂_map_left_iff.mpr (List.forall₂_map_right_iff.mpr ?_)
    exact h.imp fun f g hfg => Prod.ext hfg.1 (insertionSort_eq_of_perm hfg.2.1 hfg.2.2)
  rw [ranked, hmap, ranked]

lemma sampleMutants_congr (h : ranked sha256 taskId other = ranked sha256 taskId perFile) :
    sampleMutants sha256 taskId other maxMutants = sampleMutants sha256 taskId perFile maxMutants := by
  rw [sampleMutants, h, sampleMutants]

/-- A sample is fair to the files it is taken of, each ranked, and is the same whatever order the files come
in, and the candidates of each where no two have one rank. -/
theorem sampleMutants_fair (sha256 : Sha256) (taskId : String) (perFile : PerFile) (maxMutants : ℤ) :
    ((ranked sha256 taskId perFile).map Prod.fst).Nodup ∧
    (∀ f ∈ ranked sha256 taskId perFile, (∃ ms, (f.1, ms) ∈ perFile.files ∧ f.2.Perm ms) ∧
      f.2.Pairwise fun m m' => sampleKey sha256 taskId m ≤ sampleKey sha256 taskId m') ∧
    (∀ f ∈ perFile.files, ∃ ms, (f.1, ms) ∈ ranked sha256 taskId perFile ∧ ms.Perm f.2) ∧
    (∃ picks, Fair (ranked sha256 taskId perFile) maxMutants picks
      (sampleMutants sha256 taskId perFile maxMutants)) ∧
    (maxMutants ≤ 0 → sampleMutants sha256 taskId perFile maxMutants = []) ∧
    (∀ other : PerFile, other.files.Perm perFile.files →
      sampleMutants sha256 taskId other maxMutants = sampleMutants sha256 taskId perFile maxMutants) ∧
    ∀ other : PerFile, List.Forall₂ (Shuffled sha256 taskId) other.files perFile.files →
      sampleMutants sha256 taskId other maxMutants = sampleMutants sha256 taskId perFile maxMutants := by
  refine ⟨nodup_ranked, fun f hf => ?_, fun f hf => ?_, ⟨_, fair_sample⟩, fun hmax => ?_,
    fun other h => sampleMutants_congr (ranked_eq_of_perm h),
    fun other h => sampleMutants_congr (ranked_eq_of_shuffled h)⟩
  · obtain ⟨g, hg, rfl⟩ := List.mem_map.mp (ranked_perm.mem_iff.mp hf)
    exact ⟨⟨g.2, hg, List.perm_insertionSort _ _⟩, List.pairwise_insertionSort _ _⟩
  · exact ⟨rank sha256 taskId f.2, ranked_perm.mem_iff.mpr (List.mem_map.mpr ⟨f, hf, rfl⟩),
      List.perm_insertionSort _ _⟩
  · rw [sampleMutants_eq, cap, if_neg (not_lt.mpr hmax)]
    rfl

end Fairness

end CommitReplay.MutantSample
