import CommitReplay.JoinedTexts
import CommitReplay.ReadingBudget

/-! The keys of cells: seven values joined by a bar that each of them may contain, and the class of
an organisation after another. -/
namespace CommitReplay.CellKeys

open CommitReplay.PythonText CommitReplay.GradeRows CommitReplay.JsonRoundTrip
open CommitReplay.ReadingArms CommitReplay.ReadingRows CommitReplay.ReadingRecord
open CommitReplay.ReadingRegistration CommitReplay.JoinedTexts

/-- How many bars a value contains. -/
def bars (value : String) : ℕ := value.toList.count '|'

/-- What follows the cell's values in a key. -/
def classTail (orgClass : String) : Text := if orgClass = "" then [] else '|' :: orgClass.toList

lemma tail_classTail (orgClass : String) : Tail '|' (classTail orgClass) := by
  unfold classTail
  split_ifs
  · exact .inl rfl
  · exact .inr ⟨_, rfl⟩

lemma classTail_inj {o o' : String} (h : classTail o = classTail o') : o = o' := by
  unfold classTail at h
  split_ifs at h with ho ho' ho'
  · rw [ho, ho']
  · exact String.toList_inj.mp (List.cons.inj h).2

lemma toList_readingCellKey (cell : Dict) (orgClass : String) :
    (readingCellKey cell orgClass).toList =
      ['|'].intercalate (cellFields.map fun f => (cell.get f).toList) ++ classTail orgClass := by
  unfold readingCellKey classTail
  split_ifs
  · rw [List.append_nil, toList_canonicalCellKey]
  · rw [String.toList_append, String.toList_append, toList_canonicalCellKey, List.append_assoc]
    rfl

/-- Two cells of one key are one cell, and of one class, exactly when their values contain the same
numbers of bars, field by field. -/
theorem same_cell_iff {cell cell' : Dict} {orgClass orgClass' : String}
    (hkey : readingCellKey cell orgClass = readingCellKey cell' orgClass') :
    ((∀ f ∈ cellFields, cell.get f = cell'.get f) ∧ orgClass = orgClass') ↔
      ∀ f ∈ cellFields, bars (cell.get f) = bars (cell'.get f) := by
  refine ⟨fun h f hf => by rw [h.1 f hf], fun h => ?_⟩
  have htext := congrArg String.toList hkey
  rw [toList_readingCellKey, toList_readingCellKey] at htext
  have hcount : List.Forall₂ (fun x y : Text => x.count '|' = y.count '|')
      (cellFields.map fun f => (cell.get f).toList)
      (cellFields.map fun f => (cell'.get f).toList) := by
    rw [List.forall₂_map_left_iff, List.forall₂_map_right_iff, List.forall₂_same]
    exact h
  obtain ⟨hvalues, htail⟩ :=
    intercalate_append_inj (tail_classTail _) (tail_classTail _) hcount htext
  refine ⟨fun f hf => ?_, classTail_inj htail⟩
  exact String.toList_inj.mp (List.map_inj_left.mp hvalues f hf)

section Registered

variable {N F : Type} [Field N] [LinearOrder N] {sha256 : Sha256} {idOf : Body N → String}
  {existing existing' : List (Reading N)} {a a' : Registration N} {rows rows' : List (Row F)}
  {t w t' w' : String} {r r' : Reading N}

lemma budgetKey_of_register (h : register sha256 idOf existing a rows t w = .ok r) :
    r.budgetKey = (r.repo, r.cellKey, r.apparatus, r.taxonomy) := by
  obtain ⟨b, hb, rfl, -⟩ := register_eq_ok.mp h
  simp only [Reading.budgetKey, ofBody, Body.normalize, (drafted hb).budgetCell, if_true]

/-- Two readings registered in one scope under one key share their budget and every seed; they are
of one cell and one class exactly when their values contain the same numbers of bars. -/
theorem registered_same_cell_iff (h : register sha256 idOf existing a rows t w = .ok r)
    (h' : register sha256 idOf existing' a' rows' t' w' = .ok r') (hrepo : r'.repo = r.repo)
    (happaratus : r'.apparatus = r.apparatus) (htaxonomy : r'.taxonomy = r.taxonomy)
    (hkey : r'.cellKey = r.cellKey) :
    r'.budgetKey = r.budgetKey ∧
    (∀ commit, seedOf sha256 r'.repo r'.cellKey commit = seedOf sha256 r.repo r.cellKey commit) ∧
    (((∀ f ∈ cellFields, r'.cell.get f = r.cell.get f) ∧ r'.orgClass = r.orgClass) ↔
      ∀ f ∈ cellFields, bars (r'.cell.get f) = bars (r.cell.get f)) := by
  refine ⟨?_, fun commit => by rw [hrepo, hkey], same_cell_iff hkey⟩
  rw [budgetKey_of_register h, budgetKey_of_register h', hrepo, happaratus, htaxonomy, hkey]

end Registered

section Sample

/-- A registration on the sample's cell with another builder and model. -/
def builtBy (builder model hypothesis : String) : Registration ℚ :=
  { sampleRegistration with
    cell := Dict.insert "model" model (Dict.insert "builder" builder sampleRegistration.cell)
    hypothesis }

def registerSample (existing : List (Reading ℚ)) (a : Registration ℚ) (registeredAt : String) :=
  register (markDigest []) (·.registeredAt) existing a ([] : List (Row Whole)) registeredAt "a"

/-- The scope, the key and the builder of a reading. -/
def scopeOf (r : Reading ℚ) : String × String × String × String × String :=
  (r.repo, r.apparatus, r.taxonomy, r.cellKey, r.cell.get "builder")

lemma exists_registered (a a' : Registration ℚ)
    {x y : String × String × String × String × String}
    (h : ((registerSample [] a "1").toOption.bind fun r =>
      (registerSample [r] a' "2").toOption.map fun r' => (scopeOf r, scopeOf r')) = some (x, y)) :
    ∃ r r', registerSample [] a "1" = .ok r ∧ registerSample [r] a' "2" = .ok r' ∧
      scopeOf r = x ∧ scopeOf r' = y := by
  cases hr : registerSample [] a "1" with
  | error e => simp [hr, Except.toOption] at h
  | ok r =>
    simp only [hr, Except.toOption, Option.bind_some] at h
    obtain ⟨r', hr', hxy⟩ := exists_ok_of_map_toOption h
    exact ⟨r, r', rfl, hr', congrArg Prod.fst hxy, congrArg Prod.snd hxy⟩

theorem registered_same_cell_iff_sample :
    ∃ r r', registerSample [] (builtBy "b" "m" "") "1" = .ok r ∧
      registerSample [r] (builtBy "b" "m" "h") "2" = .ok r' ∧ r'.budgetKey = r.budgetKey ∧
      (((∀ f ∈ cellFields, r'.cell.get f = r.cell.get f) ∧ r'.orgClass = r.orgClass) ↔
        ∀ f ∈ cellFields, bars (r'.cell.get f) = bars (r.cell.get f)) := by
  obtain ⟨r, r', hr, hr', hx, hy⟩ := exists_registered (builtBy "b" "m" "") (builtBy "b" "m" "h")
    (x := ("o/r", "2.4", "t", "replay|fix|S|py|b|m|p", "b"))
    (y := ("o/r", "2.4", "t", "replay|fix|S|py|b|m|p", "b")) (by decide +kernel)
  simp only [scopeOf, Prod.mk.injEq] at hx hy
  obtain ⟨hkey, -, hcell⟩ := registered_same_cell_iff hr hr' (hy.1.trans hx.1.symm)
    (hy.2.1.trans hx.2.1.symm) (hy.2.2.1.trans hx.2.2.1.symm) (hy.2.2.2.1.trans hx.2.2.2.1.symm)
  exact ⟨r, r', hr, hr', hkey, hcell⟩

/-- The builder `x|y` with the model `z`, and the builder `x` with the model `y|z`: two cells, one
key, one budget and one order. -/
theorem distinct_cells_one_key :
    ∃ r r', registerSample [] (builtBy "x|y" "z" "") "1" = .ok r ∧
      registerSample [r] (builtBy "x" "y|z" "") "2" = .ok r' ∧ r'.repo = r.repo ∧
      r'.apparatus = r.apparatus ∧ r'.taxonomy = r.taxonomy ∧ r'.cellKey = r.cellKey ∧
      ¬((∀ f ∈ cellFields, r'.cell.get f = r.cell.get f) ∧ r'.orgClass = r.orgClass) := by
  obtain ⟨r, r', hr, hr', hx, hy⟩ := exists_registered (builtBy "x|y" "z" "") (builtBy "x" "y|z" "")
    (x := ("o/r", "2.4", "t", "replay|fix|S|py|x|y|z|p", "x|y"))
    (y := ("o/r", "2.4", "t", "replay|fix|S|py|x|y|z|p", "x")) (by decide +kernel)
  simp only [scopeOf, Prod.mk.injEq] at hx hy
  refine ⟨r, r', hr, hr', hy.1.trans hx.1.symm, hy.2.1.trans hx.2.1.symm,
    hy.2.2.1.trans hx.2.2.1.symm, hy.2.2.2.1.trans hx.2.2.2.1.symm, fun hsame => ?_⟩
  have hbuilder := hsame.1 "builder" (by decide)
  rw [hx.2.2.2.2, hy.2.2.2.2] at hbuilder
  exact absurd hbuilder (by decide)

end Sample

end CommitReplay.CellKeys
