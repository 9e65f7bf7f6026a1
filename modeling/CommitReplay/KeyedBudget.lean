import Mathlib.Algebra.BigOperators.Group.List.Basic
import Mathlib.Algebra.Order.Monoid.Defs

/-! Entries that each spend from the budget of their key, an entry that is listed twice counted
once. Where every entry was within its key's budget when it was added, every key is. -/
namespace CommitReplay.KeyedBudget

variable {E ι κ M : Type*} [DecidableEq ι] [DecidableEq κ] [AddCommMonoid M]

section Spent

variable (id : E → ι)

/-- The first entry of each identifier that is not among those seen, in order. -/
def firstPerIdFrom (seen : List ι) : List E → List E
  | [] => []
  | e :: es =>
    if id e ∈ seen then firstPerIdFrom seen es else e :: firstPerIdFrom (id e :: seen) es

def firstPerId (es : List E) : List E := firstPerIdFrom id [] es

variable (key : E → κ) (cost : E → M)

/-- What the entries of a key have spent. -/
def spent (es : List E) (k : κ) : M := (((firstPerId id es).filter (key · = k)).map cost).sum

variable {id key cost} {es : List E}

lemma firstPerIdFrom_eq_self {seen : List ι} (hn : (es.map id).Nodup)
    (hseen : ∀ e ∈ es, id e ∉ seen) : firstPerIdFrom id seen es = es := by
  induction es generalizing seen with
  | nil => rfl
  | cons e es ih =>
    rw [List.map_cons, List.nodup_cons] at hn
    rw [firstPerIdFrom, if_neg (hseen e (by simp)), ih hn.2 fun f hf => ?_]
    rw [List.mem_cons, not_or]
    refine ⟨fun he => hn.1 (he ▸ List.mem_map_of_mem hf), hseen f (by simp [hf])⟩

/-- Entries of distinct identifiers are all counted. -/
lemma firstPerId_eq_self (hn : (es.map id).Nodup) : firstPerId id es = es :=
  firstPerIdFrom_eq_self hn fun _ _ => List.not_mem_nil

lemma spent_of_nodup (hn : (es.map id).Nodup) (k : κ) :
    spent id key cost es k = ((es.filter (key · = k)).map cost).sum := by
  rw [spent, firstPerId_eq_self hn]

lemma spent_concat {e : E} (hn : ((es ++ [e]).map id).Nodup) (k : κ) :
    spent id key cost (es ++ [e]) k =
      spent id key cost es k + if key e = k then cost e else 0 := by
  have hes : (es.map id).Nodup := (List.nodup_append.mp (List.map_append ▸ hn)).1
  rw [spent_of_nodup hn, spent_of_nodup hes, List.filter_append, List.map_append, List.sum_append]
  by_cases h : key e = k <;> simp [h]

end Spent

section Budget

variable [PartialOrder M] (id : E → ι) (key : E → κ) (cost : E → M) (cap : M)

/-- Every entry is listed once, and every key within the budget. -/
structure InBudget (es : List E) : Prop where
  ids : (es.map id).Nodup
  within : ∀ k, spent id key cost es k ≤ cap

variable {id key cost cap} {es : List E}

/-- What adding one entry preserves. -/
theorem InBudget.concat (h : InBudget id key cost cap es) {e : E} (hid : id e ∉ es.map id)
    (hcost : spent id key cost es (key e) + cost e ≤ cap) : InBudget id key cost cap (es ++ [e]) := by
  have hn : ((es ++ [e]).map id).Nodup := by
    rw [List.map_append, List.map_singleton]
    refine List.nodup_append.mpr ⟨h.ids, by simp, fun i hi j hj he => hid ?_⟩
    rwa [← List.mem_singleton.mp hj, ← he]
  refine ⟨hn, fun k => ?_⟩
  rw [spent_concat hn]
  split_ifs with hk
  · exact hk ▸ hcost
  · rw [add_zero]
    exact h.within k

end Budget

end CommitReplay.KeyedBudget
