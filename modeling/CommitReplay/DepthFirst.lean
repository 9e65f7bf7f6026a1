import Mathlib.Data.List.Nodup
import Mathlib.Data.List.Perm.Subperm
import Mathlib.Logic.Relation
import Mathlib.Tactic.Common

/-! Depth-first ordering of a graph: every node is put after the nodes it leads to, and a node met again
on the way from itself stops the walk. -/
namespace CommitReplay.DepthFirst

variable {α κ : Type*} [DecidableEq κ]

/-- The keys that are done, the keys on the way, and the nodes in the order they were done. -/
structure Walk (α κ : Type*) where
  seen : List κ
  visiting : List κ
  done : List α

/-- A walk through a list of nodes, up to the first that does not go through. -/
def visitAll (visit : α → Walk α κ → Option (Except κ (Walk α κ))) :
    List α → Walk α κ → Option (Except κ (Walk α κ))
  | [], w => some (.ok w)
  | a :: as, w =>
    match visit a w with
    | some (.ok w') => visitAll visit as w'
    | other => other

/-- A visit of one node; `none` when the fuel runs out, and the key where it went in a circle. -/
def visit (key : α → κ) (next : α → List α) : ℕ → α → Walk α κ → Option (Except κ (Walk α κ))
  | 0, _, _ => none
  | n + 1, a, w =>
    if key a ∈ w.seen then some (.ok w)
    else if key a ∈ w.visiting then some (.error (key a))
    else
      match visitAll (visit key next n) (next a) { w with visiting := key a :: w.visiting } with
      | some (.ok w') => some (.ok ⟨key a :: w'.seen, w'.visiting.erase (key a), w'.done ++ [a]⟩)
      | other => other

def order (key : α → κ) (next : α → List α) (nodes : List α) (n : ℕ) : Option (Except κ (Walk α κ)) :=
  visitAll (visit key next n) nodes ⟨[], [], []⟩

section Rules

variable {step : α → Walk α κ → Option (Except κ (Walk α κ))} {as : List α} {w w' : Walk α κ}

omit [DecidableEq κ] in
/-- What every visit keeps, a walk through a list keeps. -/
lemma visitAll_keeps {P : Walk α κ → Prop}
    (hstep : ∀ a ∈ as, ∀ w w', P w → step a w = some (.ok w') → P w') (hw : P w)
    (h : visitAll step as w = some (.ok w')) : P w' := by
  induction as generalizing w with
  | nil =>
    obtain rfl : w = w' := by simpa [visitAll] using h
    exact hw
  | cons a as ih =>
    rw [visitAll] at h
    split at h
    · rename_i w₁ hs
      exact ih (fun b hb => hstep b (List.mem_cons_of_mem a hb)) (hstep a List.mem_cons_self w w₁ hw hs) h
    · rename_i hno
      exact absurd h (hno w')

omit [DecidableEq κ] in
/-- Each node of the list was visited, and what a visit leaves true stays true. -/
lemma visitAll_reaches {P : Walk α κ → Prop} {Q : α → Walk α κ → Prop}
    (hstep : ∀ a ∈ as, ∀ w w', P w → step a w = some (.ok w') → P w' ∧ Q a w')
    (hstays : ∀ a ∈ as, ∀ b ∈ as, ∀ w w', Q b w → step a w = some (.ok w') → Q b w') (hw : P w)
    (h : visitAll step as w = some (.ok w')) : ∀ a ∈ as, Q a w' := by
  induction as generalizing w with
  | nil => intro a ha; cases ha
  | cons a as ih =>
    rw [visitAll] at h
    split at h
    · rename_i w₁ hs
      obtain ⟨hp, hq⟩ := hstep a List.mem_cons_self w w₁ hw hs
      intro b hb
      obtain rfl | hb := List.mem_cons.mp hb
      · exact visitAll_keeps (fun c hc w w' hQ hsc =>
          hstays c (List.mem_cons_of_mem _ hc) b List.mem_cons_self w w' hQ hsc) hq h
      · exact ih (fun c hc => hstep c (List.mem_cons_of_mem a hc)) (fun c hc d hd =>
          hstays c (List.mem_cons_of_mem a hc) d (List.mem_cons_of_mem a hd)) hp h b hb
    · rename_i hno
      exact absurd h (hno w')

omit [DecidableEq κ] in
lemma visitAll_isSome {P : Walk α κ → Prop} (hstep : ∀ a ∈ as, ∀ w, P w → (step a w).isSome = true)
    (hkeep : ∀ a ∈ as, ∀ w w', P w → step a w = some (.ok w') → P w') (hw : P w) :
    (visitAll step as w).isSome = true := by
  induction as generalizing w with
  | nil => rfl
  | cons a as ih =>
    have hs := hstep a List.mem_cons_self w hw
    rw [visitAll]
    split
    · rename_i w₁ hs₁
      exact ih (fun b hb => hstep b (List.mem_cons_of_mem a hb)) (fun b hb => hkeep b (List.mem_cons_of_mem a hb))
        (hkeep a List.mem_cons_self w w₁ hw hs₁)
    · exact hs

omit [DecidableEq κ] in
/-- A walk that stopped did so at a visit of one of its nodes. -/
lemma visitAll_error {P : Walk α κ → Prop} {k : κ}
    (hkeep : ∀ a ∈ as, ∀ w w', P w → step a w = some (.ok w') → P w') (hw : P w)
    (h : visitAll step as w = some (.error k)) : ∃ a ∈ as, ∃ w₁, P w₁ ∧ step a w₁ = some (.error k) := by
  induction as generalizing w with
  | nil => simp [visitAll] at h
  | cons a as ih =>
    rw [visitAll] at h
    split at h
    · rename_i w₁ hs
      obtain ⟨b, hb, rest⟩ := ih (fun b hb => hkeep b (List.mem_cons_of_mem a hb))
        (hkeep a List.mem_cons_self w w₁ hw hs) h
      exact ⟨b, List.mem_cons_of_mem a hb, rest⟩
    · exact ⟨a, List.mem_cons_self, w, hw, h⟩

end Rules

section Visits

variable {key : α → κ} {next : α → List α} {n : ℕ} {a : α} {w w' : Walk α κ} {k : κ}

/-- What a visit that went through did. -/
lemma visit_ok (h : visit key next n a w = some (.ok w')) :
    (key a ∈ w.seen ∧ w' = w) ∨ key a ∉ w.seen ∧ key a ∉ w.visiting ∧ ∃ m w₁, n = m + 1 ∧
      visitAll (visit key next m) (next a) { w with visiting := key a :: w.visiting } = some (.ok w₁) ∧
      w' = ⟨key a :: w₁.seen, w₁.visiting.erase (key a), w₁.done ++ [a]⟩ := by
  cases n with
  | zero => cases h
  | succ m =>
    rw [visit] at h
    split_ifs at h with hseen hvisiting
    · exact .inl ⟨hseen, by simpa using h.symm⟩
    · simp at h
    · refine .inr ⟨hseen, hvisiting, m, ?_⟩
      split at h
      · rename_i w₁ hall
        exact ⟨w₁, rfl, hall, by simpa using h.symm⟩
      · rename_i hno
        exact absurd h (hno w')

/-- Where a visit went in a circle. -/
lemma visit_error (h : visit key next n a w = some (.error k)) :
    (k = key a ∧ key a ∈ w.visiting) ∨ key a ∉ w.seen ∧ ∃ m, n = m + 1 ∧
      visitAll (visit key next m) (next a) { w with visiting := key a :: w.visiting } = some (.error k) := by
  cases n with
  | zero => cases h
  | succ m =>
    rw [visit] at h
    split_ifs at h with hseen hvisiting
    · simp at h
    · exact .inl ⟨by simpa using h.symm, hvisiting⟩
    · refine .inr ⟨hseen, m, rfl, ?_⟩
      split at h
      · simp at h
      · exact h

lemma visiting_visit (h : visit key next n a w = some (.ok w')) : w'.visiting = w.visiting := by
  induction n generalizing a w w' with
  | zero => cases h
  | succ m ih =>
    obtain ⟨-, rfl⟩ | ⟨-, -, m', w₁, hm, hall, rfl⟩ := visit_ok h
    · rfl
    · obtain rfl : m = m' := Nat.succ.inj hm
      have hw₁ : w₁.visiting = key a :: w.visiting :=
        visitAll_keeps (P := fun x => x.visiting = key a :: w.visiting)
          (fun b _ x x' hx hb => (ih hb).trans hx) rfl hall
      simp only [hw₁, List.erase_cons_head]

end Visits

section Graph

/-- One node leads to another. -/
def Edge (next : α → List α) (a b : α) : Prop := b ∈ next a

/-- A set of nodes with different keys, from which no edge leads out. -/
structure Closed (key : α → κ) (next : α → List α) (nodes : List α) : Prop where
  inj : ∀ a ∈ nodes, ∀ b ∈ nodes, key a = key b → a = b
  next : ∀ a ∈ nodes, ∀ b ∈ next a, b ∈ nodes

/-- Every node of the list has what it leads to before it. -/
def Before (next : α → List α) (l : List α) : Prop :=
  ∀ pre a post, l = pre ++ a :: post → ∀ b ∈ next a, b ∈ pre

/-- What holds of the walk at every moment. -/
structure Sound (key : α → κ) (next : α → List α) (nodes : List α) (w : Walk α κ) : Prop where
  seen : ∀ k, k ∈ w.seen ↔ k ∈ w.done.map key
  nodup : (w.done.map key).Nodup
  nodes : ∀ a ∈ w.done, a ∈ nodes
  apart : ∀ k ∈ w.visiting, k ∉ w.seen
  before : Before next w.done

variable {key : α → κ} {next : α → List α} {nodes : List α} {n : ℕ} {a : α} {w w' : Walk α κ} {k : κ}

omit [DecidableEq κ] in
lemma Before.append {l : List α} (h : Before next l) (ha : ∀ b ∈ next a, b ∈ l) : Before next (l ++ [a]) := by
  intro pre c post he b hb
  obtain ⟨rfl, hc⟩ | ⟨post', rfl, rfl⟩ : (l = pre ∧ [a] = c :: post) ∨ ∃ q, post = q ++ [a] ∧ l = pre ++ c :: q := by
    obtain rfl | ⟨q, d, rfl⟩ := post.eq_nil_or_concat
    · left
      have := List.append_inj' he rfl
      simpa using this
    · right
      have he' : l ++ [a] = (pre ++ c :: q) ++ [d] := by simpa using he
      obtain ⟨h1, h2⟩ := List.append_inj' he' rfl
      exact ⟨q, by simpa using h2.symm, h1⟩
  · obtain ⟨rfl, -⟩ := List.cons.inj hc
    exact ha b hb
  · exact h pre c post' rfl b hb

omit [DecidableEq κ] in
/-- What a node leads to in any number of steps is before it. -/
lemma Before.trans {l : List α} (h : Before next l) {c d : α} (hcd : Relation.TransGen (Edge next) c d) :
    ∀ pre post, l = pre ++ c :: post → d ∈ pre := by
  induction hcd with
  | single hb => exact fun pre post he => h pre c post he _ hb
  | tail _ hb ih =>
    intro pre post he
    obtain ⟨p, q, rfl⟩ := List.append_of_mem (ih pre post he)
    exact List.mem_append_left _ (h p _ (q ++ c :: post) (by simpa using he) _ hb)

omit [DecidableEq κ] in
lemma Sound.mem_done (hw : Sound key next nodes w) (hc : Closed key next nodes) (ha : a ∈ nodes)
    (h : key a ∈ w.seen) : a ∈ w.done := by
  obtain ⟨b, hb, he⟩ := List.mem_map.mp ((hw.seen _).mp h)
  exact hc.inj b (hw.nodes b hb) a ha he ▸ hb

/-- A visit keeps what holds of the walk, forgets nothing, and has seen the node at its end. -/
lemma sound_visit (hc : Closed key next nodes) (ha : a ∈ nodes) (hw : Sound key next nodes w)
    (h : visit key next n a w = some (.ok w')) :
    Sound key next nodes w' ∧ w.seen ⊆ w'.seen ∧ key a ∈ w'.seen := by
  induction n generalizing a w w' with
  | zero => cases h
  | succ m ih =>
    obtain ⟨hseen, rfl⟩ | ⟨hnew, hfree, m', w₁, hm, hall, rfl⟩ := visit_ok h
    · exact ⟨hw, fun k hk => hk, hseen⟩
    · obtain rfl : m = m' := Nat.succ.inj hm
      have hpush : Sound key next nodes { w with visiting := key a :: w.visiting } :=
        { hw with
          apart := fun k hk => by
            obtain rfl | hk := List.mem_cons.mp hk
            · exact hnew
            · exact hw.apart k hk }
      obtain ⟨hs, hsub, hvis⟩ := visitAll_keeps
        (P := fun x => Sound key next nodes x ∧ w.seen ⊆ x.seen ∧ x.visiting = key a :: w.visiting)
        (fun b hb x x' hwx hxb => by
          obtain ⟨hx, hsx, hvx⟩ := hwx
          obtain ⟨hx', hsub, -⟩ := ih (hc.next a ha b hb) hx hxb
          exact ⟨hx', fun k hk => hsub (hsx hk), (visiting_visit hxb).trans hvx⟩)
        ⟨hpush, fun k hk => hk, rfl⟩ hall
      have hnext : ∀ b ∈ next a, Sound key next nodes w₁ ∧ key b ∈ w₁.seen := by
        refine visitAll_reaches (P := Sound key next nodes)
          (Q := fun b x => Sound key next nodes x ∧ key b ∈ x.seen) ?_ ?_ hpush hall
        · intro b hb x x' hx hxb
          obtain ⟨hx', -, hk⟩ := ih (hc.next a ha b hb) hx hxb
          exact ⟨hx', hx', hk⟩
        · intro b hb c _ x x' hxk hxb
          obtain ⟨hx', hsub, -⟩ := ih (hc.next a ha b hb) hxk.1 hxb
          exact ⟨hx', hsub hxk.2⟩
      have hfresh : key a ∉ w₁.seen := hs.apart _ (hvis ▸ List.mem_cons_self)
      refine ⟨⟨fun k => ?_, ?_, fun b hb => ?_, fun k hk => ?_, ?_⟩, fun k hk => List.mem_cons_of_mem _ (hsub hk),
        List.mem_cons_self⟩
      · simp only [List.mem_cons, List.map_append, List.mem_append, List.map_cons, List.map_nil,
          List.not_mem_nil, or_false, hs.seen k]
        exact or_comm
      · rw [List.map_append]
        refine hs.nodup.append (List.nodup_singleton _) ?_
        simp only [List.map_cons, List.map_nil, List.disjoint_singleton]
        exact fun hin => hfresh ((hs.seen _).mpr hin)
      · obtain hb | hb := List.mem_append.mp hb
        · exact hs.nodes b hb
        · exact List.mem_singleton.mp hb ▸ ha
      · simp only [hvis, List.erase_cons_head] at hk
        rintro hin
        obtain rfl | hin := List.mem_cons.mp hin
        · exact hfree hk
        · exact hs.apart k (hvis ▸ List.mem_cons_of_mem _ hk) hin
      · exact hs.before.append fun b hb => hs.mem_done hc (hc.next a ha b hb) (hnext b hb).2

/-- What stops a visit is a node that leads back to itself. -/
lemma cycle_of_visit (hc : Closed key next nodes) (ha : a ∈ nodes)
    (hw : ∀ k ∈ w.visiting, ∃ c ∈ nodes, key c = k ∧ Relation.TransGen (Edge next) c a)
    (h : visit key next n a w = some (.error k)) :
    ∃ c ∈ nodes, key c = k ∧ Relation.TransGen (Edge next) c c := by
  induction n generalizing a w with
  | zero => cases h
  | succ m ih =>
    obtain ⟨rfl, hin⟩ | ⟨-, m', hm, hall⟩ := visit_error h
    · obtain ⟨c, hcn, he, hca⟩ := hw _ hin
      obtain rfl := hc.inj c hcn a ha he
      exact ⟨c, hcn, rfl, hca⟩
    · obtain rfl : m = m' := Nat.succ.inj hm
      obtain ⟨b, hb, w₁, hw₁, herr⟩ := visitAll_error (P := fun x => x.visiting = key a :: w.visiting)
        (fun b _ x x' hx hxb => (visiting_visit hxb).trans hx) rfl hall
      refine ih (hc.next a ha b hb) (fun k hk => ?_) herr
      rw [hw₁] at hk
      obtain rfl | hk := List.mem_cons.mp hk
      · exact ⟨a, ha, rfl, .single hb⟩
      · obtain ⟨c, hcn, he, hca⟩ := hw k hk
        exact ⟨c, hcn, he, hca.tail hb⟩

/-- With more fuel than nodes that are not on the way, a visit ends. -/
lemma visit_isSome (hc : Closed key next nodes) (ha : a ∈ nodes) (hnodup : w.visiting.Nodup)
    (hsub : ∀ k ∈ w.visiting, k ∈ nodes.map key) (hn : nodes.length < n + w.visiting.length) :
    (visit key next n a w).isSome = true := by
  induction n generalizing a w with
  | zero =>
    have hle := (hnodup.subperm fun k hk => hsub k hk).length_le
    rw [List.length_map] at hle
    omega
  | succ m ih =>
    rw [visit]
    split_ifs with hseen hfree
    · rfl
    · rfl
    · have hall : (visitAll (visit key next m) (next a) { w with visiting := key a :: w.visiting }).isSome =
          true := by
        refine visitAll_isSome (P := fun x => x.visiting = key a :: w.visiting) (fun b hb x hx => ?_)
          (fun b _ x x' hx hxb => (visiting_visit hxb).trans hx) rfl
        refine ih (hc.next a ha b hb) ?_ ?_ ?_
        · rw [hx]
          exact List.nodup_cons.mpr ⟨hfree, hnodup⟩
        · rw [hx]
          exact List.forall_mem_cons.mpr ⟨List.mem_map_of_mem ha, hsub⟩
        · rw [hx, List.length_cons]
          omega
      split
      · rfl
      · exact hall

end Graph

section Order

variable {key : α → κ} {next : α → List α} {nodes : List α} {n : ℕ} {w : Walk α κ} {k : κ}

lemma sound_start : Sound key next nodes (⟨[], [], []⟩ : Walk α κ) where
  seen := by simp
  nodup := List.nodup_nil
  nodes := by simp
  apart := by simp
  before := by
    intro pre a post h
    simp at h

/-- More fuel than nodes is enough. -/
theorem order_isSome (hc : Closed key next nodes) (hn : nodes.length < n) :
    (order key next nodes n).isSome = true :=
  visitAll_isSome (P := fun w => w.visiting = [])
    (fun _ ha w hw => visit_isSome hc ha (hw ▸ List.nodup_nil) (by simp [hw]) (by simpa [hw] using hn))
    (fun _ _ _ _ hw hv => (visiting_visit hv).trans hw) rfl

/-- An order holds every node once, and before it what it leads to. -/
theorem order_ok (hc : Closed key next nodes) (h : order key next nodes n = some (.ok w)) :
    (w.done.map key).Nodup ∧ (∀ a, a ∈ w.done ↔ a ∈ nodes) ∧ Before next w.done := by
  have hs : Sound key next nodes w :=
    visitAll_keeps (fun a ha _ _ hw hv => (sound_visit hc ha hw hv).1) sound_start h
  have hseen : ∀ a ∈ nodes, Sound key next nodes w ∧ key a ∈ w.seen := by
    refine visitAll_reaches (P := Sound key next nodes) (Q := fun b x => Sound key next nodes x ∧ key b ∈ x.seen)
      (fun a ha x x' hx hv => ?_) (fun a ha b _ x x' hx hv => ?_) sound_start h
    · obtain ⟨hx', -, hk⟩ := sound_visit hc ha hx hv
      exact ⟨hx', hx', hk⟩
    · obtain ⟨hx', hsub, -⟩ := sound_visit hc ha hx.1 hv
      exact ⟨hx', hsub hx.2⟩
  exact ⟨hs.nodup, fun a => ⟨hs.nodes a, fun ha => hs.mem_done hc ha (hseen a ha).2⟩, hs.before⟩

/-- Where there is an order, no node leads back to itself. -/
theorem acyclic_of_order (hc : Closed key next nodes) (h : order key next nodes n = some (.ok w)) :
    ∀ a ∈ nodes, ¬ Relation.TransGen (Edge next) a a := by
  obtain ⟨hnodup, hall, hbefore⟩ := order_ok hc h
  intro a ha haa
  obtain ⟨pre, post, he⟩ := List.append_of_mem ((hall a).mpr ha)
  have hin := hbefore.trans haa pre post he
  rw [he] at hnodup
  have hdis := List.disjoint_of_nodup_append (List.Nodup.of_map key hnodup)
  exact hdis hin List.mem_cons_self

/-- Where there is none, some node does. -/
theorem cycle_of_order (hc : Closed key next nodes) (h : order key next nodes n = some (.error k)) :
    ∃ a ∈ nodes, key a = k ∧ Relation.TransGen (Edge next) a a := by
  obtain ⟨a, ha, w, hw, herr⟩ := visitAll_error (P := fun w => w.visiting = [])
    (fun _ _ _ _ hw hv => (visiting_visit hv).trans hw) rfl h
  exact cycle_of_visit hc ha (by simp [hw]) herr

/-- The nodes can be ordered exactly when none leads back to itself. -/
theorem order_iff_acyclic (hc : Closed key next nodes) :
    (∃ n w, order key next nodes n = some (.ok w)) ↔ ∀ a ∈ nodes, ¬ Relation.TransGen (Edge next) a a := by
  constructor
  · rintro ⟨n, w, h⟩
    exact acyclic_of_order hc h
  · intro hno
    obtain ⟨r, hr⟩ := Option.isSome_iff_exists.mp (order_isSome hc (Nat.lt_succ_self nodes.length))
    cases r with
    | ok w => exact ⟨_, w, hr⟩
    | error k =>
      obtain ⟨a, ha, -, haa⟩ := cycle_of_order hc hr
      exact absurd haa (hno a ha)

end Order

end CommitReplay.DepthFirst
