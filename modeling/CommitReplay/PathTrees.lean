import Mathlib.Data.List.Basic
import Mathlib.Data.List.Infix
import Mathlib.Data.List.Nodup

/-! Finite trees as maps from paths, and walks that enter a tree's directories level by level. What
stands above a path is a directory. -/
namespace CommitReplay.PathTrees

abbrev Path := List String

/-- The directories above a path, the outermost first. -/
def above (p : Path) : List Path := p.dropLast.inits.filter (· ≠ [])

variable {p d : Path}

lemma mem_above : d ∈ above p ↔ d ≠ [] ∧ d <+: p ∧ d ≠ p := by
  rw [above, List.mem_filter, List.mem_inits, decide_eq_true_eq]
  constructor
  · rintro ⟨hd, hne⟩
    refine ⟨hne, hd.trans (List.dropLast_prefix p), ?_⟩
    rintro rfl
    have hlen := hd.length_le
    have hpos := List.length_pos_iff.mpr hne
    rw [List.length_dropLast] at hlen
    omega
  · rintro ⟨hne, hd, hp⟩
    refine ⟨?_, hne⟩
    rcases List.eq_nil_or_concat p with rfl | ⟨q, n, rfl⟩
    · exact absurd (List.prefix_nil.mp hd) hne
    · rw [List.concat_eq_append] at hd hp ⊢
      rw [List.dropLast_concat]
      exact (List.prefix_concat_iff.mp hd).resolve_left hp

section Tree

variable {ε : Type*} {isDir : ε → Bool}

/-- What stands at each path of a tree, the root itself apart. -/
structure Tree (isDir : ε → Bool) where
  entries : List (Path × ε)
  nodup : (entries.map Prod.fst).Nodup
  rooted : ∀ x ∈ entries, x.1 ≠ []
  closed : ∀ x ∈ entries, ∀ d ∈ above x.1, ∃ e, (d, e) ∈ entries ∧ isDir e = true

namespace Tree

variable (t : Tree isDir)

def get? (p : Path) : Option ε := (t.entries.find? (·.1 = p)).map Prod.snd

/-- What stands in a directory. -/
def children (d : Path) : List (Path × ε) := t.entries.filter (·.1.dropLast = d)

/-- A bound on the length of the tree's paths. -/
def height : ℕ := (t.entries.map (·.1.length)).foldr max 0

variable {t} {e : ε}

lemma get?_eq_some : t.get? p = some e ↔ (p, e) ∈ t.entries := by
  constructor
  · intro h
    obtain ⟨x, hx, rfl⟩ := Option.map_eq_some_iff.mp h
    have hp : x.1 = p := by simpa using List.find?_some hx
    rw [← hp]
    exact List.mem_of_find?_eq_some hx
  · intro h
    obtain ⟨x, hx⟩ := Option.isSome_iff_exists.mp
      (List.find?_isSome.mpr ⟨(p, e), h, decide_eq_true rfl⟩ :
        (t.entries.find? (·.1 = p)).isSome)
    have hp : x.1 = p := by simpa using List.find?_some hx
    have heq := List.inj_on_of_nodup_map t.nodup (List.mem_of_find?_eq_some hx) h hp
    rw [get?, hx, heq]
    rfl

lemma mem_children {d : Path} {x : Path × ε} :
    x ∈ t.children d ↔ t.get? x.1 = some x.2 ∧ x.1.dropLast = d := by
  rw [get?_eq_some, children, List.mem_filter, decide_eq_true_eq]

lemma ne_nil_of_get? (h : t.get? p = some e) : p ≠ [] := t.rooted _ (get?_eq_some.mp h)

/-- What stands above an entry is a directory. -/
lemma get?_above (h : t.get? p = some e) (hd : d ∈ above p) :
    ∃ e', t.get? d = some e' ∧ isDir e' = true := by
  obtain ⟨e', he, hdir⟩ := t.closed _ (get?_eq_some.mp h) d hd
  exact ⟨e', get?_eq_some.mpr he, hdir⟩

lemma length_le_height (h : t.get? p = some e) : p.length ≤ t.height := by
  have hmem : p.length ∈ t.entries.map (·.1.length) :=
    List.mem_map.mpr ⟨(p, e), get?_eq_some.mp h, rfl⟩
  rw [height]
  generalize t.entries.map (·.1.length) = ns at hmem
  induction ns with
  | nil => cases hmem
  | cons n ns ih =>
    rcases List.mem_cons.mp hmem with rfl | h
    · exact le_max_left _ _
    · exact (ih h).trans (le_max_right _ _)

end Tree

end Tree

section Walk

variable (subdirs : Path → List Path) (next : List Path → List Path)

/-- The directories that a walk enters, one level after another: of a level's subdirectories it goes
on with those that `next` picks. -/
def entered : ℕ → List Path → List Path
  | 0, _ => []
  | n + 1, level => level ++ entered n (next (level.flatMap subdirs))

variable {subdirs next} {go : Path → Prop}

/-- A directory is entered where each one on the way is a subdirectory that is picked. -/
theorem mem_entered (hsub : ∀ d, ∀ c ∈ subdirs d, c ≠ [] ∧ c.dropLast = d)
    (hnext : ∀ ds c, c ∈ next ds ↔ c ∈ ds ∧ go c) {n : ℕ} {level : List Path} :
    d ∈ entered subdirs next n level ↔ ∃ b ∈ level, b <+: d ∧ d.length < b.length + n ∧
      ∀ c, b <+: c → c <+: d → c ≠ b → c ∈ subdirs c.dropLast ∧ go c := by
  induction n generalizing level with
  | zero =>
    simp only [entered, List.not_mem_nil, false_iff, not_exists, not_and]
    intro b _ hb hlen
    exact absurd hb.length_le (by omega)
  | succ n ih =>
    rw [entered, List.mem_append, ih]
    constructor
    · rintro (hd | ⟨b, hb, hbd, hlen, hway⟩)
      · refine ⟨d, hd, List.prefix_rfl, by omega, fun c hdc hcd hne => ?_⟩
        exact absurd (hcd.eq_of_length (le_antisymm hcd.length_le hdc.length_le)) hne
      · obtain ⟨hb, hgo⟩ := (hnext _ _).mp hb
        obtain ⟨a, ha, hb⟩ := List.mem_flatMap.mp hb
        obtain ⟨hne, rfl⟩ := hsub a b hb
        have hlast : b.dropLast.length = b.length - 1 := List.length_dropLast
        have hpos := List.length_pos_iff.mpr hne
        refine ⟨b.dropLast, ha, (List.dropLast_prefix b).trans hbd, by omega, ?_⟩
        intro c hac hcd hca
        rcases List.prefix_or_prefix_of_prefix hcd hbd with hcb | hbc
        · have hcl := hcb.length_le
          have hal := hac.length_le
          by_cases hc : c = b
          · rw [hc]
            exact ⟨hb, hgo⟩
          · have hlt : c.length < b.length := lt_of_le_of_ne hcl fun h => hc (hcb.eq_of_length h)
            exact absurd (hac.eq_of_length (by omega)).symm hca
        · by_cases hc : c = b
          · rw [hc]
            exact ⟨hb, hgo⟩
          · exact hway c hbc hcd hc
    · rintro ⟨b, hb, hbd, hlen, hway⟩
      by_cases hd : d = b
      · exact .inl (hd ▸ hb)
      · obtain ⟨r, rfl⟩ := hbd
        cases r with
        | nil => exact absurd (List.append_nil b) hd
        | cons a r =>
          have hpre : b ++ [a] <+: b ++ a :: r := ⟨r, by simp⟩
          have hne : b ++ [a] ≠ b := by simp
          obtain ⟨hsubdir, hgo⟩ := hway (b ++ [a]) (List.prefix_append b _) hpre hne
          rw [List.dropLast_concat] at hsubdir
          refine .inr ⟨b ++ [a], (hnext _ _).mpr ⟨List.mem_flatMap.mpr ⟨b, hb, hsubdir⟩, hgo⟩,
            hpre, ?_, fun c hbc hcd hc => hway c ((List.prefix_append b _).trans hbc) hcd ?_⟩
          · simp only [List.length_append, List.length_cons, List.length_nil] at hlen ⊢
            omega
          · rintro rfl
            have hlong := hbc.length_le
            rw [List.length_append, List.length_singleton] at hlong
            omega

end Walk

end CommitReplay.PathTrees
