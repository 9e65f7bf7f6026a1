import CommitReplay.Redaction

/-! Test ids across roots: the path of a run's root, wherever it stands in an id as whole components, is
replaced by one token, so that the ids of two runs compare. -/
namespace CommitReplay.RelocatedIds

open CommitReplay.PythonText CommitReplay.Redaction

variable (isWide : Char → Bool)

section Relocate

/-- The characters a root may not be preceded by. -/
def heldBefore (c : Char) : Bool := isWord isWide c || ".~+@".toList.contains c

/-- The characters a root may not be followed by. -/
def heldAfter (c : Char) : Bool := heldBefore isWide c || c = '-'

def rootToken : Text := "<root>".toList

def workMount : Text := "/work".toList

/-- A root, and what `realpath` makes of it. -/
structure Root where
  path : Text
  real : Text
deriving DecidableEq, Repr

/-- The paths that stand for the root of a run, the longest first. -/
def needles (r : Root) : List Text :=
  let found := if r.path.head? = some '/' then [workMount, r.path, r.real] else [workMount]
  ((found.dedup).filter fun n => n ≠ [] && n ≠ ['/']).insertionSort fun n n' => n'.length ≤ n.length

/-- The text begins with the needle, and the needle ends at an edge. -/
def standsAt (s n : Text) : Bool := startsWith s n && !(s.drop n.length).head?.any (heldAfter isWide)

/-- The needle that matches at the head of the text, behind the character before it. -/
def needleAt (ns : List Text) (prev : Option Char) (s : Text) : Option Text :=
  if prev.any (heldBefore isWide) then none else ns.find? (standsAt isWide s)

/-- One pass over the text from left to right, within so many characters of a match that was replaced. -/
def relocateFrom (ns : List Text) : Option Char → ℕ → Text → Text
  | _, _, [] => []
  | _, k + 1, c :: cs => relocateFrom ns (some c) k cs
  | prev, 0, c :: cs =>
    match needleAt isWide ns prev (c :: cs) with
    | some n => rootToken ++ relocateFrom ns (some c) (n.length - 1) cs
    | none => c :: relocateFrom ns (some c) 0 cs

/-- `relocate_ids` on one id. -/
def relocate (r : Root) (id : Text) : Text := relocateFrom isWide (needles r) none 0 id

/-- `relocate_ids`. -/
def relocateIds (r : Root) (ids : Finset Text) : Finset Text := ids.image (relocate isWide r)

end Relocate

section Templates

/-- An id with holes for the root. -/
abbrev Template := List (Option Char)

/-- The id with a root in its holes. -/
def fill (root : Text) (t : Template) : Text := t.flatMap fun x => x.elim root fun c => [c]

@[simp] lemma fill_nil (root : Text) : fill root [] = [] := rfl

@[simp] lemma fill_hole (root : Text) (t : Template) : fill root (none :: t) = root ++ fill root t := rfl

@[simp] lemma fill_char (root : Text) (c : Char) (t : Template) :
    fill root (some c :: t) = c :: fill root t := rfl

lemma fill_text (root w : Text) (t : Template) : fill root (w.map some ++ t) = w ++ fill root t := by
  induction w with
  | nil => rfl
  | cons c w ih =>
    rw [List.map_cons, List.cons_append, fill_char, ih]
    rfl

/-- The next character of the template is held, a hole being none. -/
def nextHeld (t : Template) : Bool := t.head?.any fun x => x.any (heldAfter isWide)

/-- Every hole stands for whole path components: behind and before a character the edges admit. What is
behind the template is held, or not. -/
def WholeHoles : Bool → Template → Prop
  | _, [] => True
  | _, some c :: t => WholeHoles (heldBefore isWide c) t
  | held, none :: t => held = false ∧ nextHeld isWide t = false ∧ WholeHoles true t

/-- The template spells the needle out at its head, as whole components. -/
def SpellsAt (t : Template) (n : Text) : Prop :=
  ∃ rest, t = n.map some ++ rest ∧ nextHeld isWide rest = false

/-- The template spells none of these in a replaceable position; what follows a hole continues it. -/
def Quiet (ns : List Text) : Bool → Template → Prop
  | _, [] => True
  | held, x :: t =>
    (held = false → ∀ n ∈ ns, ¬SpellsAt isWide (x :: t) n) ∧
      Quiet ns (x.elim true (heldBefore isWide)) t

/-- A path whose components end in characters that no root may follow. -/
structure Solid (n : Text) : Prop where
  absolute : n.head? = some '/'
  ne_slash : n ≠ ['/']
  components : ∀ u c v, n = u ++ c :: '/' :: v → heldBefore isWide c = true

/-- A root whose components end so, at its end too, and that `realpath` does not lead below. -/
structure Root.Plain (r : Root) : Prop where
  path : Solid isWide r.path
  real : Solid isWide r.real
  ends : ∀ c ∈ r.path.getLast?, heldBefore isWide c = true
  not_below : r.path <+: r.real → r.real = r.path

end Templates

section Spelling

variable {isWide} {root : Text} {t : Template}

lemma heldBefore_slash : heldBefore isWide '/' = false := rfl

lemma heldAfter_slash : heldAfter isWide '/' = false := rfl

lemma solid_of_notMem {cs : Text} (hne : cs ≠ []) (h : '/' ∉ cs) : Solid isWide ('/' :: cs) where
  absolute := rfl
  ne_slash := fun he => hne (List.cons.inj he).2
  components := fun u c v he => by
    have hslash : '/' ∈ (u ++ c :: '/' :: v).tail := by
      cases u <;> simp
    rw [← he] at hslash
    exact absurd hslash h

lemma solid_workMount : Solid isWide workMount :=
  solid_of_notMem (by decide) (by decide)

/-- What follows the template in an id is what its holes and characters say. -/
lemma head_fill (hroot : root.head? = some '/') (t : Template) :
    (fill root t).head?.any (heldAfter isWide) = nextHeld isWide t := by
  obtain ⟨cs, rfl⟩ := List.head?_eq_some_iff.mp hroot
  cases t with
  | nil => rfl
  | cons x t => cases x <;> rfl

/-- Text with no component behind its start that a hole could begin is spelled out by the template. -/
lemma exists_rest (hroot : root.head? = some '/') {w : Text} {x : Char} {t : Template}
    (hholes : WholeHoles isWide (heldBefore isWide x) t)
    (hsolid : ∀ u c v, x :: w = u ++ c :: '/' :: v → heldBefore isWide c = true)
    (hw : w <+: fill root t) : ∃ rest, t = w.map some ++ rest := by
  induction w generalizing x t with
  | nil => exact ⟨t, rfl⟩
  | cons c w ih =>
    cases t with
    | nil =>
      exact absurd (List.prefix_nil.mp hw) (List.cons_ne_nil c w)
    | cons y t =>
      cases y with
      | none =>
        obtain ⟨cs, rfl⟩ := List.head?_eq_some_iff.mp hroot
        obtain ⟨hc, -⟩ := List.cons_prefix_cons.mp hw
        have hheld := hsolid [] x w (by rw [hc]; rfl)
        exact absurd (hheld.symm.trans hholes.1) (by decide)
      | some d =>
        obtain ⟨hc, htail⟩ := List.cons_prefix_cons.mp hw
        subst hc
        obtain ⟨rest, hrest⟩ := ih (t := t) hholes
          (fun u e v h => hsolid (x :: u) e v (congrArg (x :: ·) h)) htail
        exact ⟨rest, by rw [hrest]; rfl⟩

/-- A needle at a character of the template is spelled out there. -/
lemma spellsAt_of_standsAt (hroot : root.head? = some '/') {n : Text} (hn : Solid isWide n) {c : Char}
    (hholes : WholeHoles isWide (heldBefore isWide c) t)
    (h : standsAt isWide (c :: fill root t) n = true) : SpellsAt isWide (some c :: t) n := by
  obtain ⟨hstart, hedge⟩ := Bool.and_eq_true_iff.mp h
  obtain ⟨w, rfl⟩ := List.head?_eq_some_iff.mp hn.absolute
  obtain ⟨hc, hw⟩ := List.cons_prefix_cons.mp (List.isPrefixOf_iff_prefix.mp hstart)
  subst hc
  obtain ⟨rest, hrest⟩ := exists_rest hroot hholes hn.components hw
  refine ⟨rest, by rw [hrest]; rfl, ?_⟩
  have hdrop : (('/' :: fill root t).drop ('/' :: w).length) = fill root rest := by
    rw [List.length_cons, List.drop_succ_cons, hrest, fill_text, List.drop_left' rfl]
  rw [hdrop, head_fill hroot] at hedge
  simpa using hedge

lemma mem_needles {r : Root} (hr : r.Plain isWide) {n : Text} :
    n ∈ needles r ↔ n = workMount ∨ n = r.path ∨ n = r.real := by
  have hsolid : n = workMount ∨ n = r.path ∨ n = r.real → n ≠ [] ∧ n ≠ ['/'] := by
    have hn : ∀ n : Text, Solid isWide n → n ≠ [] ∧ n ≠ ['/'] := fun n h =>
      ⟨fun he => by simpa [he] using h.absolute, h.ne_slash⟩
    rintro (rfl | rfl | rfl)
    · exact hn _ solid_workMount
    · exact hn _ hr.path
    · exact hn _ hr.real
  simp only [needles, hr.path.absolute, if_true, List.mem_insertionSort, List.mem_filter, List.mem_dedup,
    List.mem_cons, List.not_mem_nil, or_false, Bool.and_eq_true, decide_eq_true_eq]
  exact and_iff_left_of_imp hsolid

lemma solid_of_mem_needles {r : Root} (hr : r.Plain isWide) {n : Text} (h : n ∈ needles r) :
    Solid isWide n := by
  rcases (mem_needles hr).mp h with rfl | rfl | rfl
  · exact solid_workMount
  · exact hr.path
  · exact hr.real

/-- At a hole no needle is longer than the root in it. -/
lemma length_le_of_standsAt {r : Root} (hr : r.Plain isWide) {n : Text} (hn : n ∈ needles r)
    (hnext : nextHeld isWide t = false) (hholes : WholeHoles isWide true t)
    (h : standsAt isWide (r.path ++ fill r.path t) n = true) : n.length ≤ r.path.length := by
  by_contra hlong
  rw [not_le] at hlong
  obtain ⟨hstart, -⟩ := Bool.and_eq_true_iff.mp h
  have hstart := List.isPrefixOf_iff_prefix.mp hstart
  have hpath : r.path <+: n := List.prefix_of_prefix_length_le (List.prefix_append _ _) hstart hlong.le
  obtain ⟨w, rfl⟩ := hpath
  have hw : w <+: fill r.path t := (List.prefix_append_right_inj _).mp hstart
  cases w with
  | nil => simp at hlong
  | cons c w =>
    -- what the needle has behind the root is a character the edges admit
    have hc : heldAfter isWide c = false := by
      cases t with
      | nil => exact absurd (List.prefix_nil.mp hw) (List.cons_ne_nil c w)
      | cons x t =>
        cases x with
        | none => exact absurd hholes.1 (by decide)
        | some d =>
          obtain ⟨rfl, -⟩ := List.cons_prefix_cons.mp hw
          simpa [nextHeld] using hnext
    rcases (mem_needles hr).mp hn with hwork | hself | hreal
    · obtain ⟨cs, hcs⟩ := List.head?_eq_some_iff.mp hr.path.absolute
      have hmem : c ∈ "work".toList := by
        have hmem : c ∈ (workMount).drop r.path.length := by
          rw [← hwork, List.drop_left' rfl]
          exact List.mem_cons_self
        rw [hcs, List.length_cons, workMount] at hmem
        exact List.mem_of_mem_drop hmem
      have hheld : ∀ c ∈ "work".toList, heldAfter isWide c = true := by
        intro c hc
        simp only [show "work".toList = ['w', 'o', 'r', 'k'] from rfl, List.mem_cons,
          List.not_mem_nil, or_false] at hc
        rcases hc with rfl | rfl | rfl | rfl <;> rfl
      exact Bool.false_ne_true (hc.symm.trans (hheld c hmem))
    · simpa using congrArg List.length hself
    · have heq := hr.not_below ⟨c :: w, hreal⟩
      rw [heq] at hreal
      simpa using congrArg List.length hreal

/-- At a hole a needle as long as the root in it is replaced. -/
lemma needleAt_hole {r : Root} (hr : r.Plain isWide) {prev : Option Char}
    (hprev : prev.any (heldBefore isWide) = false) (hnext : nextHeld isWide t = false)
    (hholes : WholeHoles isWide true t) :
    ∃ n, needleAt isWide (needles r) prev (r.path ++ fill r.path t) = some n ∧
      n.length = r.path.length := by
  have hstands : standsAt isWide (r.path ++ fill r.path t) r.path = true := by
    refine Bool.and_eq_true_iff.mpr ⟨List.isPrefixOf_iff_prefix.mpr (List.prefix_append _ _), ?_⟩
    rw [List.drop_left' rfl, head_fill hr.path.absolute, hnext]
    rfl
  have hmem : r.path ∈ needles r := (mem_needles hr).mpr (.inr (.inl rfl))
  unfold needleAt
  rw [hprev, if_neg Bool.false_ne_true]
  cases hfind : (needles r).find? (standsAt isWide (r.path ++ fill r.path t)) with
  | none => exact absurd hstands (List.find?_eq_none.mp hfind _ hmem)
  | some n =>
    refine ⟨n, rfl, le_antisymm ?_ ?_⟩
    · exact length_le_of_standsAt hr (List.mem_of_find?_eq_some hfind) hnext hholes
        (List.find?_some hfind)
    · obtain ⟨-, as, bs, hsplit, hbefore⟩ := List.find?_eq_some_iff_append.mp hfind
      have hsorted : (needles r).Pairwise fun n n' => n'.length ≤ n.length :=
        List.pairwise_insertionSort _ _
      rw [hsplit] at hsorted hmem
      rcases List.mem_append.mp hmem with h | h
      · simpa [hstands] using hbefore _ h
      · rcases List.mem_cons.mp h with h | h
        · rw [h]
        · exact (List.pairwise_cons.mp (List.pairwise_append.mp hsorted).2.1).1 _ h

end Spelling

section Relocated

variable {isWide} {t t' : Template}

/-- What a match replaced is passed over. -/
lemma relocateFrom_append (ns : List Text) (c : Char) (u s : Text) :
    relocateFrom isWide ns (some c) u.length (u ++ s) = relocateFrom isWide ns (c :: u).getLast? 0 s := by
  induction u generalizing c with
  | nil => rfl
  | cons d u ih =>
    rw [List.length_cons, List.cons_append, relocateFrom, ih, List.getLast?_cons_cons]

/-- A template of a run: its holes are whole components, and it spells no root of the run out itself. -/
structure Fits (isWide : Char → Bool) (r : Root) (t : Template) : Prop where
  whole : WholeHoles isWide false t
  quiet : Quiet isWide (needles r) false t

/-- One pass over a filled template, behind the character before it. -/
lemma relocateFrom_fill {r : Root} (hr : r.Plain isWide) {prev : Option Char} {held : Bool}
    (hheld : prev.any (heldBefore isWide) = held) (hholes : WholeHoles isWide held t)
    (hquiet : Quiet isWide (needles r) held t) :
    relocateFrom isWide (needles r) prev 0 (fill r.path t) = fill rootToken t := by
  induction t generalizing prev held with
  | nil => rfl
  | cons x t ih =>
    cases x with
    | some c =>
      have hnone : needleAt isWide (needles r) prev (c :: fill r.path t) = none := by
        unfold needleAt
        rw [hheld]
        cases held with
        | true => rfl
        | false =>
          refine List.find?_eq_none.mpr fun n hn hstands => hquiet.1 rfl n hn ?_
          exact spellsAt_of_standsAt hr.path.absolute (solid_of_mem_needles hr hn) hholes hstands
      rw [fill_char, relocateFrom, hnone, fill_char]
      exact congrArg (c :: ·) (ih rfl hholes hquiet.2)
    | none =>
      obtain ⟨hfree, hnext, hholes⟩ := hholes
      obtain ⟨n, hn, hlen⟩ := needleAt_hole hr (hheld.trans hfree) hnext hholes
      obtain ⟨cs, hcs⟩ := List.head?_eq_some_iff.mp hr.path.absolute
      have hlast : (r.path.getLast?).any (heldBefore isWide) = true := by
        rw [hcs, List.getLast?_eq_some_getLast (List.cons_ne_nil _ _), Option.any_some]
        exact hr.ends _ (by rw [hcs, List.getLast?_eq_some_getLast (List.cons_ne_nil _ _)]; rfl)
      rw [fill_hole, fill_hole]
      rw [hcs] at hn hlen hlast ⊢
      rw [List.cons_append] at hn ⊢
      rw [relocateFrom, hn]
      have hskip : n.length - 1 = cs.length := by
        rw [hlen, List.length_cons, Nat.add_sub_cancel]
      simp only [hskip]
      rw [relocateFrom_append, ← hcs]
      rw [← hcs] at hlast
      rw [ih hlast hholes hquiet.2]

/-- An id filled with the root of its run reads as the template with the token in its holes. -/
lemma relocate_fill_eq {r : Root} (hr : r.Plain isWide) (ht : Fits isWide r t) :
    relocate isWide r (fill r.path t) = fill rootToken t :=
  relocateFrom_fill hr rfl ht.whole ht.quiet

/-- The template does not spell the token out. -/
def NoToken (t : Template) : Prop := ¬rootToken.map some <:+: t

lemma exists_rest_token {w : Text} (hw : '<' ∉ w) (h : w <+: fill rootToken t) :
    ∃ rest, t = w.map some ++ rest := by
  induction w generalizing t with
  | nil => exact ⟨t, rfl⟩
  | cons c w ih =>
    rw [List.mem_cons, not_or] at hw
    cases t with
    | nil => exact absurd (List.prefix_nil.mp h) (List.cons_ne_nil c w)
    | cons x t =>
      cases x with
      | none => exact absurd (List.cons_prefix_cons.mp h).1 fun he => hw.1 he.symm
      | some d =>
        obtain ⟨hc, htail⟩ := List.cons_prefix_cons.mp h
        obtain ⟨rest, hrest⟩ := ih hw.2 htail
        exact ⟨rest, by rw [hrest, hc]; rfl⟩

/-- A character of one template and a hole of the other read alike only where the token is spelled out. -/
lemma fill_char_ne_hole {c : Char} (ht : NoToken (some c :: t)) (t' : Template) :
    fill rootToken (some c :: t) ≠ fill rootToken (none :: t') := by
  intro h
  obtain ⟨hc, htail⟩ := List.cons.inj h
  obtain ⟨rest, hrest⟩ := exists_rest_token (w := "root>".toList) (by decide) ⟨fill rootToken t', htail.symm⟩
  exact ht ⟨[], rest, by rw [hrest, hc]; rfl⟩

/-- Templates that do not spell the token out are read back from their ids. -/
lemma eq_of_fill_token (ht : NoToken t) (ht' : NoToken t') (h : fill rootToken t = fill rootToken t') :
    t = t' := by
  induction t generalizing t' with
  | nil =>
    cases t' with
    | nil => rfl
    | cons x t' => cases x <;> cases h
  | cons x t ih =>
    have hrest : NoToken t := fun hi => ht (hi.trans (List.suffix_cons x t).isInfix)
    cases t' with
    | nil => cases x <;> cases h
    | cons y t' =>
      have hrest' : NoToken t' := fun hi => ht' (hi.trans (List.suffix_cons y t').isInfix)
      cases x with
      | none =>
        cases y with
        | none => rw [ih hrest hrest' (List.append_cancel_left h)]
        | some d => exact absurd h.symm (fill_char_ne_hole ht' t)
      | some c =>
        cases y with
        | none => exact absurd h (fill_char_ne_hole ht t')
        | some d =>
          obtain ⟨hc, htail⟩ := List.cons.inj h
          rw [hc, ih hrest hrest' htail]

end Relocated

section Sample

variable {isWide} {t : Template}

/-- A template without a slash spells no root out. -/
lemma quiet_of_notMem {r : Root} (hr : r.Plain isWide) (ht : some '/' ∉ t) (held : Bool) :
    Quiet isWide (needles r) held t := by
  induction t generalizing held with
  | nil => trivial
  | cons x t ih =>
    rw [List.mem_cons, not_or] at ht
    refine ⟨fun _ n hn ⟨rest, hrest, _⟩ => ?_, ih ht.2 _⟩
    obtain ⟨cs, rfl⟩ := List.head?_eq_some_iff.mp (solid_of_mem_needles hr hn).absolute
    exact ht.1 (List.cons.inj hrest).1.symm

/-- A root of one component that is no link. -/
lemma plain_of_notMem {cs : Text} {c : Char} (hlast : ('/' :: cs).getLast? = some c)
    (hends : heldBefore isWide c = true) (hne : cs ≠ []) (h : '/' ∉ cs) :
    (Root.mk ('/' :: cs) ('/' :: cs)).Plain isWide where
  path := solid_of_notMem hne h
  real := solid_of_notMem hne h
  ends := fun d hd => by rwa [← Option.some.inj (hlast.symm.trans hd)]
  not_below := fun _ => rfl

def rootOf (path : Text) : Root := ⟨path, path⟩

def trial : Root := rootOf ('/' :: "trial".toList)

def container : Root := rootOf ('/' :: "work".toList)

def ascii (_ : Char) : Bool := false

lemma plain_trial : trial.Plain ascii :=
  plain_of_notMem rfl rfl (by decide) (by decide)

lemma plain_container : container.Plain ascii :=
  plain_of_notMem rfl rfl (by decide) (by decide)

/-- `t[/x]`, for a root `/x`. -/
def bracketed : Template := [some 't', some '[', none, some ']']

lemma fits_bracketed {r : Root} (hr : r.Plain ascii) : Fits ascii r bracketed where
  whole := ⟨rfl, rfl, trivial⟩
  quiet := quiet_of_notMem hr (by decide) false

lemma noToken_bracketed : NoToken bracketed := by
  intro h
  have hmem : some 'r' ∈ bracketed := h.subset (by decide)
  exact absurd hmem (by decide)

/-- `<root>`, spelled out. -/
def spelled : Template := rootToken.map some

lemma fits_spelled : Fits ascii trial spelled where
  whole := trivial
  quiet := quiet_of_notMem plain_trial (by decide) false

lemma fits_hole : Fits ascii trial [none] where
  whole := ⟨rfl, rfl, trivial⟩
  quiet := quiet_of_notMem plain_trial (by decide) false

end Sample

end CommitReplay.RelocatedIds
