import CommitReplay.TicketNames

/-! Tickets and their items over runs of drafts: different tickets have different ids, an unchanged ticket keeps its
item, and a changed one gets a fresh id, exactly where the slugs of the keys and revisions keep apart. -/
namespace CommitReplay.TicketRuns

open CommitReplay.PythonText CommitReplay.JsonValue CommitReplay.JsonText CommitReplay.JsonRoundTrip
open CommitReplay.GradeRows CommitReplay.BacklogRecord CommitReplay.TransitionRuns
open CommitReplay.TicketItems CommitReplay.TicketNames

section Records

/-- A draft, and the revision its id names. -/
structure Entry (F : Type) where
  ticket : Ticket F
  draft : Draft
  revision : Option Text

/-- What has been drafted of a tracker's tickets, and which of it the backlog accepted, in order. -/
structure Record (F : Type) where
  drafted : List (Entry F)
  accepted : List (Entry F)

/-- A call of `draft_from`, and whether its item is then registered. -/
structure Call (F : Type) where
  ticket : Ticket F
  taken : Bool
  registered : String

def Entry.id {F : Type} (e : Entry F) : String := e.draft.item.id

variable {F : Type}

/-- The item last accepted from a ticket. -/
def latest (s : Record F) (key : Text) : Option (Entry F) :=
  s.accepted.reverse.find? fun e => e.ticket.key = key

lemma latest_spec {s : Record F} {key : Text} {p : Entry F} (h : latest s key = some p) : p ∈ s.accepted ∧ p.ticket.key = key :=
  ⟨List.mem_reverse.mp (List.mem_of_find?_eq_some h), by
    have hkey := List.find?_some (p := fun e : Entry F => e.ticket.key = key) h
    exact of_decide_eq_true hkey⟩

variable [PyFloat F] (desk : Desk F)

def entryOf (s : Record F) (c : Call F) : Except DraftError (Entry F) :=
  let previous := latest s c.ticket.key
  (draftFrom desk c.ticket (previous.map (·.draft.item)) c.registered).map fun d =>
    ⟨c.ticket, d, if d.isEvolution then some c.ticket.revision else previous.bind (·.revision)⟩

/-- The backlog accepts an id that is new to it. -/
def step (s : Record F) (c : Call F) : Record F :=
  match entryOf desk s c with
  | .error _ => s
  | .ok e =>
    ⟨s.drafted ++ [e],
      if c.taken ∧ ∀ e' ∈ s.accepted, e'.id ≠ e.id then s.accepted ++ [e] else s.accepted⟩

def start : Record F := ⟨[], []⟩

end Records

section Content

variable {F : Type} (casefold : Text → Text)

/-- The content of a ticket is unchanged; its tags may have changed places. -/
structure SameContent (t u : Ticket F) : Prop where
  title : t.title = u.title
  body : t.body = u.body
  acceptanceCriteria : t.acceptanceCriteria = u.acceptanceCriteria
  type : t.type = u.type
  points : t.points = u.points
  url : t.url = u.url
  tags : (contentTags casefold t).Perm (contentTags casefold u)

lemma canonical_contentOf (t : Ticket F) : Canonical (contentOf casefold t) := by
  have htexts : ∀ xs : List String, Canonical (.arr (xs.map .str) : Json F) := fun xs =>
    .arr fun v hv => by
      obtain ⟨x, -, rfl⟩ := List.mem_map.mp hv
      exact .str x
  have hkeys : ["acceptance_criteria", "body", "points", "tags", "title", "type", "url"].Pairwise (· < ·) := by
    decide
  refine .obj (List.pairwise_map.mp hkeys) fun p hp => ?_
  simp only [List.mem_cons, List.not_mem_nil, or_false] at hp
  rcases hp with rfl | rfl | rfl | rfl | rfl | rfl | rfl
  · exact htexts _
  · exact .str _
  · cases t.points with
    | none => exact .null
    | some x => exact .float x
  · exact htexts _
  all_goals exact .str _

lemma strs_injective : Function.Injective fun xs : List String => (Json.arr (xs.map .str) : Json F) := by
  have hstr : Function.Injective (Json.str : String → Json F) := fun a b h => Json.str.inj h
  exact fun xs ys h => List.map_injective_iff.mpr hstr (Json.arr.inj h)

variable [PyFloat F]

/-- The digest is taken of a text that tells what the content is. -/
lemma encoded_eq_iff {t u : Ticket F} : encoded casefold t = encoded casefold u ↔ SameContent casefold t u := by
  constructor
  · intro h
    have hobj := dumps_injective (by simp [isJsonSpace]) (canonical_contentOf casefold t) (canonical_contentOf casefold u) h
    simp only [contentOf, Json.obj.injEq, List.cons.injEq, Prod.mk.injEq, true_and, and_true] at hobj
    obtain ⟨hcriteria, hbody, hpoints, htags, htitle, htype, hurl⟩ := hobj
    refine ⟨?_, ?_, strs_injective hcriteria, ?_, ?_, ?_, ?_⟩
    · injection htitle
    · injection hbody
    · injection htype
    · cases ht : t.points <;> cases hu : u.points <;> simp_all
    · injection hurl
    · have hsorted := strs_injective htags
      have hperm := List.perm_insertionSort (· ≤ ·) (contentTags casefold u)
      rw [← hsorted] at hperm
      exact (List.perm_insertionSort _ _).symm.trans hperm
  · intro h
    have htags : (contentTags casefold t).insertionSort (· ≤ ·) = (contentTags casefold u).insertionSort (· ≤ ·) :=
      List.Perm.eq_of_sortedLE List.sortedLE_insertionSort List.sortedLE_insertionSort
        ((List.perm_insertionSort _ _).trans (h.tags.trans (List.perm_insertionSort _ _).symm))
    rw [encoded, encoded, contentOf, contentOf, htags, h.title, h.body, h.acceptanceCriteria, h.type,
      h.points, h.url]

end Content

section Conditions

variable {F : Type} [PyFloat F]

/-- Without a title, the tracker and the key stand in. -/
def Titled (t : Ticket F) : Prop := t.title = "" ∨ strip t.title.toList ≠ []

variable (desk : Desk F)

/-- How much of an id stands for its key. -/
def stemLength (key : Text) : ℕ :=
  let slug := slugOf desk.tracker (keySlug key)
  if Short desk.tracker key then slug.length else ((slug.take (idMaxLen - 9)).rdropWhile isEdge).length + 9

/-- What is drafted of the other tickets does not clash with a ticket named at a revision. -/
def Unclashing (s : Record F) (t : Ticket F) (revision : Option Text) : Prop :=
  ∀ e ∈ s.drafted, e.ticket.key ≠ t.key →
    ¬ Clash desk.sha256 desk.tracker t.key revision e.ticket.key e.revision

/-- A ticket's first draft clashes with no other ticket; a changed ticket has a title, its id has room for its
revision, it clashes with no other ticket, and none of its own items was named at such a revision. -/
def Free (s : Record F) (c : Call F) : Prop :=
  match latest s c.ticket.key with
  | none => Usable desk.tracker c.ticket.key → Titled c.ticket → Unclashing desk s c.ticket none
  | some p => ¬ SameContent desk.casefold p.ticket c.ticket →
      Titled c.ticket ∧ stemLength desk c.ticket.key + (suffix c.ticket.revision).length ≤ idMaxLen ∧
      Unclashing desk s c.ticket (some c.ticket.revision) ∧
      ∀ e ∈ s.accepted, e.ticket.key = c.ticket.key →
        ∀ r ∈ e.revision, sanitise r ≠ sanitise c.ticket.revision

/-- Different tickets get different ids; an unchanged ticket is its latest item; a changed one gets an id that the
backlog accepts and no item has, and supersedes its latest item. -/
structure Corresponds (s : Record F) (c : Call F) : Prop where
  apart : ∀ e, entryOf desk s c = .ok e → ∀ e' ∈ s.drafted, e'.ticket.key ≠ c.ticket.key → e'.id ≠ e.id
  same : ∀ p, latest s c.ticket.key = some p → SameContent desk.casefold p.ticket c.ticket →
    ∃ e, entryOf desk s c = .ok e ∧ e.id = p.id ∧ e.draft.isEvolution = false
  fresh : ∀ p, latest s c.ticket.key = some p → ¬ SameContent desk.casefold p.ticket c.ticket →
    ∃ e, entryOf desk s c = .ok e ∧ idMatches e.id.toList = true ∧ (∀ e' ∈ s.accepted, e'.id ≠ e.id) ∧
      e.draft.isEvolution = true ∧ e.draft.item.supersedes = p.id

end Conditions

section Drafts

variable {F : Type} {desk : Desk F} {t : Ticket F} {previous : Option BacklogItem} {reg : String}

lemma build_eq_ok_iff {f : ItemFields} {item : BacklogItem} : build f = .ok item ↔ item.toItemFields = f := by
  unfold build
  split
  · rename_i e he
    refine ⟨nofun, fun h => ?_⟩
    have hvalid := item.valid
    rw [h, he] at hvalid
    cases hvalid
  · rename_i hok
    obtain ⟨g, hg⟩ := item
    simp only [Except.ok.injEq, BacklogItem.mk.injEq]
    exact eq_comm

lemma strip_titleOf : strip (titleOf desk t).toList ≠ [] ↔ Titled t := by
  rw [titleOf, Titled]
  split_ifs with ht
  · simp only [ht, true_or, iff_true, String.toList_ofList]
    have hspace : ¬ ∀ c ∈ t.key, isSpace c = true := fun hall => t.keyed <| by
      rw [strip, List.dropWhile_eq_nil_iff.mpr hall, List.rdropWhile_nil]
    simp only [not_forall, Bool.not_eq_true] at hspace
    obtain ⟨c, hc, hs⟩ := hspace
    exact strip_ne_nil (List.mem_append_right _ (List.mem_cons_of_mem _ hc)) hs
  · simp only [ht, false_or]

variable [PyFloat F]

/-- The name a ticket's draft has. -/
abbrev nameOf (desk : Desk F) (t : Ticket F) (previous : Option BacklogItem) : Bool × String :=
  named desk (stem desk.sha256 desk.tracker t.key) t previous

abbrev superseded (desk : Desk F) (t : Ticket F) (previous : Option BacklogItem) : String :=
  if (nameOf desk t previous).1 then previous.elim "" (·.id) else ""

lemma draftFrom_eq_ok_iff {d : Draft} : draftFrom desk t previous reg = .ok d ↔ Usable desk.tracker t.key ∧
    d.isEvolution = (nameOf desk t previous).1 ∧ d.item.toItemFields =
      fieldsOf desk t (nameOf desk t previous).2 (superseded desk t previous) reg := by
  by_cases hu : Usable desk.tracker t.key
  · obtain ⟨item, evolves⟩ := d
    have heq : draftFrom desk t previous reg =
        (build (fieldsOf desk t (nameOf desk t previous).2 (superseded desk t previous) reg)).map
          (⟨·, (nameOf desk t previous).1⟩) := by
      rw [draftFrom, itemIdFor_of_usable _ _ _ hu]
      change build (fieldsOf desk t (nameOf desk t previous).2 (superseded desk t previous) reg) >>= _ = _
      cases build (fieldsOf desk t (nameOf desk t previous).2 (superseded desk t previous) reg) <;> rfl
    rw [heq, ← build_eq_ok_iff]
    cases build (fieldsOf desk t (nameOf desk t previous).2 (superseded desk t previous) reg) with
    | error e =>
      constructor
      · intro h
        cases h
      · rintro ⟨-, -, h⟩
        cases h
    | ok i => simp [Except.map, hu, and_comm, eq_comm]
  · obtain ⟨e, he⟩ := itemIdFor_of_not_usable desk.sha256 _ _ hu
    rw [draftFrom, he]
    refine ⟨fun h => ?_, fun h => absurd h.1 hu⟩
    cases h

/-- A draft is made where its id is legal, its title is not blank, and it does not supersede itself. -/
lemma exists_draft (hu : Usable desk.tracker t.key) (hid : idMatches (nameOf desk t previous).2.toList = true)
    (ht : Titled t) (hself : superseded desk t previous ≠ (nameOf desk t previous).2) :
    ∃ d, draftFrom desk t previous reg = .ok d ∧ d.isEvolution = (nameOf desk t previous).1 ∧
      d.item.toItemFields = fieldsOf desk t (nameOf desk t previous).2 (superseded desk t previous) reg := by
  have hvalid : (fieldsOf desk t (nameOf desk t previous).2 (superseded desk t previous) reg).postInit = .ok () :=
    (BacklogItem.valid_iff _).mpr ⟨hid, strip_titleOf.mpr ht, hself, List.not_mem_nil⟩
  exact ⟨⟨⟨_, hvalid⟩, _⟩, draftFrom_eq_ok_iff.mpr ⟨hu, rfl, rfl⟩, rfl, rfl⟩

lemma titled_of_draft {d : Draft} (h : draftFrom desk t previous reg = .ok d) : Titled t := by
  have hvalid := (BacklogItem.valid_iff _).mp d.item.valid
  rw [(draftFrom_eq_ok_iff.mp h).2.2] at hvalid
  exact strip_titleOf.mp hvalid.2.1

lemma idMatches_of_draft {d : Draft} (h : draftFrom desk t previous reg = .ok d) :
    idMatches (nameOf desk t previous).2.toList = true := by
  have hvalid := (BacklogItem.valid_iff _).mp d.item.valid
  rw [(draftFrom_eq_ok_iff.mp h).2.2] at hvalid
  exact hvalid.1

lemma label_of_draft {d : Draft} (h : draftFrom desk t previous reg = .ok d) :
    label d.item "content_revision" = .ofList (contentRevision desk.casefold desk.sha256 t) := by
  rw [label, (draftFrom_eq_ok_iff.mp h).2.2]
  rfl

lemma contentRevision_ne (t : Ticket F) : String.ofList (contentRevision desk.casefold desk.sha256 t) ≠ "" := by
  intro h
  have hlen := length_hexdigest desk.sha256 (by norm_num : 16 ≤ 64) (encoded desk.casefold t)
  rw [show hexdigest desk.sha256 16 (encoded desk.casefold t) = [] from String.ofList_injective h] at hlen
  cases hlen

end Drafts

section Invariant

variable {F : Type} [PyFloat F]

/-- The texts of a set of tickets that are hashed. -/
def hashed (desk : Desk F) (T : Set (Ticket F)) : Set Text :=
  {x | ∃ t ∈ T, x = desk.tracker ++ '-' :: t.key ∨ x = encoded desk.casefold t}

/-- An entry is a draft of its ticket, named at its revision. -/
structure Made (desk : Desk F) (e : Entry F) : Prop where
  usable : Usable desk.tracker e.ticket.key
  id_eq : e.id = .ofList (stem desk.sha256 desk.tracker e.ticket.key ++ tail e.revision)
  titled : Titled e.ticket
  digest : label e.draft.item "content_revision" = .ofList (contentRevision desk.casefold desk.sha256 e.ticket)

/-- What holds of a record at every step. -/
structure Kept (desk : Desk F) (T : Set (Ticket F)) (s : Record F) : Prop where
  made : ∀ e ∈ s.drafted, Made desk e ∧ e.ticket ∈ T
  accepted : s.accepted ⊆ s.drafted
  apart : ∀ e ∈ s.drafted, ∀ e' ∈ s.drafted, e.ticket.key ≠ e'.ticket.key → e.id ≠ e'.id

variable {desk : Desk F} {T : Set (Ticket F)} {s : Record F} {t u : Ticket F} {p : Entry F}

/-- More digits tell apart what fewer do. -/
lemma contentRevision_eq_iff (hT : Set.InjOn (hexdigest desk.sha256 8) (hashed desk T)) (ht : t ∈ T) (hu : u ∈ T) :
    contentRevision desk.casefold desk.sha256 t = contentRevision desk.casefold desk.sha256 u ↔
      SameContent desk.casefold t u := by
  rw [← encoded_eq_iff]
  refine ⟨fun h => hT ⟨t, ht, .inr rfl⟩ ⟨u, hu, .inr rfl⟩ ?_, fun h => ?_⟩
  · have h8 := congrArg (List.take 8) h
    rwa [contentRevision, contentRevision, hexdigest, hexdigest, List.take_take, List.take_take] at h8
  · rw [contentRevision, contentRevision, h]

/-- The content decides whether a ticket supersedes its item. -/
lemma isEvolution_iff (hT : Set.InjOn (hexdigest desk.sha256 8) (hashed desk T)) (hp : Made desk p)
    (hpT : p.ticket ∈ T) (ht : t ∈ T) :
    isEvolution desk t p.draft.item = true ↔ ¬ SameContent desk.casefold p.ticket t := by
  rw [isEvolution, hp.digest, if_pos (contentRevision_ne _), decide_eq_true_iff,
    ← contentRevision_eq_iff hT hpT ht]
  exact not_congr String.ofList_inj

variable {c : Call F} {e : Entry F}

lemma entryOf_eq_ok_iff : entryOf desk s c = .ok e ↔
    draftFrom desk c.ticket ((latest s c.ticket.key).map (·.draft.item)) c.registered = .ok e.draft ∧
      e.ticket = c.ticket ∧ e.revision = if e.draft.isEvolution then some c.ticket.revision
        else (latest s c.ticket.key).bind (·.revision) := by
  obtain ⟨t, d, r⟩ := e
  rw [entryOf]
  cases draftFrom desk c.ticket ((latest s c.ticket.key).map (·.draft.item)) c.registered with
  | error x => exact ⟨nofun, fun h => nomatch h.1⟩
  | ok d' =>
    simp only [Except.map, Except.ok.injEq, Entry.mk.injEq]
    constructor
    · rintro ⟨rfl, rfl, rfl⟩
      exact ⟨rfl, rfl, rfl⟩
    · rintro ⟨rfl, rfl, hr⟩
      exact ⟨rfl, rfl, hr.symm⟩

lemma id_of_entryOf (h : entryOf desk s c = .ok e) :
    e.id = (nameOf desk c.ticket ((latest s c.ticket.key).map (·.draft.item))).2 := by
  have hfields := (draftFrom_eq_ok_iff.mp (entryOf_eq_ok_iff.mp h).1).2.2
  rw [Entry.id, hfields, fieldsOf]

lemma made_of_entryOf (hs : Kept desk T s) (h : entryOf desk s c = .ok e) : Made desk e := by
  obtain ⟨hdraft, hticket, hrevision⟩ := entryOf_eq_ok_iff.mp h
  obtain ⟨hu, hevolves, -⟩ := draftFrom_eq_ok_iff.mp hdraft
  have hid := id_of_entryOf h
  rw [← hticket] at hu hid hevolves hrevision hdraft
  refine ⟨hu, ?_, titled_of_draft hdraft, label_of_draft hdraft⟩
  cases hp : latest s e.ticket.key with
  | none =>
    rw [hp] at hid hevolves hrevision
    have hplain : e.draft.isEvolution = false := hevolves
    rw [hplain] at hrevision
    have hnone : e.revision = none := hrevision
    rw [hid, hnone, tail, Option.elim_none, List.append_nil]
    rfl
  | some p =>
    obtain ⟨hpacc, hpkey⟩ := latest_spec hp
    rw [hp] at hid hevolves hrevision
    simp only [nameOf, named, Option.map_some] at hid hevolves
    split_ifs at hid hevolves
    · rw [hevolves, if_pos rfl] at hrevision
      rw [hid, hrevision]
      rfl
    · rw [hevolves, if_neg Bool.false_ne_true] at hrevision
      have hbefore : e.revision = p.revision := hrevision
      rw [hid, hbefore, ← hpkey]
      exact (hs.made p (hs.accepted hpacc)).1.id_eq

/-- A draft's id is no other ticket's where its key clashes with none. -/
lemma apart_iff (hT : Set.InjOn (hexdigest desk.sha256 8) (hashed desk T)) (hs : Kept desk T s)
    (hc : c.ticket ∈ T) (h : entryOf desk s c = .ok e) :
    (∀ e' ∈ s.drafted, e'.ticket.key ≠ c.ticket.key → e'.id ≠ e.id) ↔
      Unclashing desk s c.ticket e.revision := by
  have hmade := made_of_entryOf hs h
  have hticket : e.ticket = c.ticket := (entryOf_eq_ok_iff.mp h).2.1
  refine forall₃_congr fun e' he' hne => not_congr ?_
  obtain ⟨hmade', hT'⟩ := hs.made e' he'
  have hdigest : hexdigest desk.sha256 8 (desk.tracker ++ '-' :: e.ticket.key) ≠
      hexdigest desk.sha256 8 (desk.tracker ++ '-' :: e'.ticket.key) := by
    intro heq
    have htext := hT ⟨c.ticket, hc, .inl (by rw [hticket])⟩ ⟨e'.ticket, hT', .inl rfl⟩ heq
    exact hne (hticket ▸ (List.cons.inj (List.append_cancel_left htext)).2.symm)
  rw [← hticket, clash_iff hmade.usable hmade'.usable hdigest, hmade.id_eq, hmade'.id_eq, String.ofList_inj]
  exact eq_comm

end Invariant

section Steps

variable {F : Type} {desk : Desk F} {T : Set (Ticket F)} {s : Record F} {c : Call F} {p : Entry F}

lemma stemLength_eq (key : Text) : stemLength desk key = (stem desk.sha256 desk.tracker key).length := by
  rw [stemLength, stem]
  split_ifs
  · rfl
  · rw [shortened, List.length_append, List.length_cons, length_hexdigest _ (by norm_num)]

variable [PyFloat F]

lemma exists_entry (h : ∃ d, draftFrom desk c.ticket ((latest s c.ticket.key).map (·.draft.item)) c.registered = .ok d) :
    ∃ e, entryOf desk s c = .ok e := by
  obtain ⟨d, hd⟩ := h
  refine ⟨⟨c.ticket, d, if d.isEvolution then some c.ticket.revision
    else (latest s c.ticket.key).bind (·.revision)⟩, entryOf_eq_ok_iff.mpr ⟨hd, rfl, rfl⟩⟩

/-- A ticket's first draft has the id of its key. -/
lemma exists_first (hp : latest s c.ticket.key = none) (hu : Usable desk.tracker c.ticket.key)
    (htitled : Titled c.ticket) : ∃ e, entryOf desk s c = .ok e := by
  refine exists_entry ?_
  rw [hp, Option.map_none]
  have hid : idMatches (nameOf desk c.ticket none).2.toList = true := by
    have hlen := (idMatches_stem_tail desk.sha256 hu none).mpr (length_stem ..)
    rw [tail, Option.elim_none, List.append_nil] at hlen
    rwa [nameOf, named, String.toList_ofList]
  have hself : superseded desk c.ticket none ≠ (nameOf desk c.ticket none).2 := by
    intro hempty
    have hnone : superseded desk c.ticket none = "" := rfl
    rw [← hempty, hnone] at hid
    exact absurd hid (by decide)
  obtain ⟨d, hd, -⟩ := @exists_draft _ _ _ _ c.registered _ hu hid htitled hself
  exact ⟨d, hd⟩

lemma first_of_entryOf {e : Entry F} (hp : latest s c.ticket.key = none) (h : entryOf desk s c = .ok e) :
    e.revision = none ∧ e.id = .ofList (stem desk.sha256 desk.tracker c.ticket.key) := by
  have hid := id_of_entryOf h
  obtain ⟨hdraft, -, hrevision⟩ := entryOf_eq_ok_iff.mp h
  have hplain := (draftFrom_eq_ok_iff.mp hdraft).2.1
  rw [hp] at hid hplain hrevision
  rw [hrevision, hplain, hid]
  exact ⟨rfl, rfl⟩

lemma corresponds_iff_of_none (hT : Set.InjOn (hexdigest desk.sha256 8) (hashed desk T)) (hs : Kept desk T s)
    (hc : c.ticket ∈ T) (hp : latest s c.ticket.key = none) : Corresponds desk s c ↔ Free desk s c := by
  simp only [Free, hp]
  constructor
  · intro h hu htitled
    obtain ⟨e, he⟩ := exists_first hp hu htitled
    rw [← (first_of_entryOf hp he).1]
    exact (apart_iff hT hs hc he).mp (h.apart e he)
  · intro h
    refine ⟨fun e he => ?_, fun p hp' => (nomatch hp.symm.trans hp'), fun p hp' => (nomatch hp.symm.trans hp')⟩
    have hdraft := (entryOf_eq_ok_iff.mp he).1
    refine (apart_iff hT hs hc he).mpr ?_
    rw [(first_of_entryOf hp he).1]
    exact h (draftFrom_eq_ok_iff.mp hdraft).1 (titled_of_draft hdraft)

/-- A ticket whose content is unchanged. -/
lemma corresponds_of_same (hT : Set.InjOn (hexdigest desk.sha256 8) (hashed desk T)) (hs : Kept desk T s)
    (hc : c.ticket ∈ T) (hp : latest s c.ticket.key = some p)
    (hsame : SameContent desk.casefold p.ticket c.ticket) : Corresponds desk s c := by
  obtain ⟨hpacc, hpkey⟩ := latest_spec hp
  obtain ⟨hmade, hpT⟩ := hs.made p (hs.accepted hpacc)
  have hstays : isEvolution desk c.ticket p.draft.item = false :=
    Bool.eq_false_iff.mpr fun h => (isEvolution_iff hT hmade hpT hc).mp h hsame
  have hname : nameOf desk c.ticket ((latest s c.ticket.key).map (·.draft.item)) = (false, p.id) := by
    rw [hp, Option.map_some, nameOf, named, hstays]
    rfl
  have hid : idMatches (nameOf desk c.ticket ((latest s c.ticket.key).map (·.draft.item))).2.toList = true := by
    rw [hname]
    exact ((BacklogItem.valid_iff _).mp p.draft.item.valid).1
  have htitled : Titled c.ticket := by
    have ht := hmade.titled
    rwa [Titled, hsame.title] at ht
  have hself : superseded desk c.ticket ((latest s c.ticket.key).map (·.draft.item)) ≠
      (nameOf desk c.ticket ((latest s c.ticket.key).map (·.draft.item))).2 := by
    rw [superseded, hname]
    exact p.draft.item.id_ne_empty.symm
  have hu : Usable desk.tracker c.ticket.key := hpkey ▸ hmade.usable
  have hpid : ∀ e, entryOf desk s c = .ok e → e.id = p.id := fun e he => by rw [id_of_entryOf he, hname]
  obtain ⟨d, hd, hplain, -⟩ := @exists_draft _ _ _ _ c.registered _ hu hid htitled hself
  obtain ⟨e, he⟩ := exists_entry ⟨d, hd⟩
  refine ⟨fun e he e' he' hne => ?_, fun p' hp' _ => ?_, fun p' hp' hnot => ?_⟩
  · rw [hpid e he]
    exact hs.apart e' he' p (hs.accepted hpacc) (hpkey ▸ hne)
  · obtain rfl := Option.some.inj (hp.symm.trans hp')
    refine ⟨e, he, hpid e he, ?_⟩
    rw [(draftFrom_eq_ok_iff.mp (entryOf_eq_ok_iff.mp he).1).2.1, hname]
  · obtain rfl := Option.some.inj (hp.symm.trans hp')
    exact absurd hsame hnot

lemma nameOf_of_changed (hT : Set.InjOn (hexdigest desk.sha256 8) (hashed desk T)) (hs : Kept desk T s)
    (hc : c.ticket ∈ T) (hp : latest s c.ticket.key = some p)
    (hchanged : ¬ SameContent desk.casefold p.ticket c.ticket) :
    nameOf desk c.ticket ((latest s c.ticket.key).map (·.draft.item)) =
      (true, .ofList (stem desk.sha256 desk.tracker c.ticket.key ++ suffix c.ticket.revision)) := by
  obtain ⟨hmade, hpT⟩ := hs.made p (hs.accepted (latest_spec hp).1)
  rw [hp, Option.map_some, nameOf, named, (isEvolution_iff hT hmade hpT hc).mpr hchanged]
  rfl

/-- A changed ticket's draft is named at its revision and supersedes the latest item. -/
lemma changed_of_entryOf {e : Entry F} {id : String} (hp : latest s c.ticket.key = some p)
    (hname : nameOf desk c.ticket ((latest s c.ticket.key).map (·.draft.item)) = (true, id))
    (he : entryOf desk s c = .ok e) : e.draft.isEvolution = true ∧ e.revision = some c.ticket.revision ∧
      e.draft.item.supersedes = p.id := by
  obtain ⟨hdraft, -, hrevision⟩ := entryOf_eq_ok_iff.mp he
  obtain ⟨-, hevolves, hfields⟩ := draftFrom_eq_ok_iff.mp hdraft
  rw [hname] at hevolves
  rw [hevolves, if_pos rfl] at hrevision
  refine ⟨hevolves, hrevision, ?_⟩
  rw [hfields, fieldsOf, superseded, hname, hp]
  rfl

/-- Of a ticket's own items, the first has no revision in its id, and the others have theirs. -/
lemma own_id_iff {e : Entry F} (hmade : Made desk e) (hkey : e.ticket.key = c.ticket.key) :
    e.id = .ofList (stem desk.sha256 desk.tracker c.ticket.key ++ suffix c.ticket.revision) ↔
      ∃ r ∈ e.revision, sanitise r = sanitise c.ticket.revision := by
  rw [hmade.id_eq, hkey, String.ofList_inj, List.append_cancel_left_eq]
  cases e.revision with
  | none => simp [tail, suffix]
  | some r => simp [tail, suffix]

/-- A ticket whose content changed. -/
lemma corresponds_iff_of_changed (hT : Set.InjOn (hexdigest desk.sha256 8) (hashed desk T)) (hs : Kept desk T s)
    (hc : c.ticket ∈ T) (hp : latest s c.ticket.key = some p)
    (hchanged : ¬ SameContent desk.casefold p.ticket c.ticket) : Corresponds desk s c ↔ Free desk s c := by
  obtain ⟨hpacc, hpkey⟩ := latest_spec hp
  have hu : Usable desk.tracker c.ticket.key := hpkey ▸ (hs.made p (hs.accepted hpacc)).1.usable
  have hname := nameOf_of_changed hT hs hc hp hchanged
  have hown : ∀ e ∈ s.accepted, e.ticket.key = c.ticket.key → _ := fun e he hkey =>
    own_id_iff (hs.made e (hs.accepted he)).1 hkey
  have hroom := idMatches_stem_tail desk.sha256 hu (some c.ticket.revision)
  rw [← stemLength_eq] at hroom
  simp only [Free, hp]
  constructor
  · intro h _
    obtain ⟨e, he, hid, hfresh, -, -⟩ := h.fresh p hp hchanged
    rw [id_of_entryOf he, hname] at hid hfresh
    rw [String.toList_ofList] at hid
    refine ⟨titled_of_draft (entryOf_eq_ok_iff.mp he).1, hroom.mp hid, ?_, fun e' he' hkey r hr hrev => ?_⟩
    · rw [← (changed_of_entryOf hp hname he).2.1]
      exact (apart_iff hT hs hc he).mp (h.apart e he)
    · exact hfresh e' he' ((hown e' he' hkey).mpr ⟨r, hr, hrev⟩)
  · intro h
    obtain ⟨htitled, hfits, hclash, hrevs⟩ := h hchanged
    have hid : idMatches (nameOf desk c.ticket ((latest s c.ticket.key).map (·.draft.item))).2.toList = true := by
      rw [hname, String.toList_ofList]
      exact hroom.mpr hfits
    have hself : superseded desk c.ticket ((latest s c.ticket.key).map (·.draft.item)) ≠
        (nameOf desk c.ticket ((latest s c.ticket.key).map (·.draft.item))).2 := by
      intro heq
      rw [superseded, hname, hp] at heq
      obtain ⟨r, hr, hrev⟩ := (hown p hpacc hpkey).mp heq
      exact hrevs p hpacc hpkey r hr hrev
    have hapart : ∀ e, entryOf desk s c = .ok e → ∀ e' ∈ s.drafted, e'.ticket.key ≠ c.ticket.key → e'.id ≠ e.id := by
      intro e he
      refine (apart_iff hT hs hc he).mpr ?_
      rw [(changed_of_entryOf hp hname he).2.1]
      exact hclash
    obtain ⟨d, hd, -⟩ := @exists_draft _ _ _ _ c.registered _ hu hid htitled hself
    obtain ⟨e, he⟩ := exists_entry ⟨d, hd⟩
    refine ⟨hapart, fun p' hp' hsame => ?_, fun p' hp' _ => ?_⟩
    · obtain rfl := Option.some.inj (hp.symm.trans hp')
      exact absurd hsame hchanged
    · obtain rfl := Option.some.inj (hp.symm.trans hp')
      obtain ⟨hevolves, -, hsup⟩ := changed_of_entryOf hp hname he
      refine ⟨e, he, ?_, fun e' he' heq => ?_, hevolves, hsup⟩
      · rw [id_of_entryOf he]
        exact hid
      · by_cases hkey : e'.ticket.key = c.ticket.key
        · rw [id_of_entryOf he, hname] at heq
          obtain ⟨r, hr, hrev⟩ := (hown e' he' hkey).mp heq
          exact hrevs e' he' hkey r hr hrev
        · exact hapart e he e' (hs.accepted he') hkey heq

/-- One call of a record that is kept. -/
lemma corresponds_iff (hT : Set.InjOn (hexdigest desk.sha256 8) (hashed desk T)) (hs : Kept desk T s)
    (hc : c.ticket ∈ T) : Corresponds desk s c ↔ Free desk s c := by
  cases hp : latest s c.ticket.key with
  | none => exact corresponds_iff_of_none hT hs hc hp
  | some p =>
    by_cases hsame : SameContent desk.casefold p.ticket c.ticket
    · refine ⟨fun _ => ?_, fun _ => corresponds_of_same hT hs hc hp hsame⟩
      simp only [Free, hp]
      exact fun h => absurd hsame h
    · exact corresponds_iff_of_changed hT hs hc hp hsame

/-- The record is kept by a call that corresponds. -/
lemma kept_step (hs : Kept desk T s) (hc : c.ticket ∈ T) (h : Corresponds desk s c) :
    Kept desk T (step desk s c) := by
  rw [step]
  cases he : entryOf desk s c with
  | error x => exact hs
  | ok e =>
    have hticket : e.ticket = c.ticket := (entryOf_eq_ok_iff.mp he).2.1
    have hnew := h.apart e he
    rw [← hticket] at hnew
    refine ⟨fun e' he' => ?_, ?_, fun a ha b hb hne => ?_⟩
    · obtain he' | he' := List.mem_append.mp he'
      · exact hs.made e' he'
      · obtain rfl := List.mem_singleton.mp he'
        exact ⟨made_of_entryOf hs he, hticket ▸ hc⟩
    · change (if _ then s.accepted ++ [e] else s.accepted) ⊆ s.drafted ++ [e]
      split_ifs
      · exact List.append_subset.mpr ⟨fun x hx => List.mem_append_left _ (hs.accepted hx),
          List.subset_append_right _ _⟩
      · exact fun x hx => List.mem_append_left _ (hs.accepted hx)
    · obtain ha' | ha' := List.mem_append.mp ha <;> obtain hb' | hb' := List.mem_append.mp hb
      · exact hs.apart a ha' b hb' hne
      · obtain rfl := List.mem_singleton.mp hb'
        exact hnew a ha' hne
      · obtain rfl := List.mem_singleton.mp ha'
        exact (hnew b hb' hne.symm).symm
      · rw [List.mem_singleton.mp ha', List.mem_singleton.mp hb'] at hne
        exact absurd rfl hne

lemma kept_start : Kept desk T (start : Record F) :=
  ⟨List.forall_mem_nil _, List.Subset.refl _, List.forall_mem_nil _⟩

end Steps

section Runs

variable {F : Type} [PyFloat F]

end Runs

section Samples

def sampleTicket (key : Text) (h : strip key ≠ []) : Ticket Whole where
  key := key
  title := ""
  body := ""
  acceptanceCriteria := []
  type := ""
  tags := []
  points := none
  revision := ['1']
  links := []
  url := ""
  state := ""
  keyed := h

def upperTicket : Ticket Whole := sampleTicket ['A', 'B'] (by decide)

def lowerTicket : Ticket Whole := sampleTicket ['a', 'b'] (by decide)

/-- A digest that tells two texts from each other and from every other. -/
def pairDigest (t₀ t₁ : Text) : Sha256 where
  hex t := .ofList (List.replicate 64 (if t = t₀ then 'a' else if t = t₁ then 'b' else 'c'))
  isHex t := by
    rw [String.toList_ofList]
    refine ⟨List.length_replicate, fun c hc => ?_⟩
    rw [List.eq_of_mem_replicate hc]
    split_ifs <;> decide

lemma pairDigest_injOn (t₀ t₁ u : Text) :
    Set.InjOn (hexdigest (pairDigest t₀ t₁) 8) {t | t = t₀ ∨ t = t₁ ∨ t = u} := by
  have hmark : ∀ v, hexdigest (pairDigest t₀ t₁) 8 v =
      List.replicate 8 (if v = t₀ then 'a' else if v = t₁ then 'b' else 'c') := by
    intro v
    rw [hexdigest, pairDigest, String.toList_ofList, List.take_replicate]
    rfl
  intro a ha b hb h
  rw [hmark, hmark, List.replicate_right_inj (by norm_num)] at h
  simp only [Set.mem_ofPred_eq] at ha hb
  split_ifs at h <;> simp_all

def sampleDesk : Desk Whole where
  tracker := ['t']
  casefold := lower
  sha256 := pairDigest ['t', '-', 'A', 'B'] ['t', '-', 'a', 'b']
  read _ := ⟨.code, "(unclassified)", none, .L1, [], []⟩

lemma sample_injOn (calls : List (Call Whole)) (h : ∀ c ∈ calls, c.ticket = upperTicket ∨ c.ticket = lowerTicket) :
    Set.InjOn (hexdigest sampleDesk.sha256 8) (hashed sampleDesk {t | ∃ c ∈ calls, c.ticket = t}) := by
  refine (pairDigest_injOn ['t', '-', 'A', 'B'] ['t', '-', 'a', 'b'] (encoded lower upperTicket)).mono ?_
  rintro x ⟨t, ⟨c, hc, rfl⟩, hx⟩
  obtain hticket | hticket := h c hc <;> rw [hticket] at hx <;> obtain rfl | rfl := hx
  · exact .inl rfl
  · exact .inr (.inr rfl)
  · exact .inr (.inl rfl)
  · exact .inr (.inr rfl)

lemma usable_upper : Usable ['t'] ['A', 'B'] := by decide

lemma usable_lower : Usable ['t'] ['a', 'b'] := by decide

lemma stem_upper : stem sampleDesk.sha256 ['t'] ['A', 'B'] = stem sampleDesk.sha256 ['t'] ['a', 'b'] := by
  have hslug : keySlug ['A', 'B'] = keySlug ['a', 'b'] := by decide
  have hshort : Short ['t'] ['A', 'B'] := by decide
  have hshort' : Short ['t'] ['a', 'b'] := by decide
  rw [stem, stem, if_pos hshort, if_pos hshort', hslug]

end Samples

end CommitReplay.TicketRuns
