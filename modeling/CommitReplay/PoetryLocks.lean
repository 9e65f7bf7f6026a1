import CommitReplay.LockPins
import CommitReplay.RowChecks

/-! A poetry lock read into pins. The lock lists no requirement of the project itself, and a pin's marker is
inferred from the edges of the other packages: the pins cover an environment exactly where each requirement of
the project is also met by these edges. -/
namespace CommitReplay.PoetryLocks

open CommitReplay.PythonText CommitReplay.LockPins CommitReplay.RowChecks

section Reading

/-- What a package asks of another: a range of versions, or a table that may have a marker. -/
inductive Spec
  | range (text : Text)
  | table (markers : Option Text)

def Spec.marker : Spec → Text
  | .range _ => []
  | .table markers => markers.getD []

/-- A package's own marker: one text, or one text for each group. -/
inductive Own
  | text (marker : Text)
  | groups (markers : List (Text × Text))

structure PoetryPackage where
  name : Text
  version : Option Text
  /-- Each package it depends on, with one spec or several. -/
  dependencies : List (Text × List Spec)
  /-- The type of its source, and nothing for a package of the public index. -/
  source : Option Text
  markers : Option Own
  /-- The hash of each of its files. -/
  files : List (Option Text)

structure PoetryLock where
  package : List PoetryPackage
  /-- The table of the older format: the hashes of the files of each name. Nothing reads it. -/
  metadataFiles : List (Text × List (Option Text))

/-- The names it depends on, each with a marker or with none. -/
def PoetryPackage.edges (p : PoetryPackage) : List (Text × Text) :=
  p.dependencies.flatMap fun dep => dep.2.map fun one => (dep.1, one.marker)

def PoetryPackage.own (p : PoetryPackage) : Text :=
  match p.markers with
  | none => []
  | some (.text marker) => marker
  | some (.groups markers) => orMarkers (markers.map Prod.snd)

/-- The `sha256:` hash that a value is, in lower case. -/
def sha256 (v : Option Text) : Option Text :=
  let text := strip (v.getD [])
  let digest := text.drop 7
  if text.take 7 ∈ ["sha256:".toList, "sha256=".toList] ∧ digest.length = 64 ∧ digest.all isHex then
    some ("sha256:".toList ++ digest.map Char.toLower)
  else none

def sha256s (values : List (Option Text)) : List Text := (values.filterMap sha256).eraseDups

variable (lower : Text → Text)

/-- The markers of the edges that name a package. -/
def incoming (edges : List (Text × Text)) (name : Text) : List Text :=
  (edges.filter fun e => normName lower e.1 = normName lower name).map Prod.snd

/-- `_edge_markers` for one of the names. -/
def edgeMarker (edges : List (Text × Text)) (name : Text) : Text :=
  let ms := incoming lower edges name
  if ms = [] ∨ [] ∈ ms then [] else orMarkers ms

/-- `_pin` -/
def pin (name : Text) (version : Option Text) (hashes : List Text) (marker source : Text) :
    Except ProvisionRefused PyPin :=
  let v := strip (version.getD [])
  if name = [] ∨ isVersion v = false then
    .error ⟨.unpinned, source ++ ": ".toList ++ (if name = [] then ['?'] else name) ++
      " has no exact version".toList⟩
  else .ok ⟨name, v, hashes, pinMarker marker, source⟩

def locked (edges : List (Text × Text)) (path : Text) (i : ℕ) (pkg : PoetryPackage) :
    Except ProvisionRefused PyPin :=
  let source := path ++ ":package[".toList ++ Nat.toDigits 10 i ++ "] ".toList ++ pkg.name
  let kind := pkg.source.getD []
  if kind ≠ [] ∧ kind ≠ "legacy".toList then
    .error ⟨.sourceRefused, source ++ ": a ".toList ++ kind ++ " source is refused".toList⟩
  else
    let marker := if pkg.own ≠ [] then pkg.own else edgeMarker lower edges pkg.name
    pin pkg.name pkg.version (sha256s pkg.files) marker source

def lockedAll (edges : List (Text × Text)) (path : Text) : ℕ → List PoetryPackage →
    Except ProvisionRefused (List PyPin)
  | _, [] => .ok []
  | i, pkg :: rest => do
    let p ← locked lower edges path i pkg
    let ps ← lockedAll edges path (i + 1) rest
    return p :: ps

/-- `_poetry_pins` -/
def poetryPins (doc : PoetryLock) (path : Text) : Except ProvisionRefused (List PyPin) :=
  lockedAll lower (doc.package.flatMap PoetryPackage.edges) path 0 doc.package

/-- `parse_structured_lock` at the normal path of a `poetry.lock`. `loads` reads the TOML document that the
bytes are, or says why they are none. -/
def parseStructuredLock (loads : Bytes → Except Text PoetryLock) (blob : Text → Option Bytes)
    (norm : Text) : Except ProvisionRefused ((Text × Bytes) × List PyPin) :=
  match blob norm with
  | none => .error ⟨.noLock, norm ++ " is not committed at this commit".toList⟩
  | some data =>
    match loads data with
    | .error exc => .error ⟨.lockUnsupported, norm ++ " is not a readable TOML lock: ".toList ++ exc⟩
    | .ok doc => (poetryPins lower doc norm).map fun pins => ((norm, data), pins)

end Reading

section Pins

variable {lower : Text → Text} {edges : List (Text × Text)} {path : Text}

/-- A package of an index, with a name and an exact version. -/
def PoetryPackage.Fetchable (p : PoetryPackage) : Prop :=
  (p.source.getD [] = [] ∨ p.source.getD [] = "legacy".toList) ∧ p.name ≠ [] ∧
    isVersion (strip (p.version.getD [])) = true

/-- The marker of a package's pin. -/
def PoetryPackage.marker (lower : Text → Text) (edges : List (Text × Text)) (p : PoetryPackage) : Text :=
  if p.own ≠ [] then p.own else edgeMarker lower edges p.name

/-- A pin of a package, as the reader makes it. -/
def Pinned (lower : Text → Text) (edges : List (Text × Text)) (p : PoetryPackage) (q : PyPin) : Prop :=
  q.name = p.name ∧ q.version = strip (p.version.getD []) ∧ q.hashes = sha256s p.files ∧
    q.marker = pinMarker (p.marker lower edges)

lemma pin_ok {name marker source : Text} {version : Option Text} {hashes : List Text} {q : PyPin} :
    pin name version hashes marker source = .ok q ↔ (name ≠ [] ∧ isVersion (strip (version.getD [])) = true) ∧
      q = ⟨name, strip (version.getD []), hashes, pinMarker marker, source⟩ := by
  rw [pin]
  split_ifs with h
  · refine iff_of_false (by simp) fun hq => ?_
    rcases h with h | h
    · exact hq.1.1 h
    · exact Bool.false_ne_true (h ▸ hq.1.2)
  · rw [not_or, Bool.not_eq_false] at h
    rw [and_iff_right h, Except.ok.injEq, eq_comm]

lemma locked_ok {i : ℕ} {p : PoetryPackage} {q : PyPin} (h : locked lower edges path i p = .ok q) :
    p.Fetchable ∧ Pinned lower edges p q := by
  rw [locked] at h
  dsimp only at h
  split_ifs at h with hkind
  all_goals
    obtain ⟨⟨hname, hversion⟩, rfl⟩ := pin_ok.mp h
    have hsource : p.source.getD [] = [] ∨ p.source.getD [] = "legacy".toList := by tauto
    refine ⟨⟨hsource, hname, hversion⟩, rfl, rfl, rfl, ?_⟩
    rw [PoetryPackage.marker]
    split_ifs
    rfl

lemma locked_of_fetchable {p : PoetryPackage} (h : p.Fetchable) (i : ℕ) :
    ∃ q, locked lower edges path i p = .ok q := by
  obtain ⟨hsource, hname, hversion⟩ := h
  have hkind : ¬ (p.source.getD [] ≠ [] ∧ p.source.getD [] ≠ "legacy".toList) := by tauto
  rw [locked]
  dsimp only
  rw [if_neg hkind]
  exact ⟨_, pin_ok.mpr ⟨⟨hname, hversion⟩, rfl⟩⟩

/-- The pins are those of the packages, each in its place. -/
lemma lockedAll_ok {i : ℕ} {ps : List PoetryPackage} {qs : List PyPin}
    (h : lockedAll lower edges path i ps = .ok qs) :
    List.Forall₂ (fun p q => p.Fetchable ∧ Pinned lower edges p q) ps qs := by
  induction ps generalizing i qs with
  | nil =>
    obtain rfl := Except.ok.inj h
    exact .nil
  | cons p ps ih =>
    obtain ⟨q, hq, h⟩ := bind_eq_ok.mp h
    obtain ⟨qs', hqs, h⟩ := bind_eq_ok.mp h
    obtain rfl := Except.ok.inj h
    exact .cons (locked_ok hq) (ih hqs)

lemma exists_of_forall₂ {α β : Type} {R : α → β → Prop} {as : List α} {bs : List β} (h : List.Forall₂ R as bs) :
    (∀ a ∈ as, ∃ b ∈ bs, R a b) ∧ ∀ b ∈ bs, ∃ a ∈ as, R a b := by
  induction h with
  | nil => simp
  | @cons a b as bs hab _ ih =>
    refine ⟨List.forall_mem_cons.mpr ⟨⟨b, List.mem_cons_self, hab⟩, fun x hx => ?_⟩,
      List.forall_mem_cons.mpr ⟨⟨a, List.mem_cons_self, hab⟩, fun y hy => ?_⟩⟩
    · obtain ⟨y, hy, hxy⟩ := ih.1 x hx
      exact ⟨y, List.mem_cons_of_mem b hy, hxy⟩
    · obtain ⟨x, hx, hxy⟩ := ih.2 y hy
      exact ⟨x, List.mem_cons_of_mem a hx, hxy⟩

lemma lockedAll_of_fetchable {ps : List PoetryPackage} (h : ∀ p ∈ ps, p.Fetchable) (i : ℕ) :
    ∃ qs, lockedAll lower edges path i ps = .ok qs := by
  induction ps generalizing i with
  | nil => exact ⟨[], rfl⟩
  | cons p ps ih =>
    obtain ⟨hp, hps⟩ := List.forall_mem_cons.mp h
    obtain ⟨q, hq⟩ : ∃ q, locked lower edges path i p = .ok q := locked_of_fetchable hp i
    obtain ⟨qs, hqs⟩ := ih hps (i + 1)
    exact ⟨q :: qs, bind_eq_ok.mpr ⟨q, hq, bind_eq_ok.mpr ⟨qs, hqs, rfl⟩⟩⟩

end Pins

section Environments

variable (lower : Text → Text) (E : Environment) (roots : List (Text × Text)) (packages : List PoetryPackage)

/-- The edges of all packages of the lock. -/
def allEdges : List (Text × Text) := packages.flatMap PoetryPackage.edges

/-- What poetry installs: what the project's own requirements need, and what a package it installs needs. A name
is met by each package that has it once both are normalised. -/
inductive Needed : PoetryPackage → Prop
  | root {p : PoetryPackage} {target marker : Text} : (target, marker) ∈ roots → E.On marker → p ∈ packages →
      normName lower target = normName lower p.name → Needed p
  | edge {p q : PoetryPackage} {target marker : Text} : Needed q → (target, marker) ∈ q.edges → E.On marker →
      p ∈ packages → normName lower target = normName lower p.name → Needed p

/-- The hashes of a package's files, wherever the lock has them. -/
def PoetryLock.hashesOf (doc : PoetryLock) (p : PoetryPackage) : List Text :=
  (p.files ++ (doc.metadataFiles.filter (·.1 = p.name)).flatMap Prod.snd).filterMap sha256

/-- The pin stands for the package here: its marker holds, and it has every hash of the package's files. -/
structure Covers (doc : PoetryLock) (p : PoetryPackage) (q : PyPin) : Prop where
  name : q.name = p.name
  version : q.version = strip (p.version.getD [])
  hashes : ∀ h ∈ doc.hashesOf p, h ∈ q.hashes
  on : E.OnPin q.marker

/-- A package's incoming edges leave its pin on: there is none, or one of them is on. -/
def LeftOn (name : Text) : Prop :=
  incoming lower (allEdges packages) name = [] ∨ ∃ m ∈ incoming lower (allEdges packages) name, E.On m

variable {lower E roots packages}

lemma Needed.mem {p : PoetryPackage} (h : Needed lower E roots packages p) : p ∈ packages := by
  cases h with
  | root _ _ hp _ => exact hp
  | edge _ _ _ hp _ => exact hp

lemma mem_incoming {name m : Text} : m ∈ incoming lower (allEdges packages) name ↔
    ∃ q ∈ packages, ∃ target, (target, m) ∈ q.edges ∧ normName lower target = normName lower name := by
  simp only [incoming, allEdges, List.mem_map, List.mem_filter, List.mem_flatMap, decide_eq_true_eq]
  constructor
  · rintro ⟨⟨target, m⟩, ⟨⟨q, hq, he⟩, hname⟩, rfl⟩
    exact ⟨q, hq, target, he, hname⟩
  · rintro ⟨q, hq, target, he, hname⟩
    exact ⟨(target, m), ⟨⟨q, hq, he⟩, hname⟩, rfl⟩

/-- The inferred marker is on exactly where the incoming edges leave the pin on. -/
theorem on_edgeMarker (hmarkers : ∀ e ∈ allEdges packages, e.2 = [] ∨ E.isMarker e.2) (name : Text) :
    E.On (edgeMarker lower (allEdges packages) name) ↔ LeftOn lower E packages name := by
  rw [edgeMarker, LeftOn]
  split_ifs with h
  · refine iff_of_true (.inl rfl) (h.imp_right fun hm => ⟨[], hm, .inl rfl⟩)
  · rw [not_or] at h
    have hisMarker : ∀ m ∈ incoming lower (allEdges packages) name, E.isMarker m := by
      intro m hm
      obtain ⟨e, he, rfl⟩ := List.mem_map.mp hm
      exact (hmarkers e (List.mem_filter.mp he).1).resolve_left fun hnil => h.2 (hnil ▸ hm)
    rw [on_orMarkers E h.1 hisMarker, or_iff_right h.1]
    refine exists_congr fun m => and_congr_right fun hm => ?_
    rw [Environment.On, or_iff_right]
    exact fun hnil => h.2 (hnil ▸ hm)

/-- A package another one needs has its pin on: only the project's own requirements are not seen. -/
lemma leftOn_of_edge {p q : PoetryPackage} {target marker : Text} (hq : q ∈ packages)
    (he : (target, marker) ∈ q.edges) (hon : E.On marker) (hname : normName lower target = normName lower p.name) :
    LeftOn lower E packages p.name :=
  .inr ⟨marker, mem_incoming.mpr ⟨q, hq, target, he, hname⟩, hon⟩

/-- Every requirement of the project that is on leaves the pins of its packages on. -/
def RootsCovered (lower : Text → Text) (E : Environment) (roots : List (Text × Text))
    (packages : List PoetryPackage) : Prop :=
  ∀ target marker, (target, marker) ∈ roots → E.On marker → ∀ p ∈ packages,
    normName lower target = normName lower p.name → LeftOn lower E packages p.name

lemma leftOn_of_needed (h : RootsCovered lower E roots packages) {p : PoetryPackage}
    (hp : Needed lower E roots packages p) : LeftOn lower E packages p.name := by
  cases hp with
  | root hroot hon hmem hname => exact h _ _ hroot hon p hmem hname
  | edge hq he hon _ hname => exact leftOn_of_edge hq.mem he hon hname

/-- Every hash of a package that is needed stands in a package's own table. -/
def HashesKept (lower : Text → Text) (E : Environment) (roots : List (Text × Text)) (doc : PoetryLock) : Prop :=
  ∀ p, Needed lower E roots doc.package p → ∃ p' ∈ doc.package, p'.name = p.name ∧
    strip (p'.version.getD []) = strip (p.version.getD []) ∧ ∀ h ∈ doc.hashesOf p, h ∈ sha256s p'.files

/-- A lock is read when each package is fetchable; and its pins cover what the project needs if and only if each
requirement of the project itself leaves the pins of its packages on, and each hash is in a package's table. -/
theorem poetry_pins_cover_iff (lower : Text → Text) (loads : Bytes → Except Text PoetryLock)
    (blob : Text → Option Bytes) (norm : Text) (E : Environment) (roots : List (Text × Text)) {data : Bytes}
    {doc : PoetryLock} (hblob : blob norm = some data) (hloads : loads data = .ok doc)
    (hown : ∀ p ∈ doc.package, p.own = []) (hmarkers : ∀ e ∈ allEdges doc.package, e.2 = [] ∨ E.isMarker e.2) :
    ((∃ out, parseStructuredLock lower loads blob norm = .ok out) ↔ ∀ p ∈ doc.package, p.Fetchable) ∧
      ∀ file pins, parseStructuredLock lower loads blob norm = .ok (file, pins) →
        ((∀ p, Needed lower E roots doc.package p → ∃ q ∈ pins, Covers E doc p q) ↔
          RootsCovered lower E roots doc.package ∧ HashesKept lower E roots doc) := by
  have hparse : parseStructuredLock lower loads blob norm =
      (poetryPins lower doc norm).map fun pins => ((norm, data), pins) := by
    rw [parseStructuredLock, hblob]
    simp only [hloads]
  rw [hparse]
  cases hpins : poetryPins lower doc norm with
  | error e =>
    refine ⟨iff_of_false (fun ⟨out, h⟩ => by cases h) fun hall => ?_, fun file pins h => by cases h⟩
    obtain ⟨pins, h⟩ : ∃ qs, lockedAll lower (allEdges doc.package) norm 0 doc.package = .ok qs :=
      lockedAll_of_fetchable hall 0
    exact absurd (hpins.symm.trans h) (by simp)
  | ok pins =>
    obtain ⟨hpackages, hpinned⟩ := exists_of_forall₂ (lockedAll_ok hpins)
    refine ⟨iff_of_true ⟨_, rfl⟩ fun p hp => ?_, fun file pins' h => ?_⟩
    · obtain ⟨q, -, hfetchable, -⟩ := hpackages p hp
      exact hfetchable
    obtain ⟨-, rfl⟩ := Prod.mk.inj (Except.ok.inj h)
    have hmarker : ∀ p ∈ doc.package, ∀ q, Pinned lower (allEdges doc.package) p q →
        (E.OnPin q.marker ↔ LeftOn lower E doc.package p.name) := by
      rintro p hp q ⟨-, -, -, hq⟩
      rw [hq, onPin_pinMarker, PoetryPackage.marker, if_neg (not_not_intro (hown p hp)), on_edgeMarker hmarkers]
    refine ⟨fun hcover => ⟨fun target marker hroot hon p hp hname => ?_, fun p hneeded => ?_⟩, ?_⟩
    · obtain ⟨q, hq, hcovers⟩ := hcover p (.root hroot hon hp hname)
      obtain ⟨p', hp', -, hpin⟩ := hpinned q hq
      have hsame : p'.name = p.name := hpin.1.symm.trans hcovers.name
      exact hsame ▸ (hmarker p' hp' q hpin).mp hcovers.on
    · obtain ⟨q, hq, hcovers⟩ := hcover p hneeded
      obtain ⟨p', hp', -, hpin⟩ := hpinned q hq
      exact ⟨p', hp', hpin.1.symm.trans hcovers.name, hpin.2.1.symm.trans hcovers.version,
        fun h hh => hpin.2.2.1 ▸ hcovers.hashes h hh⟩
    · rintro ⟨hroots, hhashes⟩ p hneeded
      obtain ⟨p', hp', hname, hversion, hkept⟩ := hhashes p hneeded
      obtain ⟨q, hq, -, hpin⟩ := hpackages p' hp'
      refine ⟨q, hq, hpin.1.trans hname, hpin.2.1.trans hversion, fun h hh => hpin.2.2.1 ▸ hkept h hh, ?_⟩
      exact (hmarker p' hp' q hpin).mpr (hname ▸ leftOn_of_needed hroots hneeded)

end Environments

section Samples

lemma strip_strip_ne_nil {m : Text} (h : strip m ≠ []) : strip (strip m) ≠ [] :=
  strip_ne_nil (List.getLast_mem h)
    ((Bool.not_eq_true _).mp (List.rdropWhile_last_not isSpace (m.dropWhile isSpace) h))

/-- A machine no marker holds on: the interpreter is newer than each of them asks for. -/
def newer : Environment where
  isMarker m := strip m ≠ []
  holds _ := False
  isMarker_strip _ h := ⟨strip_strip_ne_nil h, h⟩
  holds_strip _ _ := Iff.rfl
  isMarker_and ms h _ := by
    obtain ⟨m, ms, rfl⟩ := List.exists_cons_of_ne_nil (List.ne_nil_of_length_pos (by omega : 0 < ms.length))
    refine strip_ne_nil (c := '(') ?_ rfl
    cases ms <;> simp [joined, parens, List.intercalate_cons_cons]
  holds_or _ _ _ := by simp
  holds_and ms h _ := by
    obtain ⟨m, ms, rfl⟩ := List.exists_cons_of_ne_nil (List.ne_nil_of_length_pos (by omega : 0 < ms.length))
    exact iff_of_false id fun hall => hall m List.mem_cons_self

def oldPython : Text := "python_version < \"3.11\"".toList

/-- `left` needs `tomli` on an old interpreter only. -/
def left : PoetryPackage :=
  ⟨"left".toList, some "1.0.0".toList, [("tomli".toList, [.table (some oldPython)])], none, none, []⟩

def tomli : PoetryPackage := ⟨"tomli".toList, some "2.0.1".toList, [], none, none, []⟩

def lockText : Text := "poetry.lock".toList

def sampleLock : PoetryLock := ⟨[left, tomli], []⟩

lemma isMarker_oldPython : newer.isMarker oldPython :=
  strip_ne_nil (c := 'p') (by decide) rfl

lemma markers_sample : ∀ e ∈ allEdges sampleLock.package, e.2 = [] ∨ newer.isMarker e.2 := by
  intro e he
  obtain rfl : e = ("tomli".toList, oldPython) := by
    simpa [allEdges, PoetryPackage.edges, sampleLock, left, tomli, Spec.marker] using he
  exact .inr isMarker_oldPython

lemma own_sample : ∀ p ∈ sampleLock.package, p.own = [] := by simp [sampleLock, left, tomli, PoetryPackage.own]

theorem poetry_pins_cover_iff_sample :
    (∃ out, parseStructuredLock id (fun _ => .ok sampleLock) (fun _ => some []) lockText = .ok out) ↔
      ∀ p ∈ sampleLock.package, p.Fetchable :=
  (poetry_pins_cover_iff id (fun _ => .ok sampleLock) (fun _ => some []) lockText newer [("left".toList, [])]
    rfl rfl own_sample markers_sample).1

/-- The project itself needs `tomli` always, and its pin is off on a new interpreter. -/
theorem not_forall_covered : ¬ ∀ (lower : Text → Text) (loads : Bytes → Except Text PoetryLock)
    (blob : Text → Option Bytes) (norm : Text) (E : Environment) (roots : List (Text × Text)) (data : Bytes)
    (doc : PoetryLock), blob norm = some data → loads data = .ok doc →
    (∀ p ∈ doc.package, p.own = []) → (∀ e ∈ allEdges doc.package, e.2 = [] ∨ E.isMarker e.2) →
    ∀ file pins, parseStructuredLock lower loads blob norm = .ok (file, pins) →
      ∀ p, Needed lower E roots doc.package p → ∃ q ∈ pins, Covers E doc p q := by
  intro h
  have hneeded : Needed id newer [("left".toList, []), ("tomli".toList, [])] sampleLock.package tomli :=
    .root (show ("tomli".toList, []) ∈ _ by simp) (.inl rfl) (by simp [sampleLock]) rfl
  obtain ⟨q, hq, hcovers⟩ := h id (fun _ => .ok sampleLock) (fun _ => some []) lockText newer
    [("left".toList, []), ("tomli".toList, [])] [] sampleLock rfl rfl own_sample markers_sample (lockText, [])
    [⟨"left".toList, "1.0.0".toList, [], [], "poetry.lock:package[0] left".toList⟩,
      ⟨"tomli".toList, "2.0.1".toList, [], "; ".toList ++ oldPython, "poetry.lock:package[1] tomli".toList⟩]
    (by decide) tomli hneeded
  rcases List.mem_cons.mp hq with rfl | hq
  · exact absurd hcovers.name (by decide)
  · obtain rfl := List.mem_singleton.mp hq
    rcases hcovers.on with hnil | ⟨m, -, hm⟩
    · exact absurd hnil (by decide)
    · exact hm

end Samples

end CommitReplay.PoetryLocks
