import CommitReplay.IntakePasses

/-! What any party does about its lease, whatever it is answered: it writes the row as its own, takes it
over only where it read that the row had expired, and once a renewal was refused it calls the tracker no
more. -/
namespace CommitReplay.FencedPasses

open CommitReplay.PythonText CommitReplay.Interaction CommitReplay.Interleavings
open CommitReplay.IntakeRecords CommitReplay.IntakeLeases CommitReplay.IntakePasses

section Calls

def isTracker : Op → Bool
  | .entered | .read _ | .comment .. | .label .. | .transition .. | .link .. => true
  | _ => false

def isRegister : Op → Bool
  | .register _ => true
  | _ => false

def refusedRenewal : Call face → Bool
  | ⟨.stampRow .., .ok false⟩ => true
  | _ => false

/-- A renewal has said that the lease is no longer the party's. -/
def told (calls : List (Call face)) : Bool := calls.any refusedRenewal

def foundIdle : Call face → Bool
  | ⟨.runActive, .ok false⟩ => true
  | _ => false

/-- The party was told, and then found no factory run active. -/
def ToldIdle (calls : List (Call face)) : Prop :=
  ∃ pre c post, calls = pre ++ c :: post ∧ told pre = true ∧ foundIdle c = true

/-- What a call on the row may say, behind these calls. -/
def OwnRow (holder : Holder) (ttlS : ℚ) (before : List (Call face)) : Op → Prop
  | .insertRow row => row.hostname = holder ∧ row.heartbeatS = ttlS
  | .takeRow hostname heartbeat row => row.hostname = holder ∧ row.heartbeatS = ttlS ∧
      ∃ now seen, ⟨.clock, .ok now⟩ ∈ before ∧ ⟨.getRow, .ok (some seen)⟩ ∈ before ∧
        seen.hostname = hostname ∧ seen.heartbeat = heartbeat ∧
        seen.heartbeatS < now - epoch seen.heartbeat
  | .stampRow hostname _ => hostname = holder
  | .deleteRow hostname => hostname = holder
  | _ => True

/-- What a party does at a call: its row is its own, and once told it calls no tracker and registers nothing
but where it then found no factory run active. -/
structure Proper (holder : Holder) (ttlS : ℚ) (before : List (Call face)) (op : Op) : Prop where
  own : OwnRow holder ttlS before op
  quiet : told before = true → isTracker op = false
  register : told before = true → isRegister op = true → ToldIdle before

def AllProper (holder : Holder) (ttlS : ℚ) (calls : List (Call face)) : Prop :=
  ∀ pre c post, calls = pre ++ c :: post → Proper holder ttlS pre c.op

/-- Its calls are proper, and the tracker remembers what a renewal said. -/
structure Sound (holder : Holder) (ttlS : ℚ) (s : Locals) (calls : List (Call face)) : Prop where
  proper : AllProper holder ttlS calls
  lost : told calls = true → s.lost = true

variable {holder : Holder} {ttlS : ℚ} {calls : List (Call face)} {s : Locals}

lemma told_append (m n : List (Call face)) : told (m ++ n) = (told m || told n) := List.any_append

lemma ToldIdle.append (h : ToldIdle calls) (more : List (Call face)) : ToldIdle (calls ++ more) := by
  obtain ⟨pre, c, post, rfl, htold, hidle⟩ := h
  exact ⟨pre, c, post ++ more, by simp, htold, hidle⟩

lemma AllProper.snoc {c : Call face} (h : AllProper holder ttlS calls)
    (hc : Proper holder ttlS calls c.op) : AllProper holder ttlS (calls ++ [c]) := by
  intro pre d post heq
  rcases List.eq_nil_or_concat post with rfl | ⟨post', e, rfl⟩
  · obtain ⟨rfl, hcd⟩ := List.append_inj' heq rfl
    obtain rfl := List.singleton_inj.mp hcd
    exact hc
  · rw [List.concat_eq_append, ← List.cons_append, ← List.append_assoc] at heq
    exact h pre d post' (List.append_inj' heq rfl).1

lemma AllProper.of_prefix {m n : List (Call face)} (h : AllProper holder ttlS n) (hm : m <+: n) :
    AllProper holder ttlS m := by
  obtain ⟨x, rfl⟩ := hm
  exact fun pre c post heq => h pre c (post ++ x) (by rw [heq]; simp)

end Calls

section Leases

variable {holder : Holder} {ttlS : ℚ} {α β : Type}

/-- A call that says nothing of the row, nor is of the tracker or the record. -/
def Aside : Op → Prop
  | .clock | .getRow | .consented | .commitSwitch | .monotonic | .events | .cachedRow _ | .backlog
  | .classSet | .assess _ | .runActive | .append _ | .writeView | .notes | .moves => True
  | _ => False

lemma Aside.proper {op : Op} (h : Aside op) (before : List (Call face)) :
    Proper holder ttlS before op := by
  cases op <;> first | exact h.elim | exact ⟨trivial, fun _ => rfl, fun _ h => nomatch h⟩

lemma Aside.told {op : Op} (h : Aside op) (a : Except Fault op.Ans) :
    told [(⟨op, a⟩ : Call face)] = false := by
  cases op <;> first | exact h.elim | cases a <;> rfl

/-- A call that is in place leaves the party sound. -/
lemma Sound.call {s : Locals} {calls : List (Call face)} {c : Call face} (h : Sound holder ttlS s calls)
    (hc : Proper holder ttlS calls c.op) (htold : told [c] = false) :
    Sound holder ttlS s (calls ++ [c]) :=
  ⟨h.proper.snoc hc, fun ht => h.lost (by rwa [told_append, htold, Bool.or_false] at ht)⟩

lemma keeps_ask {op : Op} (h : Aside op) : Keeps (Sound holder ttlS) (ask op) :=
  Holds.call (fun _ _ a hs => hs.call (h.proper _) (h.told (.ok a))) fun _ _ e hs =>
    hs.call (h.proper _) (h.told (.error e))

lemma keeps_ifThen {J : Locals → List (Call face) → Prop} {b : Bool} {p : Step Unit} (hp : Keeps J p) :
    Keeps J (ifThen b p) := by
  unfold ifThen
  split_ifs
  · exact hp
  · exact Keeps.pure

lemma keeps_catching {J : Locals → List (Call face) → Prop} {p : Step α} {handler : Text → Step α}
    (hp : Keeps J p) (hh : ∀ reason, Keeps J (handler reason)) : Keeps J (catching p handler) := by
  refine Keeps.attempt hp fun e => ?_
  split
  · exact hh _
  · exact Keeps.halt

lemma keeps_release : Keeps (Sound holder ttlS) (release holder) :=
  have hproper : ∀ calls : List (Call face), Proper holder ttlS calls (.deleteRow holder) := fun _ =>
    ⟨rfl, fun _ => rfl, fun _ h => nomatch h⟩
  Holds.call (fun _ _ _ hs => hs.call (hproper _) rfl) fun _ _ _ hs => hs.call (hproper _) rfl

/-- The row is taken over only where it was read to have expired. -/
lemma keeps_acquire : Keeps (Sound holder ttlS) (acquire holder ttlS) := by
  have hclock : Holds (Sound holder ttlS) (ask .clock) fun r s h =>
      Sound holder ttlS s h ∧ ∀ now, r = .ok now → ⟨.clock, .ok now⟩ ∈ h := by
    refine Holds.call (fun s h a hs => ⟨hs.call (Aside.proper (by trivial) _) rfl, fun now hnow => ?_⟩)
      fun s h e hs => ⟨hs.call (Aside.proper (by trivial) _) rfl, fun _ hnow => by cases hnow⟩
    obtain rfl := Except.ok.inj hnow
    simp
  refine Holds.bind hclock (fun now => ?_) fun _ _ _ h => h.1
  have hrow : Holds (fun s h => Sound holder ttlS s h ∧ ∀ t, Except.ok (ε := Halt face Refusal) now = .ok t →
      ⟨.clock, .ok t⟩ ∈ h) (ask .getRow) fun r s h => Sound holder ttlS s h ∧
        ∀ row, r = .ok row → ⟨.clock, .ok now⟩ ∈ h ∧ ⟨.getRow, .ok row⟩ ∈ h := by
    refine Holds.call (fun s h a hs => ⟨hs.1.call (Aside.proper (by trivial) _) rfl, fun row hr => ?_⟩)
      fun s h e hs => ⟨hs.1.call (Aside.proper (by trivial) _) rfl, fun _ hr => by cases hr⟩
    obtain rfl := Except.ok.inj hr
    exact ⟨List.mem_append_left _ (hs.2 now rfl), by simp⟩
  refine Holds.bind hrow (fun row => ?_) fun _ _ _ h => h.1
  cases row with
  | none =>
    have hproper : ∀ calls : List (Call face),
        Proper holder ttlS calls (.insertRow ⟨holder, iso now, iso now, ttlS⟩) := fun _ =>
      ⟨⟨rfl, rfl⟩, fun _ => rfl, fun _ h => nomatch h⟩
    exact Holds.call (fun _ _ _ hs => hs.1.call (hproper _) rfl) fun _ _ _ hs => hs.1.call (hproper _) rfl
  | some row =>
    dsimp only
    split_ifs with hlive
    · exact Holds.pure fun _ _ hs => hs.1
    · have hproper : ∀ calls : List (Call face), ⟨.clock, .ok now⟩ ∈ calls →
          ⟨.getRow, .ok (some row)⟩ ∈ calls → Proper holder ttlS calls
            (.takeRow row.hostname row.heartbeat ⟨holder, iso now, iso now, ttlS⟩) := fun _ hc hr =>
        ⟨⟨rfl, rfl, now, row, hc, hr, rfl, rfl, not_le.mp hlive⟩, fun _ => rfl, fun _ h => nomatch h⟩
      exact Holds.call
        (fun _ _ _ hs => hs.1.call (hproper _ (hs.2 _ rfl).1 (hs.2 _ rfl).2) rfl)
        fun _ _ _ hs => hs.1.call (hproper _ (hs.2 _ rfl).1 (hs.2 _ rfl).2) rfl

/-- A renewal that is not refused has told nothing. -/
lemma holds_renew : Holds (fun s h => Sound holder ttlS s h ∧ s.lost = false) (renew holder)
    fun r s h => AllProper holder ttlS h ∧ s.lost = false ∧ (r = .ok false ∨ told h = false) := by
  have hclock : Holds (fun s h => Sound holder ttlS s h ∧ s.lost = false) (ask .clock) fun _ s h =>
      Sound holder ttlS s h ∧ s.lost = false :=
    Holds.call (fun _ _ _ hs => ⟨hs.1.call (Aside.proper (by trivial) _) rfl, hs.2⟩)
      fun _ _ _ hs => ⟨hs.1.call (Aside.proper (by trivial) _) rfl, hs.2⟩
  have hnot : ∀ {s : Locals} {h : List (Call face)}, Sound holder ttlS s h → s.lost = false →
      told h = false := fun hs hl => by
    by_contra htold
    rw [Bool.not_eq_false] at htold
    exact Bool.false_ne_true (hl.symm.trans (hs.lost htold))
  refine Holds.bind hclock (fun now => ?_) fun _ _ _ hs => ⟨hs.1.proper, hs.2, .inr (hnot hs.1 hs.2)⟩
  have hproper : ∀ calls : List (Call face), Proper holder ttlS calls (.stampRow holder (iso now)) :=
    fun _ => ⟨rfl, fun _ => rfl, fun _ h => nomatch h⟩
  refine Holds.call (fun s h held hs => ⟨hs.1.proper.snoc (hproper _), hs.2, ?_⟩)
    fun s h e hs => ⟨hs.1.proper.snoc (hproper _), hs.2, .inr ?_⟩
  · cases held with
    | false => exact .inl rfl
    | true =>
      refine .inr ?_
      rw [told_append, hnot hs.1 hs.2]
      rfl
  · rw [told_append, hnot hs.1 hs.2]
    rfl

lemma holds_lose {Q : Except (Halt face Refusal) Unit → Locals → List (Call face) → Prop}
    {J : Locals → List (Call face) → Prop}
    (h : ∀ e s calls, J s calls → Q (.error e) { s with lost := true, announced := true } calls) :
    Holds J lose Q :=
  Holds.bind (R := fun _ s calls => ∀ e, Q (.error e) s calls)
    (Holds.modify fun s calls hJ e => h e s calls hJ) (fun _ => Holds.halt fun _ _ hQ => hQ _)
    fun _ _ _ hQ => hQ _

/-- What the fence does where the lease was lost before, and where the renewal is refused. -/
lemma holds_fence {first refused : Step Unit}
    {Q : Except (Halt face Refusal) Unit → Locals → List (Call face) → Prop}
    (hfirst : Holds (fun s h => Sound holder ttlS s h ∧ s.lost = true) first Q)
    (hrefused : Holds (fun _ h => AllProper holder ttlS h) refused Q)
    (hok : ∀ s h, Sound holder ttlS s h → told h = false → Q (.ok ()) s h)
    (herr : ∀ e s h, Sound holder ttlS s h → Q (.error e) s h) :
    Holds (Sound holder ttlS)
      (do
        let s ← Prog.get
        if s.lost then first
        else do
          let held ← renew holder
          if held then pure () else refused) Q := by
  have hsound : ∀ {s : Locals} {h : List (Call face)}, AllProper holder ttlS h → told h = false →
      Sound holder ttlS s h := fun hp ht => ⟨hp, fun h => by rw [ht] at h; cases h⟩
  refine Holds.bind (R := fun r s h => Sound holder ttlS s h ∧ r = .ok s) (Holds.get fun s h hs => ⟨hs, rfl⟩)
    (fun s₀ => ?_) fun _ _ _ hs => herr _ _ _ hs.1
  cases hl : s₀.lost with
  | true =>
    simp only [if_true]
    refine Holds.mono hfirst (fun s h hs => ⟨hs.1, ?_⟩) fun _ _ _ hq => hq
    rw [← Except.ok.inj hs.2, hl]
  | false =>
    simp only [Bool.false_eq_true, if_false]
    have hrenew := Holds.mono (K := fun s h => Sound holder ttlS s h ∧
        Except.ok (ε := Halt face Refusal) s₀ = .ok s) (@holds_renew holder ttlS)
      (fun s h hs => ⟨hs.1, by rw [← Except.ok.inj hs.2, hl]⟩) fun _ _ _ h => h
    refine Holds.bind hrenew (fun held => ?_) fun e s h hr => ?_
    · cases held with
      | true =>
        refine Holds.pure fun s h hr => ?_
        have htold : told h = false := hr.2.2.resolve_left fun h => by cases h
        exact hok s h (hsound hr.1 htold) htold
      | false => exact Holds.mono hrefused (fun _ _ hr => hr.1) fun _ _ _ hq => hq
    · have htold : told h = false := hr.2.2.resolve_left fun h => by cases h
      exact herr e s h (hsound hr.1 htold)

/-- A verb goes on only while no renewal was refused. -/
lemma holds_hold : Holds (Sound holder ttlS) (hold holder) fun r s h =>
    Sound holder ttlS s h ∧ ∀ u, r = .ok u → told h = false :=
  holds_fence
    (holds_lose fun _ _ _ hs => ⟨⟨hs.1.proper, fun _ => rfl⟩, fun _ hu => by cases hu⟩)
    (holds_lose fun _ _ _ hp => ⟨⟨hp, fun _ => rfl⟩, fun _ hu => by cases hu⟩)
    (fun _ _ hs ht => ⟨hs, fun _ _ => ht⟩) fun _ _ _ hs => ⟨hs, fun _ hu => by cases hu⟩

lemma keeps_hold : Keeps (Sound holder ttlS) (hold holder) :=
  Holds.mono holds_hold (fun _ _ h => h) fun _ _ _ h => h.1

lemma keeps_heldAfterWrite : Keeps (Sound holder ttlS) (heldAfterWrite holder) :=
  holds_fence (Holds.pure fun _ _ hs => hs.1) (Holds.modify fun _ _ hp => ⟨hp, fun _ => rfl⟩)
    (fun _ _ hs _ => hs) fun _ _ _ hs => hs

/-- A call of the tracker behind a renewal. -/
lemma holds_tracker {op : Op} (hop : isTracker op = true) :
    Holds (fun s h => Sound holder ttlS s h ∧ told h = false) (ask op) fun _ s h => Sound holder ttlS s h := by
  have hown : ∀ calls, OwnRow holder ttlS calls op := fun calls => by
    cases op <;> first | exact trivial | cases hop
  have hproper : ∀ {calls : List (Call face)}, told calls = false → Proper holder ttlS calls op :=
    fun ht => ⟨hown _, fun h => (by rw [ht] at h; cases h), fun h => (by rw [ht] at h; cases h)⟩
  have htold : ∀ a, told [(⟨op, a⟩ : Call face)] = false := fun a => by
    cases op <;> first | rfl | cases hop
  exact Holds.call (fun _ _ a hs => hs.1.call (hproper hs.2) (htold _)) fun _ _ e hs =>
    hs.1.call (hproper hs.2) (htold _)

lemma keeps_fencedWrite {op : Op} (hop : isTracker op = true) :
    Keeps (Sound holder ttlS) (fencedWrite holder op) :=
  Holds.bind holds_hold
    (fun _ => Holds.bind
      (Holds.mono (holds_tracker hop) (fun _ _ hs => ⟨hs.1, hs.2 _ rfl⟩) fun _ _ _ h => h)
      (fun _ => keeps_heldAfterWrite) fun _ _ _ h => h)
    fun _ _ _ hs => hs.1

/-- What a read returns is returned only while no renewal was refused. -/
lemma holds_fencedRead {op : Op} (hop : isTracker op = true) :
    Holds (Sound holder ttlS) (fencedRead holder op) fun r s h =>
      Sound holder ttlS s h ∧ ∀ a, r = .ok a → told h = false :=
  Holds.bind holds_hold
    (fun _ => Holds.bind
      (Holds.mono (holds_tracker hop) (fun _ _ hs => ⟨hs.1, hs.2 _ rfl⟩) fun _ _ _ h => h)
      (fun _ => Holds.bind holds_hold
        (fun _ => Holds.pure fun _ _ hs => ⟨hs.1, fun _ _ => hs.2 _ rfl⟩)
        fun _ _ _ hs => ⟨hs.1, fun _ ha => by cases ha⟩)
      fun _ _ _ hs => ⟨hs, fun _ ha => by cases ha⟩)
    fun _ _ _ hs => ⟨hs.1, fun _ ha => by cases ha⟩

lemma keeps_fencedRead {op : Op} (hop : isTracker op = true) :
    Keeps (Sound holder ttlS) (fencedRead holder op) :=
  Holds.mono (holds_fencedRead hop) (fun _ _ h => h) fun _ _ _ h => h.1

end Leases

section Tickets

variable {desk : Desk} {holder : Holder} {ttlS deadline : ℚ} {cfg : PollConfig}

lemma keeps_append (itemId key : Text) (kind : Kind) :
    Keeps (Sound holder ttlS) (append desk itemId key kind) :=
  keeps_ask (by trivial)

lemma keeps_stop (itemId key step reason : Text) :
    Keeps (Sound holder ttlS) (stop desk itemId key step reason) :=
  keeps_append _ _ _

lemma keeps_checkBudget : Keeps (Sound holder ttlS) (checkBudget deadline) := by
  refine Keeps.bind (keeps_ask (by trivial)) fun t => ?_
  split
  · exact Keeps.pure
  · exact Keeps.bind (Holds.modify fun _ _ hs => ⟨hs.proper, hs.lost⟩) fun _ => Keeps.halt

lemma keeps_queuedNote (item : BacklogItem) (key notBuilt : Text) :
    Keeps (Sound holder ttlS) (queuedNote desk holder cfg deadline item key notBuilt) :=
  Keeps.bind keeps_checkBudget fun _ => Keeps.bind (keeps_fencedWrite rfl) fun _ =>
    Keeps.bind keeps_checkBudget fun _ => keeps_fencedWrite rfl

/-- An item is put on the record by a party that was not told, or found no factory run active since. -/
lemma keeps_registering {item : BacklogItem} {refused : Step (Option Text)}
    (hr : Keeps (Sound holder ttlS) refused) :
    Holds (fun s h => Sound holder ttlS s h ∧ (told h = true → ToldIdle h)) (registering item refused)
      fun _ => Sound holder ttlS := by
  have hproper : ∀ {calls : List (Call face)}, (told calls = true → ToldIdle calls) →
      Proper holder ttlS calls (.register item) := fun h => ⟨trivial, fun _ => rfl, fun ht _ => h ht⟩
  refine Holds.attempt (R := fun _ => Sound holder ttlS) ?_ (fun _ _ _ hs => hs) fun e => ?_
  · refine Holds.bind (R := fun _ => Sound holder ttlS) ?_ (fun _ => Holds.pure fun _ _ hs => hs)
      fun _ _ _ hs => hs
    exact Holds.call (fun _ _ _ hs => hs.1.call (hproper hs.2) rfl) fun _ _ _ hs =>
      hs.1.call (hproper hs.2) rfl
  · cases e with
    | raised f => exact hr
    | stopped r => exact Keeps.halt

/-- A party told before finds no factory run active, or goes no further. -/
lemma holds_runActive : Holds (Sound holder ttlS) (ask .runActive) fun r s h =>
    Sound holder ttlS s h ∧ (r = .ok false → told h = true → ToldIdle h) := by
  refine Holds.call (fun s h active hs => ⟨hs.call (Aside.proper (by trivial) _) rfl, fun ha ht => ?_⟩)
    fun s h e hs => ⟨hs.call (Aside.proper (by trivial) _) rfl, fun ha => by cases ha⟩
  obtain rfl := Except.ok.inj ha
  rw [told_append] at ht
  exact ⟨h, ⟨.runActive, .ok false⟩, [], rfl, by simpa [told, refusedRenewal] using ht, rfl⟩

lemma keeps_registerAndQueue (item : BacklogItem) (key approvedBy label notBuilt : Text) :
    Keeps (Sound holder ttlS)
      (registerAndQueue desk holder cfg deadline item key approvedBy label notBuilt) := by
  refine Holds.bind holds_runActive (fun active => ?_) fun _ _ _ hs => hs.1
  cases active with
  | true =>
    exact Holds.mono (Keeps.bind (keeps_append _ _ _) fun _ => Keeps.pure) (fun _ _ hs => hs.1) fun _ _ _ h => h
  | false =>
    have hrefused := Keeps.bind (J := Sound holder ttlS)
      (@keeps_stop desk holder ttlS item.id key "register".toList reasonRefused)
      fun _ => Keeps.pure (a := (none : Option Text))
    refine Holds.bind (Holds.mono (@keeps_registering holder ttlS item _ hrefused)
      (fun _ _ hs => ⟨hs.1, hs.2 rfl⟩) fun _ _ _ h => h) (fun how => ?_) fun _ _ _ hs => hs
    cases how with
    | none => exact Keeps.pure
    | some how =>
      refine Keeps.bind (keeps_append _ _ _) fun _ => Keeps.bind (keeps_catching ?_ fun _ => keeps_stop _ _ _ _)
        fun _ => Keeps.pure
      exact Keeps.bind keeps_checkBudget fun _ => Keeps.bind (keeps_fencedWrite rfl) fun _ =>
        keeps_queuedNote _ _ _

lemma keeps_awaitApproval (events : List Event) (item : BacklogItem) (ticket : Ticket) (a : Assessment) :
    Keeps (Sound holder ttlS) (awaitApproval desk events item ticket a) := by
  unfold awaitApproval
  split
  · split
    · exact Keeps.pure
    · exact keeps_append _ _ _
  · exact keeps_append _ _ _

lemma keeps_settle (events : List Event) (item : BacklogItem) (ticket : Ticket) (a : Assessment)
    (already : Bool) :
    Keeps (Sound holder ttlS) (settle desk holder cfg deadline events item ticket a already) := by
  unfold settle
  split
  · exact Keeps.bind (keeps_catching (keeps_queuedNote _ _ _) fun _ => keeps_stop _ _ _ _) fun _ => Keeps.pure
  split
  · split
    · exact Keeps.bind (keeps_awaitApproval _ _ _ _) fun _ => Keeps.pure
    · exact Keeps.bind (keeps_registerAndQueue _ _ _ _ _) fun _ => Keeps.pure
  · exact Keeps.pure

lemma keeps_tellFeedback (item : BacklogItem) (key label : Text) (a : Assessment) :
    Keeps (Sound holder ttlS) (tellFeedback desk holder deadline item key label a) :=
  keeps_catching
    (Keeps.bind keeps_checkBudget fun _ => Keeps.bind (keeps_fencedWrite rfl) fun _ =>
      Keeps.bind keeps_checkBudget fun _ => Keeps.bind (keeps_fencedWrite rfl) fun _ => Keeps.pure)
    fun _ => Keeps.bind (keeps_stop _ _ _ _) fun _ => Keeps.pure

lemma keeps_handleDraft (events : List Event) (item : BacklogItem) (ticket : Ticket)
    (backlog : List BacklogItem) :
    Keeps (Sound holder ttlS) (handleDraft desk holder cfg deadline events item ticket backlog) := by
  refine Keeps.bind (keeps_ask (by trivial)) fun a => Keeps.bind (keeps_tellFeedback _ _ _ _) fun told => ?_
  split
  · exact Keeps.bind (keeps_append _ _ _) fun _ => Keeps.bind (keeps_settle _ _ _ _ _) fun _ => keeps_append _ _ _
  · exact Keeps.pure

lemma keeps_handleTicket (events : List Event) (ref : TicketRef) :
    Keeps (Sound holder ttlS) (handleTicket desk holder cfg deadline events ref) := by
  have hskips : Keeps (Sound holder ttlS) (skips desk cfg events ref) := by
    unfold skips
    split
    · exact keeps_ask (by trivial)
    · exact Keeps.pure
  refine Keeps.bind hskips fun skipped => ?_
  split
  · exact Keeps.pure
  have hread : Keeps (Sound holder ttlS) (readTicket desk holder deadline ref.key) :=
    keeps_catching
      (Keeps.bind keeps_checkBudget fun _ => Keeps.bind (keeps_fencedRead rfl) fun _ => Keeps.pure)
      fun _ => Keeps.bind (keeps_stop _ _ _ _) fun _ => Keeps.pure
  refine Keeps.bind hread fun ticket => ?_
  cases ticket with
  | none => exact Keeps.pure
  | some ticket =>
    refine Keeps.bind (keeps_ask (by trivial)) fun backlog => Keeps.bind (keeps_ask (by trivial)) fun classes => ?_
    split
    · exact keeps_stop _ _ _ _
    · exact keeps_handleDraft _ _ _ _

end Tickets

section Passes

variable {desk : Desk} {holder : Holder} {ttlS : ℚ} {cfg : PollConfig}

lemma keeps_overBudget (started : ℚ) (i : ℕ) : Keeps (Sound holder ttlS) (overBudget cfg started i) := by
  unfold overBudget
  split
  · exact Keeps.pure
  · exact Keeps.bind (keeps_ask (by trivial)) fun _ => Keeps.pure

lemma keeps_handleTickets (started : ℚ) (events : List Event) (i : ℕ) (refs : List TicketRef) :
    Keeps (Sound holder ttlS) (handleTickets desk holder cfg started events i refs) := by
  induction refs generalizing i with
  | nil => exact Keeps.pure
  | cons ref refs ih =>
    have hstop : ∀ reason, Keeps (Sound holder ttlS) (do
        stop desk [] [] "budget".toList reasonColumnTooLarge
        pure (some reason) : Step (Option Text)) := fun _ =>
      Keeps.bind (keeps_stop _ _ _ _) fun _ => Keeps.pure
    rw [handleTickets]
    refine Keeps.bind (keeps_overBudget _ _) fun late => ?_
    split
    · exact hstop _
    refine Keeps.bind (keeps_handleTicket _ _) fun _ => Keeps.bind Keeps.get fun s => ?_
    split
    · exact Keeps.bind (keeps_ifThen (keeps_stop _ _ _ _)) fun _ => Keeps.pure
    split
    · exact hstop _
    · exact ih _

lemma keeps_pollColumn : Keeps (Sound holder ttlS) (pollColumn desk holder cfg) := by
  refine Keeps.bind (keeps_ask (by trivial)) fun started => ?_
  split
  · exact Keeps.bind (keeps_stop _ _ _ _) fun _ => Keeps.pure
  have hread : Keeps (Sound holder ttlS) (readColumn desk holder) :=
    keeps_catching (Keeps.bind (keeps_fencedRead rfl) fun _ => Keeps.pure) fun _ =>
      Keeps.bind (keeps_stop _ _ _ _) fun _ => Keeps.pure
  refine Keeps.bind hread fun refs => ?_
  cases refs with
  | error reason => exact Keeps.pure
  | ok refs =>
    dsimp only
    split
    · exact Keeps.bind (keeps_stop _ _ _ _) fun _ => Keeps.pure
    · exact Keeps.bind (keeps_ask (by trivial)) fun _ => Keeps.bind (keeps_handleTickets _ _ _ _) fun _ =>
        Keeps.bind (keeps_append _ _ _) fun _ => Keeps.pure

lemma keeps_each {α : Type} {J : Locals → List (Call face) → Prop} {f : α → Step Unit} (xs : List α)
    (hf : ∀ x, Keeps J (f x)) : Keeps J (each f xs) := by
  induction xs with
  | nil => exact Keeps.pure
  | cons x xs ih => exact Keeps.bind (hf x) fun _ => ih

lemma keeps_postDelivery (note : Note) : Keeps (Sound holder ttlS) (postDelivery desk holder note) :=
  Keeps.bind
    (keeps_catching
      (Keeps.bind (keeps_fencedWrite rfl) fun _ => Keeps.bind (keeps_fencedWrite rfl) fun _ => Keeps.pure)
      fun _ => Keeps.bind (keeps_stop _ _ _ _) fun _ => Keeps.pure)
    fun _ => keeps_ifThen (keeps_append _ _ _)

lemma keeps_applyOutcomeMap (done : List (Text × Text)) (moves : List Move) :
    Keeps (Sound holder ttlS) (applyOutcomeMap desk holder done moves) := by
  induction moves generalizing done with
  | nil => exact Keeps.pure
  | cons m ms ih =>
    rw [applyOutcomeMap]
    split
    · exact ih _
    refine Keeps.bind (keeps_catching ?_ fun _ => ?_) fun _ =>
      Keeps.bind (keeps_ifThen (keeps_append _ _ _)) fun _ => ih _
    · exact Keeps.bind (keeps_fencedWrite rfl) fun _ => Keeps.pure
    · exact Keeps.bind (keeps_stop _ _ _ _) fun _ => Keeps.pure

lemma keeps_tellTheTickets : Keeps (Sound holder ttlS) (tellTheTickets desk holder cfg) := by
  refine Keeps.bind (Keeps.bind (keeps_ask (by trivial)) fun owed => ?_) fun _ =>
    Keeps.bind (keeps_ask (by trivial)) fun _ => keeps_applyOutcomeMap _ _
  exact Keeps.bind (keeps_each _ fun _ => keeps_postDelivery _) fun _ => keeps_each _ fun _ =>
    keeps_ifThen (keeps_catching (keeps_fencedWrite rfl) fun _ => keeps_stop _ _ _ _)

lemma keeps_writeView : Keeps (Sound holder ttlS) IntakePasses.writeView := by
  refine Keeps.attempt (keeps_ask (by trivial)) fun e => ?_
  split
  · exact Keeps.pure
  · exact Keeps.halt

lemma keeps_pollRepository : Keeps (Sound holder cfg.ttlS) (pollRepository desk holder cfg) := by
  refine Keeps.bind keeps_acquire fun held => ?_
  split
  swap
  · exact Keeps.pure
  refine Keeps.ensuring (Keeps.bind (keeps_ask (by trivial)) fun consented => ?_) keeps_release
  split
  · exact Keeps.pure
  refine Keeps.bind keeps_pollColumn fun report => Keeps.bind Keeps.get fun s => ?_
  split
  · exact Keeps.pure
  · exact Keeps.bind keeps_writeView fun _ => Keeps.bind (keeps_ifThen keeps_tellTheTickets) fun _ => Keeps.pure

/-- The ticket is served as it is now only while no renewal was refused. -/
lemma holds_readLive (key : Text) : Holds (Sound holder ttlS) (readLive holder key) fun r s h =>
    Sound holder ttlS s h ∧ ∀ ticket, r = .ok ticket → told h = false := by
  refine Holds.attempt (holds_fencedRead rfl) (fun _ _ _ hs => hs) fun e => ?_
  have hhalt : ∀ e', Holds (fun s h => Sound holder ttlS s h ∧
      ∀ ticket : Ticket, Except.error e = .ok ticket → told h = false) (Prog.halt e' : Step Ticket) fun r s h =>
        Sound holder ttlS s h ∧ ∀ ticket, r = .ok ticket → told h = false := fun e' =>
    Holds.halt fun _ _ hs => ⟨hs.1, fun _ ht => by cases ht⟩
  split
  · dsimp only
    split
    · exact hhalt _
    · exact hhalt _
  · exact hhalt _

lemma keeps_registerWaiting (approver key : Text) (item : BacklogItem) (label notBuilt : Text) :
    Holds (fun s h => Sound holder ttlS s h ∧ told h = false)
      (registerWaiting desk holder cfg approver key item label notBuilt) fun _ => Sound holder ttlS := by
  have hrefused := Keeps.bind (J := Sound holder ttlS)
    (@keeps_stop desk holder ttlS item.id key "register".toList reasonRefused)
    fun _ => (Keeps.halt : Keeps _ (refuse "register_refused".toList : Step (Option Text)))
  refine Holds.bind (Holds.mono (@keeps_registering holder ttlS item _ hrefused)
    (fun _ _ hs => ⟨hs.1, fun ht => by rw [hs.2] at ht; cases ht⟩) fun _ _ _ h => h) (fun how => ?_)
    fun _ _ _ hs => hs
  cases how with
  | none => exact Keeps.halt
  | some how =>
    refine Keeps.bind (keeps_append _ _ _) fun _ => Keeps.bind (keeps_catching ?_ fun _ => keeps_stop _ _ _ _)
      fun _ => keeps_writeView
    exact Keeps.bind (keeps_fencedWrite rfl) fun _ => Keeps.bind (keeps_fencedWrite rfl) fun _ =>
      keeps_fencedWrite rfl

lemma keeps_registerApproved (approver key revision : Text) :
    Keeps (Sound holder cfg.ttlS) (registerApproved desk holder cfg approver key revision) := by
  refine Keeps.bind keeps_acquire fun held => ?_
  split
  swap
  · exact Keeps.halt
  refine Keeps.ensuring (Keeps.bind (keeps_ask (by trivial)) fun consented => ?_) keeps_release
  split
  · exact Keeps.halt
  refine Keeps.bind (keeps_ask (by trivial)) fun events => ?_
  split
  · exact Keeps.halt
  · refine Keeps.bind (keeps_ask (by trivial)) fun active => ?_
    split
    · exact Keeps.halt
    split
    · exact Keeps.halt
    refine Holds.bind (holds_readLive key) (fun live => ?_) fun _ _ _ hs => hs.1
    split
    · exact Holds.halt fun _ _ hs => hs.1
    · exact Holds.mono (keeps_registerWaiting _ _ _ _ _) (fun _ _ hs => ⟨hs.1, hs.2 _ rfl⟩) fun _ _ _ h => h
  · exact Keeps.halt

lemma keeps_switchOff : Keeps (Sound holder ttlS) (IntakePasses.switchOff holder ttlS) := by
  refine Keeps.bind keeps_acquire fun held => ?_
  split
  · exact Keeps.ensuring (keeps_ask (by trivial)) keeps_release
  · exact Keeps.halt

/-- The time to live a party's lease has. -/
def ttlOf : Party → ℚ
  | .poll cfg => cfg.ttlS
  | .register cfg .. => cfg.ttlS
  | .switchOff ttlS => ttlS

lemma keeps_program (p : Party) : Keeps (Sound holder (ttlOf p)) (p.program desk holder) := by
  cases p with
  | poll cfg => exact Keeps.bind keeps_pollRepository fun _ => Keeps.pure
  | register cfg approver key revision => exact keeps_registerApproved _ _ _
  | switchOff ttlS => exact keeps_switchOff

/-- Wherever a party stands, its calls so far are proper. -/
lemma allProper_of_begins {p : Party} {calls : List (Call face)}
    (h : Begins (p.program desk holder) {} calls) : AllProper holder (ttlOf p) calls := by
  have hstart : Sound holder (ttlOf p) {} [] :=
    ⟨fun pre c post heq => by simp at heq, fun ht => by cases ht⟩
  exact h.holds (fun w => (@keeps_program desk holder p w {} [] hstart).proper) fun hm hn => hn.of_prefix hm

end Passes

end CommitReplay.FencedPasses
