import CommitReplay.IntakeLeases

/-! The parties that work under a repository's intake lease: a poll of its column, the Register act, and
the switch-off. -/
namespace CommitReplay.IntakePasses

open CommitReplay.PythonText CommitReplay.Interaction CommitReplay.IntakeRecords
open CommitReplay.IntakeLeases

structure PollConfig where
  ttlS : ℚ
  maxTickets : ℕ
  budgetS : ℚ
  force : Bool
  absoluteUrl : Bool
  itemUrl : Text → Text
  renderQueued : Text → Text → Text
  approverFor : Text → Option Text
  tellsTickets : Bool

structure PollReport where
  busy : Bool := false
  withdrawn : Bool := false
  stopped : Option Text := none

def reasonColumnTooLarge : Text := "column_too_large".toList

def reasonNoPublicUrl : Text := "no_public_url".toList

def reasonRefused : Text := "refused".toList

variable (desk : Desk) (holder : Holder) (cfg : PollConfig)

section Writes

def append (itemId key : Text) (kind : Kind) : Step Unit := ask (.append ⟨itemId, desk.tracker, key, kind⟩)

def stop (itemId key step reason : Text) : Step Unit := append desk itemId key (.stopped step reason)

def queuedMarker (key : Text) : Text := desk.tracker ++ ":".toList ++ key ++ ":queued".toList

/-- `_BudgetGuard`: no further tracker call is started behind the deadline. -/
def checkBudget (deadline : ℚ) : Step Unit := do
  let t ← ask .monotonic
  if t < deadline then pure ()
  else do
    Prog.modify fun s => { s with fired := true }
    raiseTracker reasonColumnTooLarge

end Writes

section Tickets

variable (deadline : ℚ)

inductive Outcome
  | queued | refused | registered
deriving DecidableEq

/-- The record's answer to an item, or none: any exception of it is a stop. -/
def registering (item : BacklogItem) (refused : Step (Option Text)) : Step (Option Text) :=
  Prog.attempt
    (do
      let how ← ask (.register item)
      pure (some how))
    fun e =>
      match e with
      | .raised _ => refused
      | .stopped r => .halt (.stopped r)

/-- The queued note and its link, on the item's page. -/
def queuedNote (item : BacklogItem) (key notBuilt : Text) : Step Unit := do
  checkBudget deadline
  Fenced.comment holder key (cfg.renderQueued item.id notBuilt) (queuedMarker desk key)
  checkBudget deadline
  Fenced.link holder key (cfg.itemUrl item.id)

/-- `_register_and_queue`. -/
def registerAndQueue (item : BacklogItem) (key approvedBy label notBuilt : Text) : Step Outcome := do
  let active ← ask .runActive
  if active then do
    append desk item.id key .queued
    pure .queued
  else do
    let how ← registering item do
      stop desk item.id key "register".toList reasonRefused
      pure none
    match how with
    | none => pure .refused
    | some how => do
      append desk item.id key (.registered how item.supersedes approvedBy)
      -- the item is registered: only the courtesy write can fail
      catching
        (do
          checkBudget deadline
          Fenced.label holder key label
          queuedNote desk holder cfg deadline item key notBuilt)
        fun reason => stop desk item.id key "queued".toList reason
      pure .registered

/-- `_await_approval`: the draft goes on the chain, unless the same one is waiting. -/
def awaitApproval (events : List Event) (item : BacklogItem) (ticket : Ticket) (a : Assessment) : Step Unit :=
  match latest events desk.tracker ticket.key Kind.isAwaiting with
  | some ⟨id, _, _, .awaiting _ revision content _ _⟩ =>
    if id = item.id ∧ content = item.contentRevision ∧ revision = ticket.revision then pure ()
    else append desk item.id ticket.key
      (.awaiting item ticket.revision item.contentRevision a.labelOnceRegistered a.notBuilt)
  | _ => append desk item.id ticket.key
      (.awaiting item ticket.revision item.contentRevision a.labelOnceRegistered a.notBuilt)

/-- What a ticket with feedback is owed; whether its registration waits for a factory run. -/
def settle (events : List Event) (item : BacklogItem) (ticket : Ticket) (a : Assessment)
    (alreadyRegistered : Bool) : Step Bool :=
  if a.readyToRegister && alreadyRegistered then do
    catching (queuedNote desk holder cfg deadline item ticket.key a.notBuilt) fun reason =>
      stop desk item.id ticket.key "queued".toList reason
    pure false
  else if a.readyToRegister then
    match cfg.approverFor ticket.author with
    | none => do
      awaitApproval desk events item ticket a
      pure false
    | some approvedBy => do
      let outcome ← registerAndQueue desk holder cfg deadline item ticket.key approvedBy
        a.labelOnceRegistered a.notBuilt
      pure (outcome = .queued)
  else pure false

/-- The feedback and its label; whether the tracker took both. -/
def tellFeedback (item : BacklogItem) (key label : Text) (a : Assessment) : Step Bool :=
  catching
    (do
      checkBudget deadline
      Fenced.comment holder key a.text a.marker
      checkBudget deadline
      Fenced.label holder key label
      pure true)
    fun reason => do
      stop desk item.id key "feedback".toList reason
      pure false

/-- The draft's feedback, and then what the ticket has earned. -/
def handleDraft (events : List Event) (item : BacklogItem) (ticket : Ticket)
    (backlog : List BacklogItem) : Step Unit := do
  let a ← ask (.assess item)
  let alreadyRegistered := (itemAt backlog item.id).isSome
  let label := if a.readyToRegister && alreadyRegistered then a.labelOnceRegistered else a.label
  let told ← tellFeedback desk holder deadline item ticket.key label a
  if told then do
    append desk item.id ticket.key (.feedback label)
    let awaiting ← settle desk holder cfg deadline events item ticket a alreadyRegistered
    append desk item.id ticket.key
      (.read ticket.revision item.contentRevision a.readyToRegister awaiting)
  else pure ()

def readTicket (key : Text) : Step (Option Ticket) :=
  catching
    (do
      checkBudget deadline
      let ticket ← Fenced.read holder key
      pure (some ticket))
    fun reason => do
      stop desk [] key "read".toList reason
      pure none

/-- A ticket read is drafted from the item it was registered as; one no item can be made of is a stop. -/
def handleRead (events : List Event) (ticket : Ticket) : Step Unit := do
  let backlog ← ask .backlog
  let items := backlog.getD []
  let classes ← ask .classSet
  match draftFrom desk classes ticket (itemAt items (itemForTicket events desk.tracker ticket.key)) with
  | none => stop desk [] ticket.key "draft".toList reasonRefused
  | some item => handleDraft desk holder cfg deadline events item ticket items

/-- Whether the ticket is skipped: this revision is handled, and its row is served. -/
def skips (events : List Event) (ref : TicketRef) : Step Bool :=
  if !cfg.force && alreadyHandled events desk.tracker ref.key ref.revision then ask (.cachedRow ref.key)
  else pure false

/-- `_handle_ticket`. -/
def handleTicket (events : List Event) (ref : TicketRef) : Step Unit := do
  let skipped ← skips desk cfg events ref
  if skipped then pure ()
  else do
    let ticket ← readTicket desk holder deadline ref.key
    match ticket with
    | none => pure ()
    | some ticket => handleRead desk holder cfg deadline events ticket

end Tickets

section Column

/-- The budget is asked for between tickets, so never before the first. -/
def overBudget (started : ℚ) (i : ℕ) : Step Bool :=
  if i = 0 then pure false
  else do
    let t ← ask .monotonic
    pure (decide (cfg.budgetS < t - started))

/-- The tickets in their order; why the pass stopped, if it did. -/
def handleTickets (started : ℚ) (events : List Event) : ℕ → List TicketRef → Step (Option Text)
  | _, [] => pure none
  | i, ref :: refs => do
    let late ← overBudget cfg started i
    if late then do
      stop desk [] [] "budget".toList reasonColumnTooLarge
      pure (some reasonColumnTooLarge)
    else do
      handleTicket desk holder cfg (started + cfg.budgetS) events ref
      let s ← Prog.get
      if s.lost then do
        -- a loss found after a write was not raised, so nothing recorded it
        ifThen (!s.announced) (stop desk [] [] "lease".toList reasonLeaseLost)
        pure (some reasonLeaseLost)
      else if s.fired then do
        stop desk [] [] "budget".toList reasonColumnTooLarge
        pure (some reasonColumnTooLarge)
      else handleTickets started events (i + 1) refs

def readColumn : Step (Except Text (List TicketRef)) :=
  catching
    (do
      let refs ← Fenced.entered holder
      pure (.ok refs))
    fun reason => do
      stop desk [] [] "entered".toList reason
      pure (.error reason)

/-- `_poll_column`. -/
def pollColumn : Step PollReport := do
  let started ← ask .monotonic
  if !cfg.absoluteUrl then do
    stop desk [] [] "public_url".toList reasonNoPublicUrl
    pure { stopped := some reasonNoPublicUrl }
  else do
    let refs ← readColumn desk holder
    match refs with
    | .error reason => pure { stopped := some reason }
    | .ok refs =>
      if cfg.maxTickets < refs.length then do
        stop desk [] [] "entered".toList reasonColumnTooLarge
        pure { stopped := some reasonColumnTooLarge }
      else do
        let events ← ask .events
        let stopped ← handleTickets desk holder cfg started events 0 refs
        append desk [] [] .polled
        pure { stopped }

end Column

section Later

/-- `post_delivery`. -/
def postDelivery (note : Note) : Step Unit := do
  let told ← catching
    (do
      Fenced.comment holder note.key note.text (note.key ++ ":pr".toList)
      Fenced.link holder note.key note.url
      pure true)
    fun reason => do
      stop desk note.itemId note.key "delivered".toList reason
      pure false
  ifThen told (append desk note.itemId note.key (.delivered note.url))

/-- `post_refusal`: nothing is written that would link nowhere. -/
def postRefusal (note : Note) : Step Unit :=
  ifThen cfg.absoluteUrl
    (catching (Fenced.comment holder note.key note.text (note.key ++ ":refusal".toList)) fun reason =>
      stop desk note.itemId note.key "refusal".toList reason)

def each {α : Type} (f : α → Step Unit) : List α → Step Unit
  | [] => pure ()
  | x :: xs => do
    f x
    each f xs

/-- `post_outcomes_to_tickets`: the deliveries and the refusals the chain says are owed. -/
def postOutcomesToTickets : Step Unit := do
  let owed ← ask .notes
  each (postDelivery desk holder) owed.1
  each (postRefusal desk holder cfg) owed.2

/-- `apply_outcome_map`: a move is made once for an item and an outcome. -/
def applyOutcomeMap (done : List (Text × Text)) : List Move → Step Unit
  | [] => pure ()
  | m :: ms =>
    if (m.itemId, m.outcome) ∈ done then applyOutcomeMap done ms
    else do
      let moved ← catching
        (do
          Fenced.transition holder m.key m.state
          pure true)
        fun reason => do
          stop desk m.itemId m.key "transition".toList reason
          pure false
      ifThen moved (append desk m.itemId m.key (.transitioned m.outcome m.state))
      applyOutcomeMap (if moved then (m.itemId, m.outcome) :: done else done) ms

/-- What the worker tells the tickets behind a column pass, under the lease still. -/
def tellTheTickets : Step Unit := do
  postOutcomesToTickets desk holder cfg
  let moves ← ask .moves
  applyOutcomeMap desk holder [] moves

/-- The served view is written, or a warning is logged: it is no record. -/
def writeView : Step Unit :=
  Prog.attempt (ask .writeView) fun e =>
    match e with
    | .raised .osError => pure ()
    | e => .halt e

end Later

section Passes

def pollHeld : Step PollReport := do
  let consented ← ask .consented
  if !consented then pure { withdrawn := true }
  else do
    let report ← pollColumn desk holder cfg
    let s ← Prog.get
    if s.lost then pure report
    else do
      writeView
      ifThen cfg.tellsTickets (tellTheTickets desk holder cfg)
      pure report

/-- `poll_repository`. -/
def pollRepository : Step PollReport := do
  let held ← acquire holder cfg.ttlS
  if held then Prog.ensuring (pollHeld desk holder cfg) (release holder) else pure { busy := true }

def refuse {α : Type} (code : Text) : Step α := Prog.stop code

/-- The draft the operator read, where it is the one that waits. -/
def waitingDraft (events : List Event) (key revision : Text) : Except Text Event := do
  let reads := events.filter fun e => e.kind.isRead && e.tracker = desk.tracker && e.key = key
  let contentOf : Event → Text := fun e =>
    match e.kind with
    | .read _ content _ _ => content
    | .awaiting _ _ content _ _ => content
    | _ => []
  let revisionOf : Event → Text := fun e =>
    match e.kind with
    | .read r _ _ _ => r
    | _ => []
  match reads.getLast?, (reads.filter fun e => revisionOf e = revision).getLast? with
  | some last, some seen =>
    if contentOf seen ≠ contentOf last then .error "revision_moved".toList
    else
      -- the newest of both kinds is the draft's, or the draft is registered
      match latest events desk.tracker key fun k => k.isAwaiting || k.isRegistered with
      | some waiting =>
        if waiting.kind.isAwaiting && contentOf waiting = contentOf last then .ok waiting
        else .error "nothing_to_register".toList
      | none => .error "nothing_to_register".toList
  | _, _ => .error "revision_moved".toList

/-- The ticket as the tracker serves it now; a lease lost at it is a refusal. -/
def readLive (key : Text) : Step Ticket :=
  catching (Fenced.read holder key) fun reason =>
    if reason ≠ reasonLeaseLost then raiseTracker reason else refuse "intake_busy".toList

/-- The registration and what it is told with. -/
def registerWaiting (approver key : Text) (item : BacklogItem) (label notBuilt : Text) : Step Unit := do
  let how ← registering item do
    stop desk item.id key "register".toList reasonRefused
    refuse "register_refused".toList
  match how with
  | none => refuse "register_refused".toList
  | some how => do
    append desk item.id key (.registered how item.supersedes approver)
    catching
      (do
        Fenced.label holder key label
        Fenced.comment holder key (cfg.renderQueued item.id notBuilt) (queuedMarker desk key)
        Fenced.link holder key (cfg.itemUrl item.id))
      fun reason => stop desk item.id key "queued".toList reason
    writeView

/-- `_register_approved`: every refusal comes before the first write. -/
def registerHeld (approver key revision : Text) : Step Unit := do
  let consented ← ask .consented
  if !consented then refuse "intake_listener_off".toList
  else do
    let events ← ask .events
    match waitingDraft desk events key revision with
    | .error code => refuse code
    | .ok ⟨_, _, _, .awaiting item _ content label notBuilt⟩ => do
      let active ← ask .runActive
      if active then refuse "factory_run_active".toList
      else if !cfg.absoluteUrl then refuse reasonNoPublicUrl
      else do
        let live ← readLive holder key
        if live.contentRevision ≠ content then refuse "revision_moved".toList
        else registerWaiting desk holder cfg approver key item label notBuilt
    | .ok _ => refuse "nothing_to_register".toList

/-- `register_approved`. -/
def registerApproved (approver key revision : Text) : Step Unit := do
  let held ← acquire holder cfg.ttlS
  if held then Prog.ensuring (registerHeld desk holder cfg approver key revision) (release holder)
  else refuse "intake_busy".toList

/-- `put_intake` switching off: the switch is committed under the lease. -/
def switchOff (ttlS : ℚ) : Step Unit := do
  let held ← acquire holder ttlS
  if held then Prog.ensuring (ask .commitSwitch) (release holder) else refuse "intake_busy".toList

end Passes

/-- A party, with what it is started with. -/
inductive Party
  | poll (cfg : PollConfig)
  | register (cfg : PollConfig) (approver key revision : Text)
  | switchOff (ttlS : ℚ)

def Party.program (p : Party) : Step Unit :=
  match p with
  | .poll cfg => do
    let _ ← pollRepository desk holder cfg
    pure ()
  | .register cfg approver key revision => registerApproved desk holder cfg approver key revision
  | .switchOff ttlS => IntakePasses.switchOff holder ttlS

end CommitReplay.IntakePasses
