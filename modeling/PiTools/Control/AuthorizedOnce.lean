import PiTools.Control.Handler
import PiTools.Library.Ledger

/-
This file shows that a control changes a job only for an authorized sender, and
at most once for each delivery.
-/

namespace PiTools

open Library

variable {fromYaml : String → Except String (List String)} {start system next finish : ControlSystem}
  {action : HandlerAction} {actions : List HandlerAction}

/-! ### The ledger of the controls -/

/-- The key under which the handler still has to carry out its control. -/
def ControlHandler.claimed (handler : ControlHandler) : Option (Uuid × String) :=
  match handler.phase with
  | .applying _ context _ => some (context.jobId, handler.delivery.deliveryId)
  | _ => none

/-- The number of the handlers that still have to carry out a control under the key. -/
def pendingClaims (handlers : List ControlHandler) (key : Uuid × String) : Nat :=
  handlers.countP fun handler => handler.claimed = some key

theorem pendingClaims_singleton (handler : ControlHandler) (key : Uuid × String) :
    pendingClaims [handler] key = if handler.claimed = some key then 1 else 0 := by
  simp [pendingClaims, List.countP_singleton]

def ControlSystem.ledger (system : ControlSystem) : Ledger.State (Uuid × String) where
  taken key := ∃ row ∈ system.controls, row.key = key
  pending key := pendingClaims system.handlers key

/-- An accepted new row claims its key, and a call on the queue performs it. -/
def HandlerAction.ledgerAct : HandlerAction → Ledger.Act (Uuid × String)
  | .record handler true =>
      match handler.phase with
      | .recording _ context (.accepted _) => .claim (context.jobId, handler.delivery.deliveryId)
      | _ => .other
  | .apply handler event =>
      match event.1.target with
      | some jobId => .perform (jobId, handler.delivery.deliveryId)
      | none => .other
  | _ => .other

/-- The delivery makes its call on the job. -/
def HandlerAction.appliesTo (jobId : Uuid) (deliveryId : String) : HandlerAction → Bool
  | .apply handler event =>
      event.1.target = some jobId && handler.delivery.deliveryId = deliveryId
  | _ => false

/-- A call on the job performs the key of the job and the delivery. -/
theorem HandlerAction.ledgerAct_perform (jobId : Uuid) (deliveryId : String) :
    action.ledgerAct = .perform (jobId, deliveryId) ↔ action.appliesTo jobId deliveryId = true := by
  cases action with
  | record handler inserted =>
      cases inserted with
      | false => simp [ledgerAct, appliesTo]
      | true =>
          simp only [ledgerAct, appliesTo, Bool.false_eq_true, iff_false]
          split <;> simp
  | apply handler event =>
      simp only [ledgerAct, appliesTo]
      split
      · rename_i named
        simp [named]
      · rename_i unnamed
        simp [unnamed]
  | receive | look | audit | abort | call | register => simp [ledgerAct, appliesTo]

/-- A handler that stops or claims nothing adds no claim. -/
theorem pendingClaims_replaced {handlers handlers' replacement : List ControlHandler}
    {handler : ControlHandler} (replaced : Replaces handlers handler replacement handlers')
    (silent : ∀ other ∈ replacement, other.claimed = none) (key : Uuid × String) :
    pendingClaims handlers' key + pendingClaims [handler] key = pendingClaims handlers key := by
  have counted : pendingClaims handlers' key + pendingClaims [handler] key =
      pendingClaims handlers key + pendingClaims replacement key := replaced.countP _
  have none : pendingClaims replacement key = 0 := by
    rw [pendingClaims, List.countP_eq_zero]
    intro other member
    simp [silent other member]
  omega

theorem lookedPhase_claims_nothing (handler : ControlHandler) (context : Option ControlContext) :
    (handler.at (lookedPhase fromYaml handler.delivery context)).claimed = none := by
  simp only [ControlHandler.at, lookedPhase, ControlHandler.claimed]
  split
  · rename_i same
    split at same
    · cases same
    · cases same
    · split at same
      · cases same
      · split at same <;> cases same
  · rfl

/-- A recorded decision claims its key in the ledger exactly when the handler goes on to the call. -/
theorem ledgerAct_record {handler : ControlHandler} {control : CheckRunControl}
    {context : ControlContext} {decision : ControlDecision}
    (phase : handler.phase = .recording control context decision) (inserted : Bool) :
    (HandlerAction.record handler inserted).ledgerAct =
      match (handler.at (recordedPhase control context decision inserted)).claimed with
      | some key => .claim key
      | none => .other := by
  cases inserted with
  | false => cases decision <;> rfl
  | true =>
      rw [HandlerAction.ledgerAct, phase]
      cases decision <;> rfl

/-- Only an accepted control with a new row claims its key. -/
theorem recordedPhase_claimed {handler : ControlHandler} {control : CheckRunControl}
    {context : ControlContext} {decision : ControlDecision} {inserted : Bool} {key : Uuid × String}
    (claimed : (handler.at (recordedPhase control context decision inserted)).claimed = some key) :
    inserted = true ∧ (∃ action, decision = .accepted action) ∧
      key = (context.jobId, handler.delivery.deliveryId) := by
  cases decision with
  | accepted action =>
      cases inserted with
      | true => exact ⟨rfl, ⟨action, rfl⟩, (Option.some.inj claimed).symm⟩
      | false => cases claimed
  | rejectedContext | rejectedUnknown | rejectedUnauthorized => cases claimed

/-- The rows of the controls and the claims of the handlers are a ledger. -/
theorem ControlSystem.Step.ledger (step : system.Step fromYaml action next) :
    Ledger.Step system.ledger action.ledgerAct next.ledger := by
  cases step with
  | receive delivery =>
      refine .other ⟨fun _ taken => taken, fun key => ?_⟩
      simp [ControlSystem.ledger, pendingClaims, ControlHandler.claimed]
  | look handler phase replaced =>
      refine .other ⟨fun _ taken => taken, fun key => ?_⟩
      have counted := pendingClaims_replaced replaced
        (by simpa using lookedPhase_claims_nothing handler _) key
      exact Nat.le.intro counted
  | @record handlers handler control context decision phase replaced =>
      have idle : handler.claimed = none := by rw [ControlHandler.claimed, phase]
      have counted (key : Uuid × String) : pendingClaims handlers key + pendingClaims [handler] key =
          pendingClaims system.handlers key +
            pendingClaims [handler.at (recordedPhase control context decision _)] key :=
        replaced.countP _
      simp only [pendingClaims_singleton, idle, reduceCtorEq, if_false, Nat.add_zero] at counted
      have grows (row : ControlRow) (key : Uuid × String) (taken : system.ledger.taken key) :
          ∃ other ∈ (recordJobControl system.controls row).1, other.key = key := by
        obtain ⟨other, member, same⟩ := taken
        exact ⟨other, recordJobControl_subset member, same⟩
      rw [ledgerAct_record phase]
      split
      · rename_i key claims
        obtain ⟨inserted, _, rfl⟩ := recordedPhase_claimed claims
        obtain ⟨vacant, stored⟩ := recordJobControl_inserted inserted
        refine .claim _ (fun ⟨row, member, same⟩ => vacant row member same) ⟨_, stored, rfl⟩
          (grows _) (fun other differs => ?_) ?_
        · have elsewhere := counted other
          rw [claims, if_neg (by simpa using differs.symm)] at elsewhere
          exact elsewhere.le
        · have here := counted (context.jobId, handler.delivery.deliveryId)
          rw [if_pos claims] at here
          exact here.le
      · rename_i free
        refine .other ⟨grows _, fun key => ?_⟩
        have same := counted key
        rw [free, if_neg (by simp)] at same
        exact same.le
  | apply handler control context action changed phase called replaced =>
      rw [HandlerAction.ledgerAct, action.op_target]
      have counted := pendingClaims_replaced replaced (by simp [ControlHandler.at, ControlHandler.claimed])
      refine .perform _ ⟨fun _ taken => taken, fun key => Nat.le.intro (counted key)⟩ ?_
      have mine : handler.claimed = some (context.jobId, handler.delivery.deliveryId) := by
        rw [ControlHandler.claimed, phase]
      have released := counted (context.jobId, handler.delivery.deliveryId)
      rw [pendingClaims_singleton, if_pos mine] at released
      exact Nat.lt_of_succ_le released.le
  | audit handler control context action changed phase replaced =>
      refine .other ⟨fun _ taken => taken, fun key => ?_⟩
      have counted := pendingClaims_replaced replaced
        (by simp [ControlHandler.at, ControlHandler.claimed]) key
      exact Nat.le.intro counted
  | abort handler replaced =>
      refine .other ⟨fun _ taken => taken, fun key => ?_⟩
      exact Nat.le.intro (pendingClaims_replaced replaced (by simp) key)
  | call | register => exact .other ⟨fun _ taken => taken, fun _ => Nat.le_refl _⟩

/-- One delivery makes at most one call on a job. -/
theorem applied_once (initial : start.Initial)
    (run : Run (ControlSystem.Step fromYaml) start actions finish) (jobId : Uuid)
    (deliveryId : String) : actions.countP (HandlerAction.appliesTo jobId deliveryId) ≤ 1 := by
  have ledger := run.map ControlSystem.ledger HandlerAction.ledgerAct
    fun _ _ _ _ _ step => step.ledger
  have idle (key : Uuid × String) : start.ledger.pending key = 0 := by
    simp [ControlSystem.ledger, pendingClaims, initial.handlers]
  have once := (Ledger.performed_once ledger idle (jobId, deliveryId)).1
  rw [List.count_eq_countP, List.countP_map] at once
  have same : (fun act => act == .perform (jobId, deliveryId)) ∘ HandlerAction.ledgerAct =
      HandlerAction.appliesTo jobId deliveryId := by
    funext action
    rw [Function.comp_apply, Bool.eq_iff_iff, beq_iff_eq, HandlerAction.ledgerAct_perform]
  rw [same] at once
  omega

/-! ### What a handler knows -/

/-- The decision that the handler still carries. -/
def ControlPhase.decided :
    ControlPhase → Option (CheckRunControl × ControlContext × ControlDecision)
  | .recording control context decision => some (control, context, decision)
  | .applying control context action | .auditing control context action _ =>
      some (control, context, .accepted action)
  | .received | .finished _ => none

/-- The handler has made no call on the queue. -/
def ControlPhase.idle : ControlPhase → Bool
  | .auditing .. | .finished (.ok .applied) | .finished (.ok .runNotActive) => false
  | _ => true

/-- A carried decision was taken on the context that the same handler found. -/
structure Grounded (fromYaml : String → Except String (List String)) (actions : List HandlerAction)
    (db : Database) (handler : ControlHandler) (control : CheckRunControl)
    (context : ControlContext) (decision : ControlDecision) : Prop where
  read : handler.delivery.checkRunControl = .ok (some control)
  decided : decideControl fromYaml handler.delivery control context = .ok decision
  looked : ∃ looking, .look looking (some context) ∈ actions ∧ looking.number = handler.number ∧
    looking.delivery = handler.delivery
  job : ∃ job ∈ db.jobs, job.id = context.jobId ∧ job.repositoryId = context.repositoryId ∧
    job.pullRequestNumber = context.pullRequestNumber

/-- What holds of the handlers after every step. -/
structure ControlSystem.Sound (fromYaml : String → Except String (List String))
    (actions : List HandlerAction) (system : ControlSystem) : Prop where
  numbers : (system.handlers.map ControlHandler.number).Nodup
  arrived : ∀ handler ∈ system.handlers, handler.number < system.arrivals
  applied : ∀ handler event, .apply handler event ∈ actions → handler.number < system.arrivals
  grounded : ∀ handler ∈ system.handlers, ∀ control context decision,
    handler.phase.decided = some (control, context, decision) →
      Grounded fromYaml actions system.db handler control context decision
  quiet : ∀ handler ∈ system.handlers, handler.phase.idle = true → ∀ applying event,
    .apply applying event ∈ actions → applying.number ≠ handler.number

/-- A step adds a handler with a new number, keeps the handlers, or moves or ends one of them. -/
theorem ControlSystem.Step.handlers (step : system.Step fromYaml action next) :
    (∃ delivery, action = .receive delivery ∧ next.arrivals = system.arrivals + 1 ∧
        next.handlers = system.handlers ++ [⟨system.arrivals, delivery, .received⟩]) ∨
      (action.handler = none ∧ next.arrivals = system.arrivals ∧
        next.handlers = system.handlers) ∨
      ∃ handler replacement, action.handler = some handler ∧ next.arrivals = system.arrivals ∧
        Replaces system.handlers handler replacement next.handlers ∧
          (replacement = [] ∨ ∃ phase, replacement = [handler.at phase]) := by
  cases step with
  | receive delivery => exact .inl ⟨delivery, rfl, rfl, rfl⟩
  | look handler phase replaced =>
      exact .inr (.inr ⟨handler, _, rfl, rfl, replaced, .inr ⟨_, rfl⟩⟩)
  | record handler control context decision phase replaced =>
      exact .inr (.inr ⟨handler, _, rfl, rfl, replaced, .inr ⟨_, rfl⟩⟩)
  | apply handler control context action changed phase called replaced =>
      exact .inr (.inr ⟨handler, _, rfl, rfl, replaced, .inr ⟨_, rfl⟩⟩)
  | audit handler control context action changed phase replaced =>
      exact .inr (.inr ⟨handler, _, rfl, rfl, replaced, .inr ⟨_, rfl⟩⟩)
  | abort handler replaced => exact .inr (.inr ⟨handler, [], rfl, rfl, replaced, .inl rfl⟩)
  | call | register => exact .inr (.inl ⟨rfl, rfl, rfl⟩)

/-- A handler that moves keeps its number and its delivery. -/
theorem ControlSystem.Step.numbers (step : system.Step fromYaml action next)
    (sound : system.Sound fromYaml actions) :
    (next.handlers.map ControlHandler.number).Nodup ∧
      ∀ handler ∈ next.handlers, handler.number < next.arrivals := by
  rcases step.handlers with ⟨delivery, _, later, grown⟩ | ⟨_, still, same⟩ |
    ⟨handler, replacement, _, still, replaced, moved⟩
  · rw [grown, later]
    refine ⟨?_, fun handler member => ?_⟩
    · rw [List.map_append, List.nodup_append]
      refine ⟨sound.numbers, by simp, fun number old other new same => ?_⟩
      obtain ⟨handler, member, rfl⟩ := List.mem_map.mp old
      rw [List.map_singleton, List.mem_singleton] at new
      exact (sound.arrived handler member).ne (same.trans new)
    · rcases List.mem_append.mp member with old | new
      · exact (sound.arrived handler old).trans (Nat.lt_succ_self _)
      · rw [List.mem_singleton.mp new]
        exact Nat.lt_succ_self _
  · rw [same, still]
    exact ⟨sound.numbers, sound.arrived⟩
  · rw [still]
    refine ⟨?_, fun other member => ?_⟩
    · rcases moved with rfl | ⟨phase, rfl⟩
      · obtain ⟨front, back, before, after⟩ := replaced
        rw [after, List.append_nil]
        have shorter : (front ++ back).Sublist system.handlers := by
          rw [before]
          exact (List.Sublist.refl front).append (List.sublist_cons_self handler back)
        exact sound.numbers.sublist (shorter.map _)
      · rw [replaced.map_key ControlHandler.number rfl]
        exact sound.numbers
    · rcases replaced.mem member with old | new
      · exact sound.arrived other old
      · rcases moved with rfl | ⟨phase, rfl⟩
        · cases new
        · rw [List.mem_singleton.mp new]
          exact sound.arrived handler replaced.old

/-- Every call on the queue has the number of a delivery that arrived. -/
theorem ControlSystem.Step.applied (step : system.Step fromYaml action next)
    (sound : system.Sound fromYaml actions) (handler : ControlHandler) (event : Event)
    (member : .apply handler event ∈ actions ++ [action]) : handler.number < next.arrivals := by
  have later : system.arrivals ≤ next.arrivals := by
    rcases step.handlers with ⟨_, _, later, _⟩ | ⟨_, still, _⟩ | ⟨_, _, _, still, _⟩ <;> omega
  rcases List.mem_append.mp member with old | new
  · exact (sound.applied handler event old).trans_le later
  · obtain rfl := List.mem_singleton.mp new
    rcases step.handlers with ⟨_, named, _⟩ | ⟨named, _⟩ | ⟨acting, _, named, _, replaced, _⟩
    · cases named
    · cases named
    · cases named
      exact (sound.arrived handler replaced.old).trans_le later

/-- A handler without a call is new or was without one before, and the step is not its call. -/
theorem ControlSystem.Step.idle (step : system.Step fromYaml action next)
    (sound : system.Sound fromYaml actions) {handler : ControlHandler}
    (member : handler ∈ next.handlers) (idle : handler.phase.idle = true) :
    (∀ applying event, action = .apply applying event → applying.number ≠ handler.number) ∧
      (handler.number = system.arrivals ∨
        ∃ old ∈ system.handlers, old.number = handler.number ∧ old.phase.idle = true) := by
  cases step with
  | receive delivery =>
      refine ⟨by simp, ?_⟩
      rcases List.mem_append.mp member with old | new
      · exact .inr ⟨handler, old, rfl, idle⟩
      · rw [List.mem_singleton.mp new]
        exact .inl rfl
  | look acting phase replaced =>
      refine ⟨by simp, .inr ?_⟩
      rcases replaced.mem member with old | new
      · exact ⟨handler, old, rfl, idle⟩
      · rw [List.mem_singleton.mp new]
        exact ⟨acting, replaced.old, rfl, by rw [phase]; rfl⟩
  | record acting control context decision phase replaced =>
      refine ⟨by simp, .inr ?_⟩
      rcases replaced.mem member with old | new
      · exact ⟨handler, old, rfl, idle⟩
      · rw [List.mem_singleton.mp new]
        exact ⟨acting, replaced.old, rfl, by rw [phase]; rfl⟩
  | apply acting control context known changed phase called replaced =>
      rcases replaced.mem_other ControlHandler.number sound.numbers member with ⟨old, other⟩ | new
      · refine ⟨fun applying event same => ?_, .inr ⟨handler, old, rfl, idle⟩⟩
        cases same
        exact other.symm
      · rw [List.mem_singleton.mp new] at idle
        cases idle
  | audit acting control context known changed phase replaced =>
      refine ⟨by simp, .inr ?_⟩
      rcases replaced.mem member with old | new
      · exact ⟨handler, old, rfl, idle⟩
      · rw [List.mem_singleton.mp new] at idle
        cases changed <;> cases idle
  | abort acting replaced =>
      refine ⟨by simp, .inr ?_⟩
      rcases replaced.mem member with old | new
      · exact ⟨handler, old, rfl, idle⟩
      · cases new
  | call | register => exact ⟨by simp, .inr ⟨handler, member, rfl, idle⟩⟩

/-- The first decision is the one on the context that was found. -/
theorem lookedPhase_decided {delivery : WebhookEnvelope} {found : Option ControlContext}
    {control : CheckRunControl} {context : ControlContext} {decision : ControlDecision}
    (decided : (lookedPhase fromYaml delivery found).decided = some (control, context, decision)) :
    delivery.checkRunControl = .ok (some control) ∧ found = some context ∧
      decideControl fromYaml delivery control context = .ok decision := by
  unfold lookedPhase at decided
  split at decided
  · cases decided
  · cases decided
  · rename_i read
    split at decided
    · cases decided
    · split at decided
      · cases decided
      · rename_i chosen
        cases decided
        exact ⟨read, rfl, chosen⟩

/-- A recorded decision stays the decision of its handler until it is carried out. -/
theorem recordedPhase_decided {control control' : CheckRunControl} {context context' : ControlContext}
    {decision decision' : ControlDecision} {inserted : Bool}
    (decided : (recordedPhase control context decision inserted).decided =
      some (control', context', decision')) : (control', context', decision') =
        (control, context, decision) := by
  cases decision with
  | accepted action =>
      cases inserted with
      | true => exact (Option.some.inj decided).symm
      | false => cases decided
  | rejectedContext | rejectedUnknown | rejectedUnauthorized => cases decided

/-- A decision is as old as the step before, or the step looked its context up. -/
theorem ControlSystem.Step.decided (step : system.Step fromYaml action next)
    {handler : ControlHandler} (member : handler ∈ next.handlers) {control : CheckRunControl}
    {context : ControlContext} {decision : ControlDecision}
    (decided : handler.phase.decided = some (control, context, decision)) :
    ∃ old ∈ system.handlers, old.number = handler.number ∧ old.delivery = handler.delivery ∧
      (old.phase.decided = some (control, context, decision) ∨
        (action = .look old (some context) ∧
          old.delivery.checkRunControl = .ok (some control) ∧
          controlContext system.db system.registry control.checkRunId = some context ∧
          decideControl fromYaml old.delivery control context = .ok decision)) := by
  cases step with
  | receive delivery =>
      rcases List.mem_append.mp member with old | new
      · exact ⟨handler, old, rfl, rfl, .inl decided⟩
      · rw [List.mem_singleton.mp new] at decided
        cases decided
  | look acting phase replaced =>
      rcases replaced.mem member with old | new
      · exact ⟨handler, old, rfl, rfl, .inl decided⟩
      · rw [List.mem_singleton.mp new] at decided ⊢
        obtain ⟨read, found, chosen⟩ := lookedPhase_decided decided
        refine ⟨acting, replaced.old, rfl, rfl, .inr ⟨by rw [found], read, ?_, chosen⟩⟩
        rwa [WebhookEnvelope.storedContext, read] at found
  | record acting control' context' decision' phase replaced =>
      rcases replaced.mem member with old | new
      · exact ⟨handler, old, rfl, rfl, .inl decided⟩
      · rw [List.mem_singleton.mp new] at decided ⊢
        refine ⟨acting, replaced.old, rfl, rfl, .inl ?_⟩
        rw [phase, recordedPhase_decided decided]
        rfl
  | apply acting control' context' known changed phase called replaced =>
      rcases replaced.mem member with old | new
      · exact ⟨handler, old, rfl, rfl, .inl decided⟩
      · rw [List.mem_singleton.mp new] at decided ⊢
        refine ⟨acting, replaced.old, rfl, rfl, .inl ?_⟩
        rw [phase]
        exact decided
  | audit acting control' context' known changed phase replaced =>
      rcases replaced.mem member with old | new
      · exact ⟨handler, old, rfl, rfl, .inl decided⟩
      · rw [List.mem_singleton.mp new] at decided
        cases decided
  | abort acting replaced =>
      rcases replaced.mem member with old | new
      · exact ⟨handler, old, rfl, rfl, .inl decided⟩
      · cases new
  | call | register => exact ⟨handler, member, rfl, rfl, .inl decided⟩

/-- The job of a context keeps its row. -/
theorem ControlSystem.Step.keeps_job (step : system.Step fromYaml action next)
    (constrained : Constrained system.db.jobs) {job : Job} (member : job ∈ system.db.jobs) :
    ∃ job' ∈ next.db.jobs, job'.id = job.id ∧ job'.repositoryId = job.repositoryId ∧
      job'.pullRequestNumber = job.pullRequestNumber := by
  rcases step.event with ⟨_, same⟩ | ⟨event, _, called⟩
  · exact ⟨job, same ▸ member, rfl, rfl, rfl⟩
  · obtain ⟨job', member', _, move, _⟩ := (step_effect constrained called).1.successor member
    obtain ⟨id, key, _⟩ := move.identity
    rw [Job.deduplicationKey, Job.deduplicationKey, JobDeduplicationKey.mk.injEq] at key
    exact ⟨job', member', id, key.1, key.2.1⟩

/-- Every step keeps what holds of the handlers. -/
theorem ControlSystem.Step.sound (step : system.Step fromYaml action next)
    (constrained : Constrained system.db.jobs) (sound : system.Sound fromYaml actions) :
    next.Sound fromYaml (actions ++ [action]) where
  numbers := (step.numbers sound).1
  arrived := (step.numbers sound).2
  applied := step.applied sound
  grounded handler member control context decision decided := by
    obtain ⟨old, inside, number, delivery, carried | ⟨looked, read, found, chosen⟩⟩ :=
      step.decided member decided
    · obtain ⟨read, chosen, ⟨looking, past, mine, sameDelivery⟩, job, present, id, repository,
        pullRequest⟩ := sound.grounded old inside control context decision carried
      obtain ⟨job', present', sameId, sameRepository, sameNumber⟩ :=
        step.keeps_job constrained present
      exact ⟨delivery ▸ read, delivery ▸ chosen,
        ⟨looking, List.mem_append_left _ past, mine.trans number, sameDelivery.trans delivery⟩,
        job', present', sameId.trans id, sameRepository.trans repository,
        sameNumber.trans pullRequest⟩
    · obtain ⟨job, present, id, repository, pullRequest⟩ := controlContext_job found
      obtain ⟨job', present', sameId, sameRepository, sameNumber⟩ :=
        step.keeps_job constrained present
      exact ⟨delivery ▸ read, delivery ▸ chosen,
        ⟨old, by simp [looked], number, delivery⟩,
        job', present', sameId.trans id, sameRepository.trans repository,
        sameNumber.trans pullRequest⟩
  quiet handler member idle applying event past := by
    obtain ⟨elsewhere, origin⟩ := step.idle sound member idle
    rcases List.mem_append.mp past with earlier | last
    · rcases origin with fresh | ⟨old, inside, number, wasIdle⟩
      · rw [fresh]
        exact (sound.applied applying event earlier).ne
      · rw [← number]
        exact sound.quiet old inside wasIdle applying event earlier
    · exact elsewhere applying event (List.mem_singleton.mp last).symm

theorem run_controlSound (initial : start.Initial)
    (run : Run (ControlSystem.Step fromYaml) start actions finish) :
    finish.Sound fromYaml actions := by
  refine run.history (ControlSystem.Sound fromYaml) ?_
    fun past before action after earlier sound step => ?_
  · exact ⟨by simp [initial.handlers], by simp [initial.handlers], by simp,
      by simp [initial.handlers], by simp [initial.handlers]⟩
  · exact step.sound (run_constrained initial.jobs (run_controlEvents earlier)) sound

/-! ### The main result -/

/-- The delivery belongs to the job, and its sender is the author or a maintainer of the policy. -/
structure AuthorizedFor (fromYaml : String → Except String (List String))
    (delivery : WebhookEnvelope) (control : CheckRunControl) (context : ControlContext)
    (job : Job) : Prop where
  read : delivery.checkRunControl = .ok (some control)
  target : context.jobId = job.id
  repository : delivery.repositoryId = some job.repositoryId
  pullRequest : delivery.pullRequestNumber = some job.pullRequestNumber
  named : control.actorLogin ≠ ""
  permitted : eqIgnoreAsciiCase control.actorLogin context.prAuthor = true ∨
    ∃ maintainers, policyMaintainers fromYaml context.policyYaml = .ok maintainers ∧
      ∃ maintainer ∈ maintainers, eqIgnoreAsciiCase control.actorLogin maintainer = true

/-- Before the step, the handler found the stored context of its Check Run. -/
def FoundBefore (fromYaml : String → Except String (List String)) (start : ControlSystem)
    (past : List HandlerAction) (handler : ControlHandler) (control : CheckRunControl)
    (context : ControlContext) : Prop :=
  ∃ earlier looking later moment, past = earlier ++ .look looking (some context) :: later ∧
    looking.number = handler.number ∧ Run (ControlSystem.Step fromYaml) start earlier moment ∧
      controlContext moment.db moment.registry control.checkRunId = some context

/-- Deliveries change jobs only by an authorized known action, at most once each, and never
when they are refused. -/
structure ControlsOnce (fromYaml : String → Except String (List String)) (start : ControlSystem)
    (actions : List HandlerAction) (finish : ControlSystem) : Prop where
  authorized : ∀ past action future before after handler, actions = past ++ action :: future →
    Run (ControlSystem.Step fromYaml) start past before → before.Step fromYaml action after →
      action.handler = some handler →
        List.Forall₂ (fun job job' => job'.id = job.id ∧ (job' ≠ job → ∃ control context known value,
            action = .apply handler (known.op job.id, .changed value) ∧
              ControlAction.parse control.action = .ok known ∧
              FoundBefore fromYaml start past handler control context ∧
              AuthorizedFor fromYaml handler.delivery control context job))
          before.db.jobs after.db.jobs
  once : ∀ jobId deliveryId, actions.countP (HandlerAction.appliesTo jobId deliveryId) ≤ 1
  unchanged : ∀ handler ∈ finish.handlers, ∀ result, handler.phase = .finished result →
    result ≠ .ok .applied → result ≠ .ok .runNotActive →
      ∀ past action future before after acting, actions = past ++ action :: future →
        Run (ControlSystem.Step fromYaml) start past before → before.Step fromYaml action after →
          action.handler = some acting → acting.number = handler.number → after.db = before.db

/-- A handler changes the database only by its call. -/
theorem ControlSystem.Step.applies (step : system.Step fromYaml action next)
    {handler : ControlHandler} (acts : action.handler = some handler) :
    next.db = system.db ∨ ∃ control context known value,
      handler ∈ system.handlers ∧ handler.phase = .applying control context known ∧
        action = .apply handler (known.op context.jobId, .changed value) ∧
          system.db.Step (known.op context.jobId, .changed value) next.db := by
  cases step with
  | apply acting control context known changed phase called replaced =>
      cases acts
      exact .inr ⟨control, context, known, changed, replaced.old, phase, rfl, called⟩
  | look | record | audit | abort => exact .inl rfl
  | receive | call | register => cases acts

theorem context_found (run : Run (ControlSystem.Step fromYaml) start actions system)
    {handler : ControlHandler} {control : CheckRunControl} {context : ControlContext}
    {decision : ControlDecision}
    (grounded : Grounded fromYaml actions system.db handler control context decision) :
    FoundBefore fromYaml start actions handler control context := by
  obtain ⟨looking, looked, number, delivery⟩ := grounded.looked
  obtain ⟨earlier, later, moment, after, split, before, step, _⟩ := run.step_of_mem looked
  refine ⟨earlier, looking, later, moment, split, number, before, ?_⟩
  have found : looking.delivery.storedContext moment.db moment.registry = some context := by
    generalize same : HandlerAction.look looking (some context) = label at step
    cases step with
    | look => 
        simp only [HandlerAction.look.injEq] at same
        rw [same.1, ← same.2]
    | receive | record | apply | audit | abort | call | register => cases same
  rwa [WebhookEnvelope.storedContext, delivery, grounded.read] at found

/-- The row that a call changes is the job of an authorized delivery. -/
theorem authorized_rows (initial : start.Initial)
    (run : Run (ControlSystem.Step fromYaml) start actions system)
    (step : system.Step fromYaml action next) {handler : ControlHandler}
    (acts : action.handler = some handler) :
    List.Forall₂ (fun job job' => job'.id = job.id ∧ (job' ≠ job → ∃ control context known value,
        action = .apply handler (known.op job.id, .changed value) ∧
          ControlAction.parse control.action = .ok known ∧
          FoundBefore fromYaml start actions handler control context ∧
          AuthorizedFor fromYaml handler.delivery control context job))
      system.db.jobs next.db.jobs := by
  rcases step.applies acts with same | ⟨control, context, known, value, inside, phase, rfl, called⟩
  · rw [same]
    exact List.forall₂_same.mpr fun job _ => ⟨rfl, fun changed => absurd rfl changed⟩
  · have constrained := run_constrained initial.jobs (run_controlEvents run)
    have grounded := (run_controlSound initial run).grounded handler inside control context
      (.accepted known) (by rw [phase]; rfl)
    obtain ⟨matching, parsed, maintainers, policy, authorized⟩ :=
      decideControl_accepted grounded.decided
    simp only [controlDeliveryMatchesContext, Bool.and_eq_true, decide_eq_true_eq] at matching
    obtain ⟨named, permitted⟩ := isAuthorized_spec authorized
    obtain ⟨target, present, id, repository, pullRequest⟩ := grounded.job
    refine (forall₂_members (target_rows constrained (known.op_target _) called)).imp ?_
    rintro job job' ⟨member, sameId, changes⟩
    refine ⟨sameId, fun changed => ?_⟩
    have chosen := changes changed
    -- An id names one row, so the changed row is the job of the context.
    obtain rfl := row_unique Job.id constrained.ids member present (chosen.trans id.symm)
    refine ⟨control, context, known, value, by rw [id], parsed, context_found run grounded,
      grounded.read, id.symm, repository ▸ matching.1, pullRequest ▸ matching.2, named, ?_⟩
    exact permitted.imp_right fun maintainer => ⟨maintainers, policy, maintainer⟩

/-- Controls are authorized and applied at most once in every run. -/
theorem controls_once (initial : start.Initial)
    (run : Run (ControlSystem.Step fromYaml) start actions finish) :
    ControlsOnce fromYaml start actions finish where
  authorized past action future before after handler split earlier step acts :=
    authorized_rows initial earlier step acts
  once := applied_once initial run
  unchanged handler member result phase notApplied notActive past action future before after acting
      split earlier step acts number := by
    have idle : handler.phase.idle = true := by
      rw [phase]
      match result with
      | .ok .applied => exact absurd rfl notApplied
      | .ok .runNotActive => exact absurd rfl notActive
      | .error _ | .ok .notAControlEvent | .ok .unknownCheckRun | .ok .rejectedContext
      | .ok .rejectedUnknown | .ok .rejectedUnauthorized | .ok .duplicate => rfl
    rcases step.applies acts with same | ⟨_, context, known, value, _, _, rfl, _⟩
    · exact same
    · have made : .apply acting (known.op context.jobId, .changed value) ∈ actions := by
        rw [split]
        exact List.mem_append_right _ (.head _)
      exact absurd number ((run_controlSound initial run).quiet handler member idle acting _ made)

/-! ### A cancelled run -/

def onePullRequest : PullRequestRecord where
  repositoryId := 1
  githubId := 70
  number := 7
  title := "Change"
  url := "https://github.com/o/r/pull/7"
  state := .open
  draft := false
  merged := false
  headSha := "head"
  baseSha := "base"
  headBranch := "change"
  baseBranch := "main"
  authorLogin := "author"
  updatedAt := 0
  watched := true

def oneRepository : Registry where
  installations := [⟨1, "o", "Organization", false⟩]
  repositories := [⟨1, 1, "o", "r", "main", true, ""⟩]
  pullRequests := [onePullRequest]

def controlOps : List Op :=
  [.upsertRepository 1 1, .enqueue ⟨1, 7, .ciRepair, .object []⟩ 4,
    .linkJobCheckRun 4 100 "url" none]

def controlled (count : Nat) : ControlSystem :=
  ⟨(replay (controlOps.take count) (.empty 0)).2, oneRepository, [], [], [], 0⟩

/-- The author asks to cancel the run behind the Check Run. -/
def cancelDelivery : WebhookEnvelope where
  deliveryId := "delivery"
  rawBody := []
  eventName := "check_run"
  action := some "requested_action"
  installationId := some 1
  repositoryId := some 1
  pullRequestNumber := some 7
  payload := .object [("check_run", .object [("id", .ofInt 100)]),
    ("requested_action", .object [("identifier", .string "cancel-run")]),
    ("sender", .object [("login", .string "Author")])]

def cancelControl : CheckRunControl := ⟨100, "cancel-run", "Author"⟩

def cancelContext : ControlContext := ⟨4, 1, 7, "author", ""⟩

def cancelHandler (phase : ControlPhase) : ControlHandler := ⟨0, cancelDelivery, phase⟩

def cancelActions : List HandlerAction :=
  [.call (.upsertRepository 1 1, .done),
    .call (.enqueue ⟨1, 7, .ciRepair, .object []⟩ 4, .job 4),
    .call (.linkJobCheckRun 4 100 "url" none, .done),
    .receive cancelDelivery,
    .look (cancelHandler .received) (some cancelContext),
    .record (cancelHandler (.recording cancelControl cancelContext (.accepted .cancelRun))) true,
    .apply (cancelHandler (.applying cancelControl cancelContext .cancelRun))
      (.requestCancel 4, .changed true)]

def cancelRow : ControlRow := ⟨4, "delivery", "cancel-run", "Author", none, "accepted"⟩

def cancelled : ControlSystem where
  db := (perform (.requestCancel 4) (controlled 3).db).1
  registry := oneRepository
  controls := [cancelRow]
  audits := []
  handlers := [cancelHandler (.auditing cancelControl cancelContext .cancelRun true)]
  arrivals := 1

theorem cancelled_run (fromYaml : String → Except String (List String)) :
    Run (ControlSystem.Step fromYaml) (controlled 0) cancelActions cancelled := by
  refine Run.cons (show (controlled 0).Step _ _ (controlled 1) from .call _ rfl) ?_
  refine Run.cons (show (controlled 1).Step _ _ (controlled 2) from .call _ rfl) ?_
  refine Run.cons (show (controlled 2).Step _ _ (controlled 3) from .call _ rfl) ?_
  refine Run.cons (.receive cancelDelivery) ?_
  refine Run.cons (.look (cancelHandler .received) rfl ⟨[], [], rfl, rfl⟩) ?_
  refine Run.cons (.record _ cancelControl cancelContext (.accepted .cancelRun) rfl
    ⟨[], [], rfl, rfl⟩) ?_
  exact .single (.apply _ cancelControl cancelContext .cancelRun true rfl rfl ⟨[], [], rfl, rfl⟩)

theorem controls_once_cancelled :
    ControlsOnce (fun _ => .ok []) (controlled 0) cancelActions cancelled :=
  controls_once ⟨rfl, rfl⟩ (cancelled_run _)

end PiTools
