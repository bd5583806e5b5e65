import PiTools.Delivery.Statements
import PiTools.Library.Runs

/-
This file interleaves any number of attempts to process deliveries and counts
the effects that they commit.
-/

namespace PiTools

open Library

structure DeliverySystem where
  store : DeliveryStore
  attempts : List Attempt

inductive DeliveryAction
  | arrive (delivery : DeliveryEnvelope)
  | attempt (attempt : Attempt) (applied : Except String Unit)
  | abort (attempt : Attempt)
  | wait (elapsed : Nat)

section Steps

variable (sha256Hex : List UInt8 → String)

/-- The next statement of any attempt runs, and any attempt may end between two statements. -/
inductive DeliverySystem.Step (system : DeliverySystem) : DeliveryAction → DeliverySystem → Prop
  | arrive (delivery : DeliveryEnvelope) :
      system.Step (.arrive delivery)
        { system with attempts := system.attempts ++ [⟨delivery, .inserting⟩] }
  | attempt {attempts : List Attempt} (attempt : Attempt) (applied : Except String Unit)
      (next : Replaces system.attempts attempt
        [{ attempt with phase := (attempt.advance sha256Hex system.store applied).2 }] attempts) :
      system.Step (.attempt attempt applied)
        ⟨(attempt.advance sha256Hex system.store applied).1, attempts⟩
  | abort {attempts : List Attempt} (attempt : Attempt)
      (next : Replaces system.attempts attempt [] attempts) :
      system.Step (.abort attempt) { system with attempts }
  | wait (elapsed : Nat) :
      system.Step (.wait elapsed)
        { system with store := { system.store with now := system.store.now + elapsed } }

/-- An error is marked only while the delivery is unprocessed. -/
def MarksUnprocessed (system : DeliverySystem) : DeliveryAction → Prop
  | .attempt attempt _ => ∀ message, attempt.phase = .marking message →
      system.store.processed attempt.delivery.deliveryId = false
  | _ => True

/-- Effects are committed once, stay recorded and belong to the recorded hash. -/
structure ExactlyOnce (start : DeliverySystem) (actions : List DeliveryAction)
    (finish : DeliverySystem) : Prop where
  once : ∀ deliveryId,
    finish.store.applied.countP (fun delivery => delivery.deliveryId = deliveryId) ≤ 1
  kept : ∀ past between future before after, actions = past ++ between ++ future →
    Run (DeliverySystem.Step sha256Hex) start past before →
    Run (DeliverySystem.Step sha256Hex) before between after → ∀ deliveryId,
      before.store.processed deliveryId = true → after.store.processed deliveryId = true
  matching : ∀ delivery ∈ finish.store.applied, ∃ row,
    finish.store.rows delivery.deliveryId = some row ∧
      row.payloadHash = delivery.payloadHash sha256Hex

end Steps

/-- The system starts without deliveries and without attempts. -/
structure DeliverySystem.Initial (system : DeliverySystem) : Prop where
  rows : ∀ deliveryId, system.store.rows deliveryId = none
  applied : system.store.applied = []
  attempts : system.attempts = []

variable {sha256Hex : List UInt8 → String} {start system next finish : DeliverySystem}
  {actions past : List DeliveryAction} {attempt : Attempt} {store store' : DeliveryStore}

/-! ### One statement -/

/-- The recorded hash of a delivery never changes. -/
theorem StoreMove.keepsHash (move : StoreMove sha256Hex attempt store store') {deliveryId : String}
    {row : DeliveryRow} (found : store.rows deliveryId = some row) :
    ∃ row', store'.rows deliveryId = some row' ∧ row'.payloadHash = row.payloadHash := by
  cases move with
  | still => exact ⟨row, found, rfl⟩
  | inserted vacant =>
      have other : deliveryId ≠ attempt.delivery.deliveryId := by
        rintro rfl
        rw [vacant] at found
        cases found
      exact ⟨row, by simpa [Function.update_of_ne other] using found, rfl⟩
  | committed outcome phase old stored unprocessed =>
      by_cases same : deliveryId = attempt.delivery.deliveryId
      · subst same
        rw [stored] at found
        cases found
        exact ⟨_, Function.update_self .., rfl⟩
      · exact ⟨row, by simpa [Function.update_of_ne same] using found, rfl⟩
  | marked message phase =>
      by_cases same : deliveryId = attempt.delivery.deliveryId
      · subst same
        exact ⟨row.markProcessed store.now (some message), by simp [markDeliveryProcessed, found], rfl⟩
      · exact ⟨row, by simpa [markDeliveryProcessed, Function.update_of_ne same] using found, rfl⟩

/-- A statement that marks no processed delivery keeps every processed delivery. -/
theorem StoreMove.keepsProcessed (move : StoreMove sha256Hex attempt store store')
    (unprocessed : ∀ message, attempt.phase = .marking message →
      store.processed attempt.delivery.deliveryId = false) {deliveryId : String}
    (processed : store.processed deliveryId = true) : store'.processed deliveryId = true := by
  unfold DeliveryStore.processed at processed ⊢
  by_cases same : deliveryId = attempt.delivery.deliveryId
  · subst same
    cases move with
    | still => exact processed
    | inserted vacant => simp [vacant] at processed
    | committed => simp [DeliveryRow.markProcessed]
    | marked message phase =>
        have open_ := unprocessed message phase
        unfold DeliveryStore.processed at open_
        rw [open_] at processed
        cases processed
  · cases move with
    | still => exact processed
    | inserted | committed => simpa [Function.update_of_ne same] using processed
    | marked => simpa [markDeliveryProcessed, Function.update_of_ne same] using processed

/-- The effects of a delivery are committed at most as often as it is processed. -/
def AtMostProcessed (store : DeliveryStore) (deliveryId : String) : Prop :=
  store.applied.countP (fun delivery => delivery.deliveryId = deliveryId) ≤
    (store.processed deliveryId).toNat

theorem StoreMove.atMostProcessed (move : StoreMove sha256Hex attempt store store')
    (unprocessed : ∀ message, attempt.phase = .marking message →
      store.processed attempt.delivery.deliveryId = false) {deliveryId : String}
    (bounded : AtMostProcessed store deliveryId) : AtMostProcessed store' deliveryId := by
  have kept : (store.processed deliveryId).toNat ≤ (store'.processed deliveryId).toNat :=
    Bool.toNat_le_toNat (move.keepsProcessed unprocessed)
  unfold AtMostProcessed at bounded ⊢
  cases move with
  | still | inserted | marked => exact bounded.trans kept
  | committed outcome phase row found vacant =>
      rw [List.countP_append, List.countP_singleton]
      by_cases same : attempt.delivery.deliveryId = deliveryId
      · -- The first commit of the delivery finds it unprocessed.
        subst same
        have before : store.processed attempt.delivery.deliveryId = false := by
          simp [DeliveryStore.processed, found, vacant]
        rw [before] at bounded
        simp only [Bool.toNat_false, Nat.le_zero_eq] at bounded
        rw [bounded]
        simp [DeliveryStore.processed, DeliveryRow.markProcessed]
      · simpa [same] using bounded.trans kept

/-- The transaction finds the recorded hash of its delivery. -/
def Attempt.Recorded (sha256Hex : List UInt8 → String) (store : DeliveryStore)
    (attempt : Attempt) : Prop :=
  ∀ outcome, attempt.phase = .processing outcome → ∃ row,
    store.rows attempt.delivery.deliveryId = some row ∧
      row.payloadHash = attempt.delivery.payloadHash sha256Hex

/-- An attempt reaches its transaction only with the recorded hash. -/
theorem Attempt.advance_recorded (attempt : Attempt) (store : DeliveryStore)
    (applied : Except String Unit) :
    Attempt.Recorded sha256Hex (attempt.advance sha256Hex store applied).1
      { attempt with phase := (attempt.advance sha256Hex store applied).2 } := by
  obtain ⟨delivery, phase⟩ := attempt
  unfold Attempt.Recorded
  intro outcome reached
  cases phase with
  | inserting =>
      cases vacant : store.rows delivery.deliveryId with
      | none =>
          simp only [Attempt.advance, insertDelivery, vacant]
          exact ⟨⟨delivery.payloadHash sha256Hex, none, none⟩, by simp, rfl⟩
      | some row => simp [Attempt.advance, insertDelivery, vacant] at reached
  | comparing =>
      cases found : store.rows delivery.deliveryId with
      | none => simp [Attempt.advance, existingOutcome, found] at reached
      | some row =>
          by_cases same : row.payloadHash = delivery.payloadHash sha256Hex
          · simp only [Attempt.advance, existingOutcome, found, Option.map_some, same, if_true]
            exact ⟨row, rfl, same⟩
          · simp [Attempt.advance, existingOutcome, found, same] at reached
  | processing earlier =>
      simp only [Attempt.advance] at reached
      split at reached <;> cases reached
  | marking message => simp [Attempt.advance] at reached
  | finished result => simp [Attempt.advance] at reached

/-! ### Runs -/

/-- Attempts and committed effects agree with the recorded hashes. -/
structure DeliverySystem.Sound (sha256Hex : List UInt8 → String) (system : DeliverySystem) :
    Prop where
  recorded : ∀ attempt ∈ system.attempts, attempt.Recorded sha256Hex system.store
  matching : ∀ delivery ∈ system.store.applied, ∃ row,
    system.store.rows delivery.deliveryId = some row ∧
      row.payloadHash = delivery.payloadHash sha256Hex

/-- A hash that is recorded for a delivery stays recorded. -/
theorem StoreMove.keepsRecorded (move : StoreMove sha256Hex attempt store store')
    {delivery : DeliveryEnvelope}
    (recorded : ∃ row, store.rows delivery.deliveryId = some row ∧
      row.payloadHash = delivery.payloadHash sha256Hex) :
    ∃ row, store'.rows delivery.deliveryId = some row ∧
      row.payloadHash = delivery.payloadHash sha256Hex := by
  obtain ⟨row, found, same⟩ := recorded
  obtain ⟨row', found', kept⟩ := move.keepsHash found
  exact ⟨row', found', kept.trans same⟩

theorem DeliverySystem.Step.sound {action : DeliveryAction} (sound : system.Sound sha256Hex)
    (step : system.Step sha256Hex action next) : next.Sound sha256Hex := by
  cases step with
  | arrive delivery =>
      refine ⟨fun attempt member => ?_, sound.matching⟩
      rcases List.mem_append.mp member with old | new
      · exact sound.recorded attempt old
      · rw [List.mem_singleton] at new
        subst new
        intro outcome reached
        cases reached
  | abort attempt replaced =>
      refine ⟨fun other member => ?_, sound.matching⟩
      rcases replaced.mem member with stays | gone
      · exact sound.recorded other stays
      · cases gone
  | wait elapsed => exact ⟨sound.recorded, sound.matching⟩
  | attempt attempt applied replaced =>
      have move := attempt.advance_move sha256Hex system.store applied
      refine ⟨fun other member => ?_, fun delivery member => ?_⟩
      · rcases replaced.mem member with stays | moved
        · intro outcome reached
          exact move.keepsRecorded (sound.recorded other stays outcome reached)
        · rw [List.mem_singleton] at moved
          subst moved
          exact attempt.advance_recorded system.store applied
      · apply move.keepsRecorded
        have old : ∀ store', StoreMove sha256Hex attempt system.store store' →
            delivery ∈ store'.applied → ∃ row,
              system.store.rows delivery.deliveryId = some row ∧
                row.payloadHash = delivery.payloadHash sha256Hex := by
          intro store' moved inside
          cases moved with
          | still | inserted | marked => exact sound.matching delivery inside
          | committed outcome phase row found vacant =>
              rcases List.mem_append.mp inside with before | new
              · exact sound.matching delivery before
              · rw [List.mem_singleton] at new
                subst new
                exact sound.recorded attempt replaced.old outcome phase
        exact old _ move member

/-- Every reachable state agrees with the recorded hashes. -/
theorem run_deliveries_sound (initial : start.Initial)
    (run : Run (DeliverySystem.Step sha256Hex) start actions finish) : finish.Sound sha256Hex := by
  refine run.invariant (fun system => system.Sound sha256Hex) ?_ fun _ _ _ sound step => step.sound sound
  exact ⟨by simp [initial.attempts], by simp [initial.applied]⟩

/-- A step that marks no processed delivery keeps every processed delivery. -/
theorem DeliverySystem.Step.keepsProcessed {action : DeliveryAction}
    (step : system.Step sha256Hex action next) (unprocessed : MarksUnprocessed system action)
    {deliveryId : String} (processed : system.store.processed deliveryId = true) :
    next.store.processed deliveryId = true := by
  cases step with
  | arrive | abort | wait => exact processed
  | attempt attempt applied replaced =>
      exact (attempt.advance_move sha256Hex system.store applied).keepsProcessed unprocessed processed

theorem DeliverySystem.Step.atMostProcessed {action : DeliveryAction}
    (step : system.Step sha256Hex action next) (unprocessed : MarksUnprocessed system action)
    {deliveryId : String} (bounded : AtMostProcessed system.store deliveryId) :
    AtMostProcessed next.store deliveryId := by
  cases step with
  | arrive | abort | wait => exact bounded
  | attempt attempt applied replaced =>
      exact (attempt.advance_move sha256Hex system.store applied).atMostProcessed unprocessed bounded

/-- Marking the error of a processed delivery makes it unprocessed again. -/
theorem DeliverySystem.Step.marked {applied : Except String Unit} {message : String}
    (step : system.Step sha256Hex (.attempt attempt applied) next)
    (phase : attempt.phase = .marking message) :
    next.store.processed attempt.delivery.deliveryId = false := by
  cases step with
  | attempt _ _ replaced =>
      unfold DeliveryStore.processed Attempt.advance
      rw [phase]
      cases found : system.store.rows attempt.delivery.deliveryId with
      | none => simp [markDeliveryProcessed, found]
      | some row => simp [markDeliveryProcessed, found, DeliveryRow.markProcessed]

/-- Deliveries are processed exactly once when no error is marked on a processed delivery. -/
theorem process_delivery_exactly_once_iff (initial : start.Initial)
    (run : Run (DeliverySystem.Step sha256Hex) start actions finish) :
    ExactlyOnce sha256Hex start actions finish ↔
      Always (DeliverySystem.Step sha256Hex) MarksUnprocessed start actions := by
  constructor
  · intro exactly past action future before after same earlier step
    cases action with
    | arrive | abort | wait => trivial
    | attempt attempt applied =>
        intro message phase
        by_contra processed
        have kept := exactly.kept past [.attempt attempt applied] future before after
          (by simp [same]) earlier (Run.single step) attempt.delivery.deliveryId
          (by simpa using processed)
        rw [step.marked phase] at kept
        cases kept
  · intro always
    have sound := run_deliveries_sound initial run
    refine ⟨fun deliveryId => ?_, ?_, sound.matching⟩
    · have bounded : AtMostProcessed finish.store deliveryId := by
        refine (run.restrict always).invariant (fun system => AtMostProcessed system.store deliveryId)
          ?_ fun _ _ _ bounded step => step.1.atMostProcessed step.2 bounded
        simp [AtMostProcessed, initial.applied]
      exact bounded.trans (Bool.toNat_le _)
    · intro past between future before after same earlier later deliveryId processed
      have allowed : Always (DeliverySystem.Step sha256Hex) MarksUnprocessed before between := by
        intro inner action rest state state' split run step
        exact always (past ++ inner) action (rest ++ future) state state' (by simp [same, split])
          (earlier.append run) step
      exact (later.restrict allowed).invariant
        (fun system => system.store.processed deliveryId = true) processed
        fun _ _ _ kept step => step.1.keepsProcessed step.2 kept

/-! ### A retry that overtakes the error mark -/

/-- The digest agrees with SHA-256 on the body of the delivery. -/
def pingDigest : List UInt8 → String :=
  fun _ => "44136fa355b3678a1146ad16f7e8649e94fb4fc21fe77e8310c060f61caaff8a"

def ping : DeliveryEnvelope := ⟨"ping", [123, 125]⟩

def pingStart : DeliverySystem := ⟨⟨fun _ => none, [], 0⟩, []⟩

/-- The first attempt fails, and a retry commits before the failure is marked. -/
def pingRetry : List DeliveryAction :=
  [.arrive ping, .attempt ⟨ping, .inserting⟩ (.ok ()),
    .attempt ⟨ping, .processing .inserted⟩ (.error "failed"),
    .arrive ping, .attempt ⟨ping, .inserting⟩ (.ok ()), .attempt ⟨ping, .comparing⟩ (.ok ()),
    .attempt ⟨ping, .processing .duplicate⟩ (.ok ())]

/-- The first attempt marks its failure, and another retry commits again. -/
def pingAgain : List DeliveryAction :=
  [.attempt ⟨ping, .marking "failed"⟩ (.ok ()),
    .arrive ping, .attempt ⟨ping, .inserting⟩ (.ok ()), .attempt ⟨ping, .comparing⟩ (.ok ()),
    .attempt ⟨ping, .processing .duplicate⟩ (.ok ())]

/-- The rows after the given writes to the row of the delivery. -/
def pingRows (writes : List DeliveryRow) : String → Option DeliveryRow :=
  writes.foldl (fun rows row => Function.update rows "ping" (some row)) fun _ => none

def pingRow (processedAt : Option Timestamp) (processingError : Option String) : DeliveryRow :=
  ⟨ping.payloadHash pingDigest, processedAt, processingError⟩

def pingRetried : DeliverySystem where
  store := ⟨pingRows [pingRow none none, pingRow (some 0) none], [ping], 0⟩
  attempts := [⟨ping, .marking "failed"⟩, ⟨ping, .finished (.ok .duplicate)⟩]

def pingRepeated : DeliverySystem where
  store := ⟨pingRows [pingRow none none, pingRow (some 0) none, pingRow none (some "failed"),
    pingRow (some 0) none], [ping, ping], 0⟩
  attempts := [⟨ping, .finished (.error "failed")⟩, ⟨ping, .finished (.ok .duplicate)⟩,
    ⟨ping, .finished (.ok .duplicate)⟩]

theorem ping_retried : Run (DeliverySystem.Step pingDigest) pingStart pingRetry pingRetried := by
  refine Run.cons (.arrive _) ?_
  refine Run.cons (.attempt _ _ ⟨[], [], rfl, rfl⟩) ?_
  refine Run.cons (.attempt _ _ ⟨[], [], rfl, rfl⟩) ?_
  refine Run.cons (.arrive _) ?_
  refine Run.cons (.attempt _ _ ⟨[_], [], rfl, rfl⟩) ?_
  refine Run.cons (.attempt _ _ ⟨[_], [], rfl, rfl⟩) ?_
  refine Run.cons (.attempt _ _ ⟨[_], [], rfl, rfl⟩) ?_
  exact .refl

theorem ping_repeated : Run (DeliverySystem.Step pingDigest) pingRetried pingAgain pingRepeated := by
  refine Run.cons (.attempt _ _ ⟨[], [_], rfl, rfl⟩) ?_
  refine Run.cons (.arrive _) ?_
  refine Run.cons (.attempt _ _ ⟨[_, _], [], rfl, rfl⟩) ?_
  refine Run.cons (.attempt _ _ ⟨[_, _], [], rfl, rfl⟩) ?_
  refine Run.cons (.attempt _ _ ⟨[_, _], [], rfl, rfl⟩) ?_
  exact .refl

theorem ping_initial : pingStart.Initial := ⟨fun _ => rfl, rfl, rfl⟩

theorem process_delivery_exactly_once_retry :
    ExactlyOnce pingDigest pingStart pingRetry pingRetried ↔
      Always (DeliverySystem.Step pingDigest) MarksUnprocessed pingStart pingRetry :=
  process_delivery_exactly_once_iff ping_initial ping_retried

/-- The late error mark lets a second retry commit the same delivery again. -/
theorem delivery_applied_twice :
    ¬ ∀ (sha256Hex : List UInt8 → String) (start finish : DeliverySystem)
      (actions : List DeliveryAction), start.Initial →
      Run (DeliverySystem.Step sha256Hex) start actions finish →
      ExactlyOnce sha256Hex start actions finish := by
  intro claim
  have exactly := claim pingDigest pingStart pingRepeated _ ping_initial
    (ping_retried.append ping_repeated)
  have once : 2 ≤ 1 := exactly.once "ping"
  omega

end PiTools
