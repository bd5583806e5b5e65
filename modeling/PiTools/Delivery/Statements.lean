import Mathlib.Logic.Function.Basic
import PiTools.Queue.Job

/-
This file defines the statements of `Repositories` on `event_deliveries` and the
phases in which an attempt to process a delivery makes them.
-/

namespace PiTools

structure DeliveryEnvelope where
  deliveryId : String
  rawBody : List UInt8
  deriving DecidableEq, Repr

/-- The hash of the body that the delivery records. -/
def DeliveryEnvelope.payloadHash (sha256Hex : List UInt8 → String) (delivery : DeliveryEnvelope) :
    String :=
  "sha256:" ++ sha256Hex delivery.rawBody

/-- One row of `event_deliveries`. -/
structure DeliveryRow where
  payloadHash : String
  processedAt : Option Timestamp
  processingError : Option String
  deriving DecidableEq, Repr

/-- The deliveries by their primary key, with the effects that were committed so far. -/
structure DeliveryStore where
  rows : String → Option DeliveryRow
  applied : List DeliveryEnvelope
  now : Timestamp

inductive DeliveryOutcome
  | inserted
  | duplicate
  | conflict
  deriving DecidableEq, Repr

/-- The insertion does nothing when the identifier is taken. -/
def insertDelivery (store : DeliveryStore) (delivery : DeliveryEnvelope) (payloadHash : String) :
    DeliveryStore × Bool :=
  match store.rows delivery.deliveryId with
  | some _ => (store, false)
  | none =>
      ({ store with
          rows := Function.update store.rows delivery.deliveryId (some ⟨payloadHash, none, none⟩) },
        true)

/-- The outcome for a taken identifier compares the recorded hash. -/
def existingOutcome (store : DeliveryStore) (delivery : DeliveryEnvelope) (payloadHash : String) :
    DeliveryOutcome :=
  match (store.rows delivery.deliveryId).map DeliveryRow.payloadHash with
  | some hash => if hash = payloadHash then .duplicate else .conflict
  | none => .conflict

def DeliveryRow.markProcessed (row : DeliveryRow) (now : Timestamp) (error : Option String) :
    DeliveryRow :=
  { row with
    processedAt := match error with
      | none => some now
      | some _ => none
    processingError := error }

def markDeliveryProcessed (store : DeliveryStore) (deliveryId : String) (error : Option String) :
    DeliveryStore :=
  { store with
    rows := Function.update store.rows deliveryId
      ((store.rows deliveryId).map fun row => row.markProcessed store.now error) }

inductive TransactionOutcome
  | missingRow
  | alreadyProcessed
  | committed
  | rolledBack (message : String)
  deriving DecidableEq, Repr

/-- The transaction under the advisory lock, with the answer of `apply_delivery`. -/
def processTransaction (store : DeliveryStore) (delivery : DeliveryEnvelope)
    (applied : Except String Unit) : DeliveryStore × TransactionOutcome :=
  match store.rows delivery.deliveryId with
  | none => (store, .missingRow)
  | some row =>
      match row.processedAt with
      | some _ => (store, .alreadyProcessed)
      | none =>
          match applied with
          | .error message => (store, .rolledBack message)
          | .ok () =>
              ({ store with
                  rows := Function.update store.rows delivery.deliveryId
                    (some (row.markProcessed store.now none))
                  applied := store.applied ++ [delivery] },
                .committed)

/-! ### Attempts -/

/-- How far `process_delivery` came. -/
inductive Phase
  | inserting
  | comparing
  | processing (outcome : DeliveryOutcome)
  | marking (message : String)
  | finished (result : Except String DeliveryOutcome)
  deriving Repr

structure Attempt where
  delivery : DeliveryEnvelope
  phase : Phase
  deriving Repr

/-- One statement or transaction of `process_delivery`, in the order of the code. -/
def Attempt.advance (sha256Hex : List UInt8 → String) (attempt : Attempt) (store : DeliveryStore)
    (applied : Except String Unit) : DeliveryStore × Phase :=
  match attempt.phase with
  | .inserting =>
      match insertDelivery store attempt.delivery (attempt.delivery.payloadHash sha256Hex) with
      | (store, true) => (store, .processing .inserted)
      | (store, false) => (store, .comparing)
  | .comparing =>
      match existingOutcome store attempt.delivery (attempt.delivery.payloadHash sha256Hex) with
      | .conflict => (store, .finished (.ok .conflict))
      | outcome => (store, .processing outcome)
  | .processing outcome =>
      match processTransaction store attempt.delivery applied with
      | (store, .missingRow) =>
          (store, .finished (.error "database error: no rows returned by a query that expected to return at least one row"))
      | (store, .alreadyProcessed) | (store, .committed) => (store, .finished (.ok outcome))
      | (store, .rolledBack message) => (store, .marking message)
  | .marking message =>
      (markDeliveryProcessed store attempt.delivery.deliveryId (some message),
        .finished (.error message))
  | .finished result => (store, .finished result)

/-- A delivery counts as processed while its row has a time. -/
def DeliveryStore.processed (store : DeliveryStore) (deliveryId : String) : Bool :=
  (store.rows deliveryId).any fun row => row.processedAt.isSome

/-- What a statement of an attempt does to the store. -/
inductive StoreMove (sha256Hex : List UInt8 → String) (attempt : Attempt) (store : DeliveryStore) :
    DeliveryStore → Prop
  | still : StoreMove sha256Hex attempt store store
  | inserted (vacant : store.rows attempt.delivery.deliveryId = none) :
      StoreMove sha256Hex attempt store
        { store with
          rows := Function.update store.rows attempt.delivery.deliveryId
            (some ⟨attempt.delivery.payloadHash sha256Hex, none, none⟩) }
  | committed (outcome : DeliveryOutcome) (phase : attempt.phase = .processing outcome)
      (row : DeliveryRow) (found : store.rows attempt.delivery.deliveryId = some row)
      (unprocessed : row.processedAt = none) :
      StoreMove sha256Hex attempt store
        { store with
          rows := Function.update store.rows attempt.delivery.deliveryId
            (some (row.markProcessed store.now none))
          applied := store.applied ++ [attempt.delivery] }
  | marked (message : String) (phase : attempt.phase = .marking message) :
      StoreMove sha256Hex attempt store
        (markDeliveryProcessed store attempt.delivery.deliveryId (some message))

theorem Attempt.advance_move (sha256Hex : List UInt8 → String) (attempt : Attempt)
    (store : DeliveryStore) (applied : Except String Unit) :
    StoreMove sha256Hex attempt store (attempt.advance sha256Hex store applied).1 := by
  unfold Attempt.advance
  split
  · unfold insertDelivery
    cases vacant : store.rows attempt.delivery.deliveryId with
    | none => exact .inserted vacant
    | some row => exact .still
  · split <;> exact .still
  · rename_i outcome phase
    unfold processTransaction
    cases found : store.rows attempt.delivery.deliveryId with
    | none => exact .still
    | some row =>
        cases processed : row.processedAt with
        | some time =>
            simp only [processed]
            exact .still
        | none =>
            simp only [processed]
            cases applied with
            | error message => exact .still
            | ok => exact .committed outcome phase row found processed
  · rename_i message phase
    exact .marked message phase
  · exact .still

end PiTools
