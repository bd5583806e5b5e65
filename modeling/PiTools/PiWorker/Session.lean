import Mathlib.Data.List.Perm.Basic
import PiTools.Library.Runs
import PiTools.PiWorker.NatsParser

/-
This file defines a session of the Pi worker with the message server, where the
jobs finish in any order, and shows that each request is answered once.
-/

namespace PiTools.PiWorker

open Library

/-! ### The session -/

/-- A request with the subject of its reply. -/
structure PendingRequest where
  line : List Char
  reply : List Char
  deriving DecidableEq, Repr

/-- The state of the worker and the bytes that it has written. Nothing is written to a destroyed socket. -/
structure Session where
  buffer : List UInt8 := []
  infoReceived : Bool := false
  pending : List PendingRequest := []
  destroyed : Bool := false
  written : List UInt8 := []
  deriving DecidableEq, Repr

def Session.write (session : Session) (bytes : List UInt8) : Session :=
  if session.destroyed then session else { session with written := session.written ++ bytes }

def Session.act (session : Session) : NatsEffect → Session
  | .process line reply => { session with pending := session.pending ++ [⟨line, reply⟩] }
  | .write text => session.write (encodeUtf8 text)
  | .destroy _ => { session with destroyed := true }

def Connection.push (connection : Connection) (session : Session) (chunk : List UInt8) : Session :=
  let drained := drain connection.turn session.infoReceived (session.buffer ++ chunk)
  drained.effects.foldl Session.act
    { session with buffer := drained.buffer, infoReceived := drained.state }

def publishHeader (reply : List Char) (size : Nat) : List Char :=
  "PUB ".toList ++ reply ++ ' ' :: Nat.toDigits 10 size

/-- What the worker does with the result of a request. -/
def Session.publish (session : Session) (reply result : List Char) : Session :=
  ((session.write (encodeUtf8 (publishHeader reply (encodeUtf8 result).length ++ ['\r', '\n']))).write
    (encodeUtf8 result)).write (encodeUtf8 ['\r', '\n'])

inductive SessionEvent
  | arrives (chunk : List UInt8)
  | resolves (request : PendingRequest) (result : List Char)
  deriving DecidableEq, Repr

/-- A chunk arrives, or the job of any pending request is done. -/
inductive Session.Step (connection : Connection) (session : Session) : SessionEvent → Session → Prop
  | arrived (chunk : List UInt8) (alive : session.destroyed = false) :
      Session.Step connection session (.arrives chunk) (connection.push session chunk)
  | resolved (request : PendingRequest) (result : List Char) (earlier later : List PendingRequest)
      (waiting : session.pending = earlier ++ request :: later) :
      Session.Step connection session (.resolves request result)
        ({ session with pending := earlier ++ later }.publish request.reply result)

def SessionEvent.chunk : SessionEvent → Option (List UInt8)
  | .arrives chunk => some chunk
  | .resolves _ _ => none

def SessionEvent.answer : SessionEvent → Option (PendingRequest × List Char)
  | .arrives _ => none
  | .resolves request result => some (request, result)

/-! ### The frames of the worker -/

/-- A block of lines of the protocol, or the answer to a request. -/
inductive ClientFrame
  | lines (text : List Char)
  | pub (reply result : List Char)
  deriving DecidableEq, Repr

def ClientFrame.encode : ClientFrame → List UInt8
  | .lines text => encodeUtf8 text
  | .pub reply result =>
      encodeUtf8 (publishHeader reply (encodeUtf8 result).length ++ ['\r', '\n']) ++ encodeUtf8 result ++
        encodeUtf8 ['\r', '\n']

/-- The blocks that the worker writes, and subjects without white space. -/
def ClientFrame.Formed (connection : Connection) : ClientFrame → Prop
  | .lines text => text = connection.connectText true ∨ text = "PONG\r\n".toList
  | .pub reply _ => ∀ c ∈ reply, c ≠ ' ' ∧ c ≠ '\r' ∧ c ≠ '\n'

def ClientFrame.block : ClientFrame → Option (List Char)
  | .lines text => some text
  | .pub _ _ => none

def ClientFrame.publication : ClientFrame → Option (List Char × List Char)
  | .lines _ => none
  | .pub reply result => some (reply, result)

def NatsEffect.block : NatsEffect → Option (List Char)
  | .write text => some text
  | _ => none

def NatsEffect.request : NatsEffect → Option PendingRequest
  | .process line reply => some ⟨line, reply⟩
  | _ => none

def NatsEffect.destroys : NatsEffect → Bool
  | .destroy _ => true
  | _ => false

section Accounting

variable {connection : Connection} {session : Session} {events : List SessionEvent}

theorem Session.write_alive (alive : session.destroyed = false) (bytes : List UInt8) :
    session.write bytes = { session with written := session.written ++ bytes } := by
  rw [write, alive]
  rfl

@[simp] theorem Session.write_destroyed (bytes : List UInt8) : (session.write bytes).destroyed = session.destroyed := by
  rw [write]
  split <;> rfl

theorem Session.publish_alive (alive : session.destroyed = false) (reply result : List Char) :
    session.publish reply result =
      { session with written := session.written ++ (ClientFrame.pub reply result).encode } := by
  rw [publish, write_alive (by rw [write_destroyed, write_destroyed, alive]),
    write_alive (by rw [write_destroyed, alive]), write_alive alive]
  simp only [ClientFrame.encode, List.append_assoc]

/-- The effects of one chunk grow the pending requests and the written bytes. -/
theorem Session.foldl_act {effects : List NatsEffect} (calm : effects.any NatsEffect.destroys = false)
    (alive : session.destroyed = false) : effects.foldl Session.act session =
      { session with
          pending := session.pending ++ effects.filterMap NatsEffect.request
          written := session.written ++ (effects.filterMap NatsEffect.block).flatMap encodeUtf8 } := by
  induction effects generalizing session with
  | nil => simp
  | cons effect effects ih =>
      rw [List.any_cons, Bool.or_eq_false_iff] at calm
      rw [List.foldl_cons]
      cases effect with
      | process line reply =>
          have next : (session.act (.process line reply)).destroyed = false := alive
          rw [ih calm.2 next]
          simp [Session.act, List.filterMap_cons, NatsEffect.request, NatsEffect.block]
      | write text =>
          have next : (session.act (.write text)).destroyed = false := by rw [act, write_destroyed, alive]
          rw [ih calm.2 next, act, write_alive alive]
          simp [List.filterMap_cons, NatsEffect.request, NatsEffect.block]
      | destroy reason => cases calm.1

theorem Session.act_frame (effects : List NatsEffect) :
    (effects.foldl Session.act session).buffer = session.buffer ∧
      (effects.foldl Session.act session).infoReceived = session.infoReceived := by
  induction effects generalizing session with
  | nil => exact ⟨rfl, rfl⟩
  | cons effect effects ih =>
      have kept : (session.act effect).buffer = session.buffer ∧
          (session.act effect).infoReceived = session.infoReceived := by
        cases effect with
        | process | destroy => exact ⟨rfl, rfl⟩
        | write text =>
            rw [act, write]
            split <;> exact ⟨rfl, rfl⟩
      rw [List.foldl_cons, ih.1, ih.2]
      exact kept

theorem Session.publish_frame (reply result : List Char) :
    (session.publish reply result).buffer = session.buffer ∧
      (session.publish reply result).infoReceived = session.infoReceived := by
  have kept (session : Session) (bytes : List UInt8) : (session.write bytes).buffer = session.buffer ∧
      (session.write bytes).infoReceived = session.infoReceived := by
    rw [write]
    split <;> exact ⟨rfl, rfl⟩
  simp only [publish, kept, and_self]

/-- What has been received, computed and written agrees. -/
structure Session.Accounts (connection : Connection) (events : List SessionEvent) (session : Session)
    (sent : List ClientFrame) : Prop where
  alive : session.destroyed = false
  written : session.written = sent.flatMap ClientFrame.encode
  blocks : sent.filterMap ClientFrame.block =
    (connection.pushAll (events.filterMap SessionEvent.chunk)).effects.filterMap NatsEffect.block
  publications : sent.filterMap ClientFrame.publication =
    (events.filterMap SessionEvent.answer).map fun answer => (answer.1.reply, answer.2)
  requests : (session.pending ++ (events.filterMap SessionEvent.answer).map Prod.fst).Perm
    ((connection.pushAll (events.filterMap SessionEvent.chunk)).effects.filterMap NatsEffect.request)

/-- A session reads like the parser alone, and it keeps the accounts until a frame is refused. -/
theorem session_accounts {final : Session} (run : Run (Session.Step connection) {} events final) :
    let read := connection.pushAll (events.filterMap SessionEvent.chunk)
    final.buffer = read.buffer ∧ final.infoReceived = read.state ∧
      (read.effects.any NatsEffect.destroys = false → ∃ sent, final.Accounts connection events sent) := by
  induction run with
  | refl => exact ⟨rfl, rfl, fun _ => ⟨[], rfl, rfl, rfl, rfl, .refl _⟩⟩
  | @snoc events middle final event earlier last ih =>
      obtain ⟨buffer, state, accounts⟩ := ih
      cases last with
      | arrived chunk alive =>
          have chunks : (events ++ [SessionEvent.arrives chunk]).filterMap SessionEvent.chunk =
              events.filterMap SessionEvent.chunk ++ [chunk] := by simp [SessionEvent.chunk]
          have answers : (events ++ [SessionEvent.arrives chunk]).filterMap SessionEvent.answer =
              events.filterMap SessionEvent.answer := by simp [SessionEvent.answer]
          have read : connection.pushAll (events.filterMap SessionEvent.chunk ++ [chunk]) =
              (drain connection.turn middle.infoReceived (middle.buffer ++ chunk)).after
                (connection.pushAll (events.filterMap SessionEvent.chunk)).effects := by
            rw [buffer, state]
            exact pushAll_concat ..
          dsimp only
          rw [chunks, read]
          refine ⟨(Session.act_frame _).1, (Session.act_frame _).2, fun calm => ?_⟩
          rw [Drained.after, List.any_append, Bool.or_eq_false_iff] at calm
          obtain ⟨sent, _, written, blocks, publications, requests⟩ := accounts calm.1
          let new := (drain connection.turn middle.infoReceived (middle.buffer ++ chunk)).effects
          refine ⟨sent ++ (new.filterMap NatsEffect.block).map .lines, ?_⟩
          have pushed := @Session.foldl_act { middle with
            buffer := (drain connection.turn middle.infoReceived (middle.buffer ++ chunk)).buffer
            infoReceived := (drain connection.turn middle.infoReceived (middle.buffer ++ chunk)).state } new calm.2 alive
          have next : connection.push middle chunk = _ := pushed
          constructor
          · rw [next]
            exact alive
          · rw [next, List.flatMap_append, ← written, List.flatMap_map]
            rfl
          · rw [chunks, read, List.filterMap_append, blocks, Drained.after, List.filterMap_append, List.filterMap_map]
            exact congrArg _ List.filterMap_some
          · rw [answers, List.filterMap_append, publications, List.filterMap_map]
            exact (congrArg _ (List.filterMap_none _)).trans (List.append_nil _)
          · rw [next, answers, chunks, read, Drained.after, List.filterMap_append]
            refine List.Perm.trans ?_ (requests.append_right _)
            rw [List.append_assoc, List.append_assoc]
            exact List.perm_append_comm.append_left _
      | resolved request result before later waiting =>
          have chunks : (events ++ [SessionEvent.resolves request result]).filterMap SessionEvent.chunk =
              events.filterMap SessionEvent.chunk := by simp [SessionEvent.chunk]
          have answers : (events ++ [SessionEvent.resolves request result]).filterMap SessionEvent.answer =
              events.filterMap SessionEvent.answer ++ [(request, result)] := by simp [SessionEvent.answer]
          dsimp only
          rw [chunks]
          refine ⟨(Session.publish_frame _ _).1.trans buffer, (Session.publish_frame _ _).2.trans state, fun calm => ?_⟩
          obtain ⟨sent, alive, written, blocks, publications, requests⟩ := accounts calm
          have next := @Session.publish_alive { middle with pending := before ++ later } alive request.reply result
          refine ⟨sent ++ [.pub request.reply result], ?_⟩
          rw [next]
          constructor
          · exact alive
          · rw [List.flatMap_append, ← written, List.flatMap_singleton]
          · rw [chunks, List.filterMap_append, blocks]
            exact List.append_nil _
          · rw [answers, List.filterMap_append, publications, List.map_append]
            rfl
          · rw [answers, chunks, List.map_append]
            refine List.Perm.trans ?_ requests
            rw [waiting, List.append_assoc, List.append_assoc]
            refine List.Perm.append_left before ?_
            rw [← List.append_assoc]
            exact List.perm_append_singleton request _

end Accounting

/-! ### The written stream -/

theorem publishHeader_unbroken {reply : List Char} (formed : ∀ c ∈ reply, c ≠ ' ' ∧ c ≠ '\r' ∧ c ≠ '\n')
    (size : Nat) : ¬ lineBreak <:+: encodeUtf8 (publishHeader reply size) := by
  have inside : (13 : UInt8) ∈ lineBreak := by decide
  apply not_infix_of_absent inside
  have absent : '\r' ∉ publishHeader reply size := by
    rw [publishHeader, List.mem_append, List.mem_append, List.mem_cons]
    rintro ((front | inside) | same | digit)
    · exact absurd front (by decide)
    · exact (formed _ inside).2.1 rfl
    · exact absurd same (by decide)
    · exact absurd (toDigits_isDigit digit) (by decide)
  exact notMem_encodeUtf8 (by decide) absent

theorem encodeUtf8_lineBreak : encodeUtf8 ['\r', '\n'] = lineBreak := encodeUtf8_ascii (by decide)

theorem encode_pub (reply result : List Char) : (ClientFrame.pub reply result).encode =
    encodeUtf8 (publishHeader reply (encodeUtf8 result).length) ++ (lineBreak ++ (encodeUtf8 result ++ lineBreak)) := by
  rw [ClientFrame.encode, encodeUtf8_append, encodeUtf8_lineBreak]
  simp only [List.append_assoc]

theorem encodeUtf8_front {front : List Char} (ascii : ∀ c ∈ front, c.toNat < 0x80) (rest : List Char) :
    asciiBytes front <+: encodeUtf8 (front ++ rest) := by
  rw [encodeUtf8_append, encodeUtf8_ascii ascii]
  exact List.prefix_append ..

theorem connectText_starts (connection : Connection) :
    ∃ options, connection.connectText true = ['C', 'O', 'N', 'N', 'E', 'C', 'T', ' '] ++ options := by
  have front : "CONNECT ".toList = ['C', 'O', 'N', 'N', 'E', 'C', 'T', ' '] := by decide
  unfold Connection.connectText
  rw [front]
  exact ⟨_, List.append_assoc ..⟩

/-- The first two characters tell the kinds of frames apart. -/
theorem connectText_front (connection : Connection) :
    asciiBytes ['C', 'O'] <+: encodeUtf8 (connection.connectText true) := by
  obtain ⟨options, same⟩ := connectText_starts connection
  rw [same]
  have word : asciiBytes ['C', 'O'] <+: asciiBytes ['C', 'O', 'N', 'N', 'E', 'C', 'T', ' '] := by decide
  exact word.trans (encodeUtf8_front (by decide) options)

theorem pub_front (reply result : List Char) :
    asciiBytes ['P', 'U'] <+: (ClientFrame.pub reply result).encode := by
  have front : "PUB ".toList = ['P', 'U', 'B', ' '] := by decide
  rw [encode_pub, publishHeader, front, List.append_assoc]
  have word : asciiBytes ['P', 'U'] <+: asciiBytes ['P', 'U', 'B', ' '] := by decide
  exact (word.trans (encodeUtf8_front (by decide) _)).trans (List.prefix_append ..)

theorem pong_front : asciiBytes ['P', 'O'] <+: encodeUtf8 "PONG\r\n".toList := by decide

/-- Streams that start apart are not equal. -/
theorem fronts_apart {front other left right rest more : List UInt8} (starts : front <+: left)
    (starts' : other <+: right) (apart : ¬ front <+: other ∧ ¬ other <+: front) : left ++ rest ≠ right ++ more := by
  intro same
  have first : front <+: left ++ rest := starts.trans (List.prefix_append ..)
  have second : other <+: left ++ rest := same ▸ starts'.trans (List.prefix_append ..)
  rcases List.prefix_or_prefix_of_prefix first second with inside | inside
  · exact apart.1 inside
  · exact apart.2 inside

theorem publishHeader_injective {reply reply' : List Char} (formed : ∀ c ∈ reply, c ≠ ' ' ∧ c ≠ '\r' ∧ c ≠ '\n')
    {size size' : Nat} (same : publishHeader reply size = publishHeader reply' size') :
    reply = reply' ∧ size = size' := by
  rw [publishHeader, publishHeader, List.append_assoc, List.append_assoc, List.append_cancel_left_eq] at same
  have noSpace : ' ' ∉ reply := fun inside => (formed _ inside).1 rfl
  have noDigit : ' ' ∉ Nat.toDigits 10 size := fun digit => absurd (toDigits_isDigit digit) (by decide)
  obtain ⟨replies, _, digits⟩ := (List.append_cons_inj_of_notMem noSpace noDigit).mp same
  exact ⟨replies, toDigits_injective digits⟩

/-- The frames of the worker can be told apart, whatever the results hold. -/
theorem encode_apart (connection : Connection) (frame other : ClientFrame) (formed : frame.Formed connection)
    (formed' : other.Formed connection) (rest more : List UInt8)
    (same : frame.encode ++ rest = other.encode ++ more) : frame = other ∧ rest = more := by
  have pubs (reply result text : List Char) (block : text = connection.connectText true ∨ text = "PONG\r\n".toList)
      (rest more : List UInt8) : encodeUtf8 text ++ rest ≠ (ClientFrame.pub reply result).encode ++ more := by
    rcases block with rfl | rfl
    · exact fronts_apart (connectText_front connection) (pub_front reply result) (by decide)
    · exact fronts_apart pong_front (pub_front reply result) (by decide)
  cases frame with
  | lines text =>
      cases other with
      | lines text' =>
          have texts : text = text' := by
            rcases formed with rfl | rfl <;> rcases formed' with rfl | rfl
            · rfl
            · exact absurd same (fronts_apart (connectText_front connection) pong_front (by decide))
            · exact absurd same (fronts_apart pong_front (connectText_front connection) (by decide))
            · rfl
          rw [texts, List.append_cancel_left_eq] at same
          exact ⟨texts ▸ rfl, same⟩
      | pub reply result => exact absurd same (pubs reply result text formed rest more)
  | pub reply result =>
      cases other with
      | lines text => exact absurd same.symm (pubs reply result text formed' more rest)
      | pub reply' result' =>
          rw [encode_pub, encode_pub] at same
          simp only [List.append_assoc] at same
          have headers := congrArg takeLine same
          rw [takeLine_line (publishHeader_unbroken formed _), takeLine_line (publishHeader_unbroken formed' _),
            Option.some.injEq, Prod.mk.injEq] at headers
          obtain ⟨rfl, size⟩ := publishHeader_injective formed (encodeUtf8_injective headers.1)
          obtain ⟨results, ends⟩ := List.append_inj headers.2 size
          rw [List.append_cancel_left_eq] at ends
          exact ⟨congrArg _ (encodeUtf8_injective results), ends⟩

theorem encode_filled (connection : Connection) (frame : ClientFrame) (formed : frame.Formed connection) :
    frame.encode ≠ [] := by
  have visible {front bytes : List UInt8} (starts : front <+: bytes) (nonempty : front ≠ []) : bytes ≠ [] := by
    rintro rfl
    exact nonempty (List.prefix_nil.mp starts)
  cases frame with
  | lines text =>
      rcases formed with rfl | rfl
      · exact visible (connectText_front connection) (by decide)
      · exact visible pong_front (by decide)
  | pub reply result => exact visible (pub_front reply result) (by decide)

/-! ### A whole session -/

/-- The block of lines with which the worker answers a frame of the server. -/
def ServerFrame.block (connection : Connection) : ServerFrame → Option (List Char)
  | .info _ => some (connection.connectText true)
  | .ping => some "PONG\r\n".toList
  | .pong | .ok | .msg .. => none

/-- The request in a message, where the sender waits for a reply. -/
def ServerFrame.request : ServerFrame → Option PendingRequest
  | .msg _ _ (some reply) payload => some ⟨decodeUtf8 payload, decodeUtf8 reply⟩
  | _ => none

/-- What the server reads from the worker after the first frames of a session. -/
structure Answered (connection : Connection) (done : List ServerFrame) (events : List SessionEvent)
    (final : Session) (sent : List ClientFrame) : Prop where
  written : final.written = sent.flatMap ClientFrame.encode
  unique : ∀ other : List ClientFrame, (∀ frame ∈ other, frame.Formed connection) →
    other.flatMap ClientFrame.encode = final.written → other = sent
  blocks : sent.filterMap ClientFrame.block = done.filterMap (ServerFrame.block connection)
  publications : sent.filterMap ClientFrame.publication =
    (events.filterMap SessionEvent.answer).map fun answer => (answer.1.reply, answer.2)
  once : (final.pending ++ (events.filterMap SessionEvent.answer).map Prod.fst).Perm
    (done.filterMap ServerFrame.request)

theorem effects_of_frame (connection : Connection) (frame : ServerFrame) :
    (frame.effects connection).filterMap NatsEffect.block = (frame.block connection).toList ∧
      (frame.effects connection).filterMap NatsEffect.request = frame.request.toList ∧
        (frame.effects connection).any NatsEffect.destroys = false := by
  cases frame with
  | msg subject sid reply payload => cases reply <;> exact ⟨rfl, rfl, rfl⟩
  | _ => exact ⟨rfl, rfl, rfl⟩

theorem effects_of_frames (connection : Connection) (frames : List ServerFrame) :
    (frames.flatMap (ServerFrame.effects connection)).filterMap NatsEffect.block =
        frames.filterMap (ServerFrame.block connection) ∧
      (frames.flatMap (ServerFrame.effects connection)).filterMap NatsEffect.request =
          frames.filterMap ServerFrame.request ∧
        (frames.flatMap (ServerFrame.effects connection)).any NatsEffect.destroys = false := by
  induction frames with
  | nil => exact ⟨rfl, rfl, rfl⟩
  | cons frame frames ih =>
      obtain ⟨blocks, requests, calm⟩ := effects_of_frame connection frame
      rw [List.flatMap_cons, List.filterMap_append, List.filterMap_append, List.any_append, blocks, requests, calm,
        ih.1, ih.2.1, ih.2.2]
      refine ⟨?_, ?_, rfl⟩
      · cases block : frame.block connection <;> simp [block]
      · cases request : frame.request <;> simp [request]

/-- A subject stays free of white space when it is decoded. -/
theorem Token.decoded {bytes : List UInt8} (token : Token bytes) :
    ∀ c ∈ decodeUtf8 bytes, c ≠ ' ' ∧ c ≠ '\r' ∧ c ≠ '\n' := by
  have absent (c : Char) (visible : c.toNat ≠ 0) (ascii : c.toNat < 0x80)
      (white : c.toNat.toUInt8 ∈ asciiBytes [' ', '\t', '\r', '\n']) : c ∉ decodeUtf8 bytes :=
    notMem_decodeUtf8 visible ascii fun inside => token.2 _ inside white
  intro c member
  refine ⟨?_, ?_, ?_⟩
  · rintro rfl
    exact absent ' ' (by decide) (by decide) (by decide) member
  · rintro rfl
    exact absent '\r' (by decide) (by decide) (by decide) member
  · rintro rfl
    exact absent '\n' (by decide) (by decide) (by decide) member

/-- A session that has read some frames has answered them up to its pending requests. -/
theorem answered_of_read {connection : Connection} {done : List ServerFrame} (formed : ∀ frame ∈ done, frame.Formed)
    {events : List SessionEvent} {final : Session} (run : Run (Session.Step connection) {} events final)
    (effects : (connection.pushAll (events.filterMap SessionEvent.chunk)).effects =
      done.flatMap (ServerFrame.effects connection)) : ∃ sent, Answered connection done events final sent := by
  obtain ⟨blocks, requests, calm⟩ := effects_of_frames connection done
  obtain ⟨sent, _, written, sentBlocks, publications, once⟩ := (session_accounts run).2.2 (effects ▸ calm)
  rw [effects, blocks] at sentBlocks
  rw [effects, requests] at once
  have sentFormed : ∀ frame ∈ sent, frame.Formed connection := by
    intro frame member
    cases frame with
    | lines text =>
        have inside : text ∈ done.filterMap (ServerFrame.block connection) :=
          sentBlocks ▸ List.mem_filterMap.mpr ⟨_, member, rfl⟩
        obtain ⟨asked, _, same⟩ := List.mem_filterMap.mp inside
        cases asked with
        | info => exact .inl (Option.some.inj same).symm
        | ping => exact .inr (Option.some.inj same).symm
        | pong | ok | msg => cases same
    | pub reply result =>
        have inside : (reply, result) ∈ (events.filterMap SessionEvent.answer).map fun answer =>
            (answer.1.reply, answer.2) := publications ▸ List.mem_filterMap.mpr ⟨_, member, rfl⟩
        obtain ⟨answer, answered, same⟩ := List.mem_map.mp inside
        cases same
        have asked := once.subset (List.mem_append_right _ (List.mem_map_of_mem answered))
        obtain ⟨message, received, same⟩ := List.mem_filterMap.mp asked
        cases message with
        | msg subject sid target payload =>
            cases target with
            | none => cases same
            | some target =>
                have token : Token target := (formed _ received).2.2.1 target rfl
                have same : answer.1.reply = decodeUtf8 target :=
                  congrArg PendingRequest.reply (Option.some.inj same).symm
                have clean := token.decoded
                exact same ▸ clean
        | info | ping | pong | ok => cases same
  refine ⟨sent, written, ?_, sentBlocks, publications, once⟩
  intro other otherFormed same
  exact flatMap_encode_injective (encode_apart connection) (encode_filled connection) otherFormed sentFormed
    (same.trans written)

/-- Whatever the chunks and the order in which the jobs finish, the worker answers each request once. -/
theorem session_answers (connection : Connection) {frames : List ServerFrame}
    (formed : ∀ frame ∈ frames, frame.Formed) {events : List SessionEvent} {final : Session}
    (run : Run (Session.Step connection) {} events final) {unread : List UInt8}
    (stream : (events.filterMap SessionEvent.chunk).flatten ++ unread = frames.flatMap ServerFrame.encode) :
    ∃ done rest part sent, frames = done ++ rest ∧
      (events.filterMap SessionEvent.chunk).flatten = done.flatMap ServerFrame.encode ++ part ∧
        Unfinished ServerFrame.encode rest part ∧ Answered connection done events final sent := by
  have start : Unfinished ServerFrame.encode frames [] := unfinished_nil fun frame _ => frame.encode_ne_nil
  obtain ⟨done, rest, part, rfl, read, unfinished, pushed⟩ :=
    (turn_framing connection).pushAll_frames formed false (events.filterMap SessionEvent.chunk) stream start
  have doneFormed : ∀ frame ∈ done, frame.Formed := fun frame member => formed frame (List.mem_append_left _ member)
  obtain ⟨sent, answered⟩ := answered_of_read doneFormed run (congrArg Drained.effects pushed)
  exact ⟨done, rest, part, sent, rfl, read, unfinished, answered⟩

/-- Frames that arrive as one chunk. -/
theorem Connection.push_frames (connection : Connection) {frames : List ServerFrame}
    (formed : ∀ frame ∈ frames, frame.Formed) :
    let pushed := connection.push {} (frames.flatMap ServerFrame.encode)
    pushed.destroyed = false ∧ pushed.pending = frames.filterMap ServerFrame.request ∧
      pushed.written = (frames.filterMap (ServerFrame.block connection)).flatMap encodeUtf8 := by
  have read := (turn_framing connection).pushAll_whole (fun frame _ => frame.encode_ne_nil) formed false
    (List.flatten_singleton (l := frames.flatMap ServerFrame.encode))
  have effects : (drain connection.turn false ([] ++ frames.flatMap ServerFrame.encode)).effects =
      frames.flatMap (ServerFrame.effects connection) := by
    simpa [Library.pushAll] using congrArg Drained.effects read
  obtain ⟨blocks, requests, calm⟩ := effects_of_frames connection frames
  rw [← effects] at blocks requests calm
  intro pushed
  have grown : pushed = _ := Session.foldl_act calm rfl
  rw [grown, blocks, requests]
  exact ⟨rfl, rfl, rfl⟩

/-! ### One request -/

def oneRequest : List ServerFrame :=
  [.info (asciiBytes ['\x7b', '\x7d']), .ping, .msg [112] [49] (some [95, 55]) [13, 10]]

def oneAnswer : List SessionEvent :=
  [.arrives (oneRequest.flatMap ServerFrame.encode), .resolves ⟨['\r', '\n'], ['_', '7']⟩ ['P', 'U', 'B']]

theorem oneRequest_formed : ∀ frame ∈ oneRequest, frame.Formed := by
  have options : ¬ lineBreak <:+: asciiBytes ['\x7b', '\x7d'] := by decide
  have replies : ∀ reply ∈ some [(95 : UInt8), 55], Token reply := by
    intro reply same
    cases same
    decide +kernel
  simp only [oneRequest, List.forall_mem_cons, List.not_mem_nil, false_implies, implies_true, and_true]
  exact ⟨options, trivial, by decide +kernel, by decide +kernel, replies, by decide +kernel⟩

theorem oneAnswer_run : ∃ final, Run (Session.Step exampleConnection) {} oneAnswer final := by
  have arrived : Run (Session.Step exampleConnection) {} [.arrives (oneRequest.flatMap ServerFrame.encode)]
      (exampleConnection.push {} (oneRequest.flatMap ServerFrame.encode)) := .single (.arrived _ rfl)
  have pending : (exampleConnection.push {} (oneRequest.flatMap ServerFrame.encode)).pending =
      [⟨['\r', '\n'], ['_', '7']⟩] := (exampleConnection.push_frames oneRequest_formed).2.1
  exact ⟨_, arrived.snoc (.resolved _ _ [] [] pending)⟩

theorem session_answers_once : ∃ final done rest part sent, oneRequest = done ++ rest ∧
    (oneAnswer.filterMap SessionEvent.chunk).flatten = done.flatMap ServerFrame.encode ++ part ∧
      Unfinished ServerFrame.encode rest part ∧ Answered exampleConnection done oneAnswer final sent := by
  obtain ⟨final, run⟩ := oneAnswer_run
  exact ⟨final, @session_answers exampleConnection _ oneRequest_formed _ _ run [] (by decide)⟩

end PiTools.PiWorker
