import Mathlib.Data.List.Infix

/-
This file defines a reader that takes frames off the front of the bytes that it
has buffered, and shows that it reads the same frames however their bytes are
cut into chunks.
-/

namespace Library

variable {Byte State Effect Frame : Type}

/-- What a reader does at the front of its buffer. It waits for more bytes when nothing is left. -/
structure Turn (Byte State Effect : Type) (buffer : List Byte) where
  effects : List Effect
  state : State
  left : Option (List Byte)
  shorter : ∀ rest, left = some rest → rest.length < buffer.length

/-- The effects, the state and the buffer at the end of a loop. -/
structure Drained (Byte State Effect : Type) where
  effects : List Effect
  state : State
  buffer : List Byte
  deriving DecidableEq, Repr

/-- Earlier effects come first. -/
def Drained.after (effects : List Effect) (drained : Drained Byte State Effect) :
    Drained Byte State Effect := { drained with effects := effects ++ drained.effects }

@[simp] theorem Drained.after_nil (drained : Drained Byte State Effect) : drained.after [] = drained := rfl

@[simp] theorem Drained.after_after (first second : List Effect) (drained : Drained Byte State Effect) :
    (drained.after second).after first = drained.after (first ++ second) := by
  simp only [after, List.append_assoc]

@[simp] theorem Drained.after_mk (first second : List Effect) (state : State) (buffer : List Byte) :
    (Drained.mk second state buffer).after first = ⟨first ++ second, state, buffer⟩ := rfl

section

variable (turn : State → (buffer : List Byte) → Turn Byte State Effect buffer)

/-- The loop takes frames until it has to wait. -/
def drain (state : State) (buffer : List Byte) : Drained Byte State Effect :=
  match _found : (turn state buffer).left with
  | none => ⟨(turn state buffer).effects, (turn state buffer).state, buffer⟩
  | some rest => (drain (turn state buffer).state rest).after (turn state buffer).effects
termination_by buffer.length
decreasing_by exact (turn state buffer).shorter rest _found

/-- The chunks arrive one after another. -/
def pushAll (state : State) (buffer : List Byte) : List (List Byte) → Drained Byte State Effect
  | [] => ⟨[], state, buffer⟩
  | chunk :: chunks =>
      let drained := drain turn state (buffer ++ chunk)
      (pushAll drained.state drained.buffer chunks).after drained.effects

/-- The reader takes each frame as a whole, and it waits on a part of a frame. -/
structure Framing (encode : Frame → List Byte) (meaning : Frame → List Effect)
    (next : State → Frame → State) (Formed : Frame → Prop) : Prop where
  takes : ∀ frame, Formed frame → ∀ state rest,
    (turn state (encode frame ++ rest)).effects = meaning frame ∧
      (turn state (encode frame ++ rest)).state = next state frame ∧
        (turn state (encode frame ++ rest)).left = some rest
  waits : ∀ frame, Formed frame → ∀ state part, part <+: encode frame → part ≠ encode frame →
    (turn state part).effects = [] ∧ (turn state part).state = state ∧ (turn state part).left = none
  idles : ∀ state,
    (turn state []).effects = [] ∧ (turn state []).state = state ∧ (turn state []).left = none

end

/-- The bytes are a beginning of the first frame and do not complete it. -/
def Unfinished (encode : Frame → List Byte) (frames : List Frame) (part : List Byte) : Prop :=
  match frames with
  | [] => part = []
  | frame :: _ => part <+: encode frame ∧ part ≠ encode frame

variable {turn : State → (buffer : List Byte) → Turn Byte State Effect buffer}

theorem drain_of_none {state : State} {buffer : List Byte} (found : (turn state buffer).left = none) :
    drain turn state buffer = ⟨(turn state buffer).effects, (turn state buffer).state, buffer⟩ := by
  rw [drain]
  split
  · rfl
  · rename_i other
    rw [found] at other
    cases other

theorem drain_of_some {state : State} {buffer rest : List Byte}
    (found : (turn state buffer).left = some rest) :
    drain turn state buffer =
      (drain turn (turn state buffer).state rest).after (turn state buffer).effects := by
  rw [drain]
  split
  · rename_i other
    rw [found] at other
    cases other
  · rename_i other same
    rw [found] at same
    rw [Option.some.inj same]

variable {encode : Frame → List Byte} {meaning : Frame → List Effect} {next : State → Frame → State}
  {Formed : Frame → Prop}

/-- An empty buffer completes no frame. -/
theorem unfinished_nil {frames : List Frame} (filled : ∀ frame ∈ frames, encode frame ≠ []) :
    Unfinished encode frames [] := by
  cases frames with
  | nil => rfl
  | cons frame rest => exact ⟨List.nil_prefix, fun same => filled frame (.head _) same.symm⟩

theorem Framing.drain_unfinished (framing : Framing turn encode meaning next Formed)
    {frames : List Frame} (formed : ∀ frame ∈ frames, Formed frame) (state : State) {part : List Byte}
    (unfinished : Unfinished encode frames part) : drain turn state part = ⟨[], state, part⟩ := by
  have waiting : (turn state part).effects = [] ∧ (turn state part).state = state ∧
      (turn state part).left = none := by
    cases frames with
    | nil =>
        have empty : part = [] := unfinished
        subst empty
        exact framing.idles state
    | cons frame rest =>
        exact framing.waits frame (formed frame (.head _)) state part unfinished.1 unfinished.2
  rw [drain_of_none waiting.2.2, waiting.1, waiting.2.1]

/-- A buffer that holds a beginning of the frames is drained up to a part of one frame. -/
theorem Framing.drain_frames (framing : Framing turn encode meaning next Formed)
    {frames : List Frame} (formed : ∀ frame ∈ frames, Formed frame) (state : State)
    {buffer unread : List Byte} (stream : buffer ++ unread = frames.flatMap encode) :
    ∃ done rest part, frames = done ++ rest ∧ buffer = done.flatMap encode ++ part ∧
      Unfinished encode rest part ∧
        drain turn state buffer = ⟨done.flatMap meaning, done.foldl next state, part⟩ := by
  induction frames generalizing state buffer with
  | nil =>
      obtain ⟨rfl, rfl⟩ := List.append_eq_nil_iff.mp stream
      have unfinished : Unfinished encode ([] : List Frame) [] := rfl
      exact ⟨[], [], [], rfl, rfl, unfinished, framing.drain_unfinished formed state unfinished⟩
  | cons frame frames ih =>
      rw [List.flatMap_cons] at stream
      by_cases whole : encode frame <+: buffer
      · -- The first frame is complete, and the loop goes on behind it.
        obtain ⟨more, rfl⟩ := whole
        rw [List.append_assoc, List.append_cancel_left_eq] at stream
        obtain ⟨effects, after, left⟩ := framing.takes frame (formed frame (.head _)) state more
        obtain ⟨done, rest, part, rfl, rfl, unfinished, drained⟩ :=
          ih (fun other member => formed other (.tail _ member)) (next state frame) stream
        refine ⟨frame :: done, rest, part, rfl, ?_, unfinished, ?_⟩
        · rw [List.flatMap_cons, List.append_assoc]
        · rw [drain_of_some left, effects, after, drained]
          rfl
      · have unfinished : Unfinished encode (frame :: frames) buffer := by
          constructor
          · rcases List.append_eq_append_iff.mp stream with ⟨missing, same, -⟩ | ⟨more, same, -⟩
            · exact ⟨missing, same.symm⟩
            · exact absurd ⟨more, same.symm⟩ whole
          · intro same
            exact whole (same ▸ List.prefix_rfl)
        exact ⟨[], frame :: frames, buffer, rfl, rfl, unfinished,
          framing.drain_unfinished formed state unfinished⟩

/-- The chunks together are read as the frames that they complete. -/
theorem Framing.pushAll_frames (framing : Framing turn encode meaning next Formed)
    {frames : List Frame} (formed : ∀ frame ∈ frames, Formed frame) (state : State)
    {buffer unread : List Byte} (chunks : List (List Byte))
    (stream : buffer ++ (chunks.flatten ++ unread) = frames.flatMap encode)
    (unfinished : Unfinished encode frames buffer) :
    ∃ done rest part, frames = done ++ rest ∧
      buffer ++ chunks.flatten = done.flatMap encode ++ part ∧ Unfinished encode rest part ∧
        pushAll turn state buffer chunks = ⟨done.flatMap meaning, done.foldl next state, part⟩ := by
  induction chunks generalizing frames state buffer with
  | nil => exact ⟨[], frames, buffer, rfl, by simp, unfinished, rfl⟩
  | cons chunk chunks ih =>
      rw [List.flatten_cons, List.append_assoc, ← List.append_assoc buffer chunk] at stream
      obtain ⟨first, others, part, rfl, read, pending, drained⟩ :=
        framing.drain_frames formed state stream
      rw [read, List.append_assoc, List.flatMap_append, List.append_cancel_left_eq] at stream
      obtain ⟨done, rest, last, rfl, readOn, unfinished, pushed⟩ :=
        ih (fun frame member => formed frame (List.mem_append_right _ member))
          (first.foldl next state) stream pending
      refine ⟨first ++ done, rest, last, by rw [List.append_assoc], ?_, unfinished, ?_⟩
      · rw [List.flatten_cons, ← List.append_assoc buffer chunk, read, List.append_assoc, readOn,
          List.flatMap_append, List.append_assoc]
      · rw [pushAll, drained]
        simp only [pushed, Drained.after_mk, List.flatMap_append, List.foldl_append]

/-- The chunks of all frames leave nothing in the buffer. -/
theorem Framing.pushAll_whole (framing : Framing turn encode meaning next Formed)
    (filled : ∀ frame, Formed frame → encode frame ≠ []) {frames : List Frame}
    (formed : ∀ frame ∈ frames, Formed frame) (state : State) {chunks : List (List Byte)}
    (stream : chunks.flatten = frames.flatMap encode) :
    pushAll turn state [] chunks = ⟨frames.flatMap meaning, frames.foldl next state, []⟩ := by
  have start : Unfinished encode frames [] :=
    unfinished_nil fun frame member => filled frame (formed frame member)
  obtain ⟨done, rest, part, rfl, read, unfinished, pushed⟩ := @Framing.pushAll_frames _ _ _ _ _ _ _ _ _
    framing frames formed state [] [] chunks (by simpa using stream) start
  rw [List.nil_append, stream, List.flatMap_append, List.append_cancel_left_eq] at read
  cases rest with
  | nil =>
      have empty : part = [] := unfinished
      rw [pushed, empty, List.append_nil]
  | cons frame rest =>
      -- The unfinished frame would be as long as its part.
      rw [← read, List.flatMap_cons] at unfinished
      obtain ⟨more, same⟩ := unfinished.1
      have short := congrArg List.length same
      simp only [List.length_append] at short
      refine absurd ?_ unfinished.2
      rw [List.eq_nil_of_length_eq_zero (show (rest.flatMap encode).length = 0 by omega), List.append_nil]

/-- The last chunk is read from where the chunks before it ended. -/
theorem pushAll_concat (state : State) (buffer : List Byte) (chunks : List (List Byte)) (chunk : List Byte) :
    pushAll turn state buffer (chunks ++ [chunk]) =
      (drain turn (pushAll turn state buffer chunks).state
        ((pushAll turn state buffer chunks).buffer ++ chunk)).after (pushAll turn state buffer chunks).effects := by
  induction chunks generalizing state buffer with
  | nil => simp [pushAll, Drained.after]
  | cons first chunks ih =>
      rw [List.cons_append, pushAll, ih, Drained.after_after]
      rfl

/-- Frames that can be told apart at the front of a stream can be told apart in the whole stream. -/
theorem flatMap_encode_injective
    (apart : ∀ frame other, Formed frame → Formed other → ∀ rest more,
      encode frame ++ rest = encode other ++ more → frame = other ∧ rest = more)
    (filled : ∀ frame, Formed frame → encode frame ≠ []) {frames others : List Frame}
    (formed : ∀ frame ∈ frames, Formed frame) (formed' : ∀ frame ∈ others, Formed frame)
    (same : frames.flatMap encode = others.flatMap encode) : frames = others := by
  induction frames generalizing others with
  | nil =>
      cases others with
      | nil => rfl
      | cons other others =>
          rw [List.flatMap_nil, List.flatMap_cons] at same
          exact absurd (List.append_eq_nil_iff.mp same.symm).1 (filled other (formed' other (.head _)))
  | cons frame frames ih =>
      cases others with
      | nil =>
          rw [List.flatMap_nil, List.flatMap_cons] at same
          exact absurd (List.append_eq_nil_iff.mp same).1 (filled frame (formed frame (.head _)))
      | cons other others =>
          rw [List.flatMap_cons, List.flatMap_cons] at same
          obtain ⟨rfl, rest⟩ := apart frame other (formed _ (.head _)) (formed' _ (.head _)) _ _ same
          rw [ih (fun frame member => formed frame (.tail _ member))
            (fun frame member => formed' frame (.tail _ member)) rest]

end Library
