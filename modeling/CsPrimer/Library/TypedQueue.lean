import Mathlib.Data.List.Basic

namespace CsPrimer.Library

/-!
# Message queues with message types

A queue keeps its messages in the order in which they were put.  A receive
names a kind and takes the first message of that kind, wherever it stands.
One queue therefore behaves as one independent channel for each kind.
-/

namespace TypedQueue

variable {Kind Payload : Type} [DecidableEq Kind]

/-- The messages of one kind, in their order. -/
def channel (kind : Kind) : List (Kind × Payload) → List Payload
  | [] =>
      []
  | (other, payload) :: queue =>
      if other = kind then
        payload :: channel kind queue
      else
        channel kind queue

/-- Take the first message of a kind, if there is one. -/
def receive?
    (kind : Kind) :
    List (Kind × Payload) → Option (Payload × List (Kind × Payload))
  | [] =>
      none
  | (other, payload) :: queue =>
      if other = kind then
        some (payload, queue)
      else
        (receive? kind queue).map fun (found, later) =>
          (found, (other, payload) :: later)

variable
  {kind : Kind}
  {payload : Payload}
  {queue later : List (Kind × Payload)}

/-- What is put last is last in its channel. -/
theorem channel_append (queue later : List (Kind × Payload)) :
    channel kind (queue ++ later) =
      channel kind queue ++ channel kind later := by
  induction queue with
  | nil =>
      rfl
  | cons message queue inductionHypothesis =>
      by_cases isKind : message.1 = kind <;>
        simp [channel, isKind, inductionHypothesis]

theorem channel_singleton :
    channel kind [(kind, payload)] = [payload] :=
  if_pos rfl

theorem channel_singleton_ne
    {other : Kind}
    (differs : other ≠ kind) :
    channel kind [(other, payload)] = [] :=
  if_neg differs

/-- Messages that are all of one kind are the channel of that kind. -/
theorem channel_map (kind : Kind) (payloads : List Payload) :
    channel kind (payloads.map (kind, ·)) = payloads := by
  induction payloads with
  | nil =>
      rfl
  | cons payload payloads inductionHypothesis =>
      simp [channel, inductionHypothesis]

theorem channel_map_ne
    {other : Kind}
    (differs : other ≠ kind)
    (payloads : List Payload) :
    channel kind (payloads.map (other, ·)) = [] := by
  induction payloads with
  | nil =>
      rfl
  | cons payload payloads inductionHypothesis =>
      simp [channel, differs, inductionHypothesis]

/-- The channels hold the messages of the queue and no others. -/
theorem mem_channel :
    payload ∈ channel kind queue ↔ (kind, payload) ∈ queue := by
  induction queue with
  | nil =>
      simp [channel]
  | cons message queue inductionHypothesis =>
      obtain ⟨other, first⟩ := message
      by_cases isKind : other = kind
      · simp [channel, isKind, inductionHypothesis]
      · simp [channel, isKind, inductionHypothesis, Ne.symm isKind]

/-- What a receive does to the channels. -/
structure Received
    (kind : Kind)
    (queue : List (Kind × Payload))
    (payload : Payload)
    (later : List (Kind × Payload)) : Prop where
  own :
    channel kind queue = payload :: channel kind later
  others :
    ∀ other, other ≠ kind → channel other later = channel other queue

/-- A receive takes the head of one channel and leaves the others alone. -/
theorem receive?_received
    (taken : receive? kind queue = some (payload, later)) :
    Received kind queue payload later := by
  induction queue generalizing later with
  | nil =>
      simp [receive?] at taken
  | cons message queue inductionHypothesis =>
      obtain ⟨first, text⟩ := message
      unfold receive? at taken
      split at taken
      case isTrue isKind =>
        simp only [Option.some.injEq, Prod.mk.injEq] at taken
        obtain ⟨rfl, rfl⟩ := taken
        subst isKind
        refine ⟨if_pos rfl, fun other differs => ?_⟩
        rw [channel, if_neg (Ne.symm differs)]
      case isFalse notKind =>
        obtain ⟨⟨found, rest⟩, received, shape⟩ :=
          Option.map_eq_some_iff.mp taken
        simp only [Prod.mk.injEq] at shape
        obtain ⟨rfl, rfl⟩ := shape
        obtain ⟨own, others⟩ := inductionHypothesis received
        constructor
        · rw [channel, channel, if_neg notKind, if_neg notKind, own]
        · intro other differs
          rw [channel, channel, others other differs]

/-- A receive blocks exactly if the channel is empty. -/
theorem receive?_eq_none_iff :
    receive? kind queue = none ↔ channel kind queue = [] := by
  induction queue with
  | nil =>
      simp [receive?, channel]
  | cons message queue inductionHypothesis =>
      by_cases isKind : message.1 = kind <;>
        simp [receive?, channel, isKind, inductionHypothesis]

end TypedQueue

end CsPrimer.Library
