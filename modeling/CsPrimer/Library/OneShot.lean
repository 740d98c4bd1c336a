import Mathlib.Data.List.Basic

namespace CsPrimer.Library

/-!
# Queues that notify once

A queue has one registration.  An arrival on the empty queue uses it up and
raises a notification, which is in transit until somebody registers again and
goes on to drain the queue.  Registering comes before draining, so whatever
arrives behind the last look at the queue raises a notification.
-/

/-- The queue, its registration, and who is going to look at it. -/
structure OneShot (Message : Type) where
  queue : List Message
  registered : Bool
  /-- The notifications that have not led to a registration yet. -/
  inTransit : Nat
  /-- Those who have registered and have not found the queue empty since. -/
  draining : Nat
  /-- Whether a notification has ever been raised. -/
  notified : Bool

namespace OneShot

variable {Message : Type}

/-- Something has arrived, and has raised a notification or has not. -/
def arrived
    (state : OneShot Message)
    (queue : List Message)
    (raised : Bool) : OneShot Message where
  queue := queue
  registered := state.registered && !raised
  inTransit := state.inTransit + raised.toNat
  draining := state.draining
  notified := state.notified || raised

/-- What can happen to the queue in one step. -/
inductive Moves (state : OneShot Message) : OneShot Message → Prop where
  | stays :
      Moves state state
  | arrives
      {queue : List Message}
      {raised : Bool}
      (notEmpty : queue ≠ [])
      (raisedIff :
        raised = true ↔ state.queue = [] ∧ state.registered = true) :
      Moves state (state.arrived queue raised)
  | registers
      {rest : Nat}
      (isInTransit : state.inTransit = rest + 1) :
      Moves state
        { state with
          registered := true
          inTransit := rest
          draining := state.draining + 1 }
  | takes
      {message : Message}
      {rest : List Message}
      (isDraining : 0 < state.draining)
      (isQueue : state.queue = message :: rest) :
      Moves state { state with queue := rest }
  | ends
      {rest : Nat}
      (isDraining : state.draining = rest + 1)
      (isEmpty : state.queue = []) :
      Moves state { state with draining := rest }

/-- The registration or a notification in transit watches the queue. -/
structure Sound
    (initial : List Message)
    (state : OneShot Message) : Prop where
  token :
    state.registered.toNat + state.inTransit = 1
  watched :
    state.registered = true → state.queue ≠ [] → state.notified = true →
      0 < state.draining
  unnotified :
    state.notified = false →
      state.registered = true ∧ state.draining = 0 ∧
        (state.queue = [] ↔ initial = [])

namespace Sound

variable
  {initial : List Message}
  {state next : OneShot Message}

/-- The first registration, of a queue that may hold something. -/
theorem initially :
    Sound initial
      { queue := initial
        registered := true
        inTransit := 0
        draining := 0
        notified := false } where
  token := rfl
  watched _ _ isNotified := by cases isNotified
  unnotified _ := ⟨rfl, rfl, Iff.rfl⟩

/-- Nobody registers while there is a registration. -/
theorem not_registered
    (sound : Sound initial state)
    (isInTransit : 0 < state.inTransit) :
    state.registered = false := by
  cases isRegistered : state.registered with
  | false =>
      rfl
  | true =>
      have token := sound.token
      rw [isRegistered, Bool.toNat_true] at token
      omega

/-- There is no more than one notification in transit. -/
theorem inTransit_le (sound : Sound initial state) :
    state.inTransit ≤ 1 := by
  have token := sound.token
  omega

/-- Every step keeps the queue watched. -/
theorem preserved
    (sound : Sound initial state)
    (moves : Moves state next) :
    Sound initial next := by
  obtain ⟨token, watched, unnotified⟩ := sound
  cases moves with
  | stays =>
      exact ⟨token, watched, unnotified⟩
  | @arrives queue raised notEmpty raisedIff =>
      cases raised with
      | true =>
          have isRegistered := (raisedIff.mp rfl).2
          rw [isRegistered, Bool.toNat_true] at token
          refine ⟨?_, by simp [arrived], by simp [arrived]⟩
          simp [arrived]
          omega
      | false =>
          have quiet : state.registered = true → state.queue ≠ [] := by
            intro isRegistered isEmpty
            simpa using raisedIff.mpr ⟨isEmpty, isRegistered⟩
          refine ⟨by simpa [arrived] using token, ?_, ?_⟩
          · simp only [arrived, Bool.not_false, Bool.and_true, Bool.or_false]
            exact fun isRegistered _ =>
              watched isRegistered (quiet isRegistered)
          · simp only [arrived, Bool.not_false, Bool.and_true, Bool.or_false]
            intro notNotified
            obtain ⟨isRegistered, noDraining, sameEmpty⟩ :=
              unnotified notNotified
            have wasNotEmpty := quiet isRegistered
            refine ⟨isRegistered, noDraining, ?_⟩
            constructor
            · intro isEmpty
              exact absurd isEmpty notEmpty
            · intro isEmpty
              exact absurd (sameEmpty.mpr isEmpty) wasNotEmpty
  | registers isInTransit =>
      have notRegistered : state.registered = false :=
        not_registered ⟨token, watched, unnotified⟩ (by omega)
      rw [notRegistered, Bool.toNat_false] at token
      refine ⟨?_, fun _ _ _ => Nat.succ_pos _, fun notNotified => ?_⟩
      · simp only [Bool.toNat_true]
        omega
      · have isRegistered := (unnotified notNotified).1
        rw [notRegistered] at isRegistered
        cases isRegistered
  | takes isDraining isQueue =>
      refine ⟨token, fun _ _ _ => isDraining, fun notNotified => ?_⟩
      have noDraining := (unnotified notNotified).2.1
      omega
  | ends isDraining isEmpty =>
      refine ⟨token, fun _ notEmpty => absurd isEmpty notEmpty,
        fun notNotified => ?_⟩
      have noDraining := (unnotified notNotified).2.1
      omega

/--
When nothing is in transit and nobody drains, the queue is empty exactly if it
was so in the beginning or a notification has been raised since.
-/
theorem empty_iff
    (sound : Sound initial state)
    (arrived : state.inTransit = 0)
    (noDraining : state.draining = 0) :
    state.queue = [] ↔ initial = [] ∨ state.notified = true := by
  cases isNotified : state.notified with
  | false =>
      rw [(sound.unnotified isNotified).2.2]
      simp
  | true =>
      have token := sound.token
      have isRegistered : state.registered = true := by
        cases registered : state.registered with
        | true =>
            rfl
        | false =>
            rw [registered, Bool.toNat_false] at token
            omega
      have isEmpty : state.queue = [] := by
        by_contra notEmpty
        have isDraining := sound.watched isRegistered notEmpty isNotified
        omega
      simp [isEmpty]

end Sound

end OneShot

end CsPrimer.Library
