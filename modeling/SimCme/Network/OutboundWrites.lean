import Mathlib.Data.List.Flatten
import SimCme.Network.TcpConnection

/-!
# Outbound writes

Sending posts a handler to the strand of the connection, and the handler starts a write
of the whole frame.  A write moves its bytes in pieces, and the strand orders the
handlers, not the pieces: a second write may be outstanding before the first one is
done, and the socket may serve either of them.

Main results:

- Theorem {lit}`OutboundState.inv_step`: as long as the socket serves the oldest write,
  what it took and what is outstanding are the frames in the order of the handlers.
- Theorem {lit}`OutboundState.stream_prefix_of_run`: the bytes of such a run are always a
  prefix of these frames.
-/

open Library

namespace SimCme

/-! ## Posts and writes -/

structure OutboundState where
  /-- The frames whose handlers wait on the strand, first posted first. -/
  posted : List (List UInt8) := []
  /-- What the outstanding writes have still to move, oldest first. -/
  outstanding : List (List UInt8) := []
  /-- The bytes handed to the socket. -/
  stream : List UInt8 := []
  closed : Bool := false
deriving DecidableEq, Repr

inductive OutboundStep where
  /-- A call of {lit}`send`, from any thread. -/
  | send (data : List UInt8)
  /-- The strand runs the next handler. -/
  | handler
  /-- A write moves the first bytes of what it has left. -/
  | writeSome (write count : Nat)
  /-- A write fails, and its handler closes the connection. -/
  | fail (write : Nat)
  | close
deriving DecidableEq, Repr

namespace OutboundState

/-- Post the handler of a frame. -/
def send (s : OutboundState) (data : List UInt8) : OutboundState :=
  { s with posted := s.posted ++ [TcpConnection.frame data] }

/-- Run a handler: it starts a write unless the connection is closed.  The frame of the
handler comes with the state. -/
def handler (s : OutboundState) : OutboundState × List (List UInt8) :=
  match s.posted with
  | [] => (s, [])
  | msg :: posted =>
      if s.closed then ({ s with posted := posted }, [msg])
      else ({ s with posted := posted, outstanding := s.outstanding ++ [msg] }, [msg])

/-- Move bytes of a write.  A write that has moved all its bytes is done. -/
def writeSome (s : OutboundState) (write count : Nat) : OutboundState :=
  match s.outstanding[write]? with
  | none => s
  | some left =>
      if s.closed || count = 0 || left.length < count then s
      else
        { s with
          stream := s.stream ++ left.take count
          outstanding :=
            if count = left.length then s.outstanding.eraseIdx write
            else s.outstanding.set write (left.drop count) }

def close (s : OutboundState) : OutboundState :=
  { s with closed := true }

/-- A write that fails is gone, and the connection is closed. -/
def fail (s : OutboundState) (write : Nat) : OutboundState :=
  if write < s.outstanding.length then
    { s with outstanding := s.outstanding.eraseIdx write }.close
  else s

/-- The machine whose outputs are the frames in the order of their handlers. -/
def machine : Machine OutboundState OutboundStep (List UInt8) where
  step s
    | .send data => (s.send data, [])
    | .handler => s.handler
    | .writeSome write count => (s.writeSome write count, [])
    | .fail write => (s.fail write, [])
    | .close => (s.close, [])

end OutboundState

/-- Only the oldest outstanding write moves bytes. -/
def OutboundStep.ServesOldest : OutboundStep → Prop
  | .writeSome write _ => write = 0
  | _ => True

instance : (step : OutboundStep) → Decidable step.ServesOldest
  | .writeSome write _ => inferInstanceAs (Decidable (write = 0))
  | .send _ | .handler | .fail _ | .close => inferInstanceAs (Decidable True)

namespace OutboundState

/-- What the socket took and what is outstanding are the frames of the handlers, until
the connection is closed. -/
structure Inv (s : OutboundState) (frames : List (List UInt8)) : Prop where
  stream_prefix : s.stream <+: frames.flatten
  flatten_eq : s.closed = false → frames.flatten = s.stream ++ s.outstanding.flatten

variable {s : OutboundState} {frames : List (List UInt8)}

theorem inv_handler (hinv : Inv s frames) : Inv s.handler.1 (frames ++ s.handler.2) := by
  unfold handler
  split
  · simpa using hinv
  · rename_i msg posted hposted
    have hprefix : s.stream <+: (frames ++ [msg]).flatten := by
      rw [List.flatten_append]
      exact hinv.stream_prefix.trans (List.prefix_append ..)
    split
    · rename_i hclosed
      exact
        { stream_prefix := hprefix
          flatten_eq := fun hopen => by simp [hclosed] at hopen }
    · exact
        { stream_prefix := hprefix
          flatten_eq := fun hopen => by
            rw [List.flatten_append, hinv.flatten_eq hopen, List.flatten_append,
              List.append_assoc] }

/-- The oldest write moves bytes. -/
theorem inv_writeSome (hinv : Inv s frames) (count : Nat) : Inv (s.writeSome 0 count) frames := by
  unfold writeSome
  split
  · exact hinv
  · rename_i left hleft
    split
    · exact hinv
    · rename_i hmoves
      simp only [Bool.or_eq_true, decide_eq_true_eq, not_or, Bool.not_eq_true] at hmoves
      obtain ⟨⟨hopen, hpos⟩, hcount⟩ := hmoves
      obtain ⟨rest, houtstanding⟩ : ∃ rest, s.outstanding = left :: rest := by
        cases hlist : s.outstanding with
        | nil => simp [hlist] at hleft
        | cons first rest =>
            simp only [hlist, List.getElem?_cons_zero, Option.some_inj] at hleft
            exact ⟨rest, by rw [hleft]⟩
      have hall := hinv.flatten_eq hopen
      rw [houtstanding, List.flatten_cons] at hall
      -- What is left of the outstanding writes, whether or not the oldest one is done.
      have hrest : (if count = left.length then s.outstanding.eraseIdx 0
          else s.outstanding.set 0 (left.drop count)).flatten =
          left.drop count ++ rest.flatten := by
        rw [houtstanding]
        split
        · rename_i heq
          simp [heq]
        · simp
      have hsplit : frames.flatten =
          (s.stream ++ left.take count) ++ (left.drop count ++ rest.flatten) := by
        rw [hall, List.append_assoc, ← List.append_assoc (left.take count), List.take_append_drop]
      exact
        { stream_prefix := by
            rw [hsplit]
            exact List.prefix_append ..
          flatten_eq := fun _ => by rw [hrest, hsplit] }

theorem inv_fail (hinv : Inv s frames) (write : Nat) : Inv (s.fail write) frames := by
  unfold fail
  split
  · exact
      { stream_prefix := hinv.stream_prefix
        flatten_eq := fun hopen => by simp [close] at hopen }
  · exact hinv

theorem inv_step (hinv : Inv s frames) {step : OutboundStep} (hstep : step.ServesOldest) :
    Inv (machine.step s step).1 (frames ++ (machine.step s step).2) := by
  cases step with
  | send data => simpa [machine] using ⟨hinv.stream_prefix, hinv.flatten_eq⟩
  | handler => exact inv_handler hinv
  | writeSome write count =>
      cases hstep
      simpa [machine] using inv_writeSome hinv count
  | fail write => simpa [machine] using inv_fail hinv write
  | close =>
      refine ⟨?_, fun hopen => by simp [machine, close] at hopen⟩
      simpa [machine, close] using hinv.stream_prefix

/-- As long as the socket serves the oldest outstanding write, the bytes handed to it are
a prefix of the frames in the order of their handlers. -/
theorem stream_prefix_of_run (steps : List OutboundStep)
    (hadmits : machine.Admits (fun _ step => step.ServesOldest) {} steps) :
    (machine.run {} steps).1.stream <+: (machine.run {} steps).2.flatten := by
  have hinit : Inv {} [] :=
    { stream_prefix := List.nil_prefix
      flatten_eq := fun _ => rfl }
  have hrun := Machine.history_invariant (P := fun _ s frames => Inv s frames) hinit
    (fun _ _ _ _ hinv hstep => inv_step hinv hstep) steps hadmits
  exact hrun.stream_prefix

/-- Two frames, the second one started before the first is done. -/
theorem stream_prefix_of_two_frames :
    let steps : List OutboundStep :=
      [.send [1], .send [2], .handler, .handler, .writeSome 0 3, .writeSome 0 4, .writeSome 0 7]
    (machine.run {} steps).1.stream.length = 14 ∧
      (machine.run {} steps).1.stream <+: (machine.run {} steps).2.flatten :=
  ⟨by decide, stream_prefix_of_run _ (by decide)⟩

/-- The second write goes out in the middle of the first frame. -/
theorem not_stream_prefix_of_interleaving :
    let steps : List OutboundStep :=
      [.send [1], .send [2], .handler, .handler, .writeSome 0 3, .writeSome 1 7]
    ¬(machine.run {} steps).1.stream <+: (machine.run {} steps).2.flatten := by
  decide

end OutboundState

end SimCme
