/-
  Zydon.Primitives.Channel.Alone

  The channel when no call is interrupted: `sendAlone` and `recvAlone` run one
  call from its start to its return, and `aloneMachine` any sequence of them.
-/

import Zydon.Primitives.Channel.Basic

namespace Zydon
namespace Channel

open Lib

variable {SF RF Waker V : Type*}

-- ============================================================================
-- Calls
-- ============================================================================

/-- The producer is outside the channel. -/
def SendPc.isIdle : SendPc SF RF Waker V → Bool
  | .idle _ => true
  | _ => false

/-- The consumer is outside the channel. -/
def RecvPc.isIdle : RecvPc SF RF Waker V → Bool
  | .idle _ => true
  | _ => false

/-- A call of a producer or of the consumer. -/
abbrev Call (SF RF Waker V : Type*) := SendAction SF Waker V ⊕ RecvAction RF Waker

/-- What a call has returned. -/
abbrev Outcome (V : Type*) := SendOutcome V ⊕ RecvOutcome V

/-- The channel, with the calls so far and what they have returned. -/
structure History (SF RF Waker V : Type*) where
  channel : ChannelInner SF RF Waker V
  log : List (Call SF RF Waker V × Outcome V)

section Calls

variable [DecidableEq SF] [DecidableEq RF]

/-- A call of a producer; the longest one takes ten operations after the first. -/
def sendAlone (c : ChannelInner SF RF Waker V) (a : SendAction SF Waker V) :
    Option (ChannelInner SF RF Waker V × SendOutcome V) :=
  match sendStart c a with
  | some (c, p) =>
      match (sender SF RF Waker V).soloUntil SendPc.isIdle .run 10 c p with
      | some (c, .idle (some result)) => some (c, result)
      | _ => none
  | none => none

/-- A call of the consumer; the longest one takes thirteen operations after the
    first. -/
def recvAlone (c : ChannelInner SF RF Waker V) (a : RecvAction RF Waker) :
    Option (ChannelInner SF RF Waker V × RecvOutcome V) :=
  match recvStart c a with
  | some (c, p) =>
      match (receiver SF RF Waker V).soloUntil RecvPc.isIdle .run 13 c p with
      | some (c, .idle (some result)) => some (c, result)
      | _ => none
  | none => none

def callAlone (c : ChannelInner SF RF Waker V) :
    Call SF RF Waker V → Option (ChannelInner SF RF Waker V × Outcome V)
  | .inl a => (sendAlone c a).map fun r => (r.1, .inl r.2)
  | .inr a => (recvAlone c a).map fun r => (r.1, .inr r.2)

/-- The channel under calls that are never interrupted. -/
def aloneMachine (RF Waker : Type*) [DecidableEq RF] (capacity : Capacity) (values : SF → V) :
    Machine (History SF RF Waker V) (Call SF RF Waker V) where
  init := { channel := channel capacity values, log := [] }
  step := fun s a =>
    match callAlone s.channel a with
    | some (c, result) => some { channel := c, log := s.log ++ [(a, result)] }
    | none => none

end Calls

end Channel
end Zydon
