import Ripc.Trace
import Mathlib.Data.List.Basic

namespace Ripc

/-- A call of the application; `input` tells whether it passed a callback for the reply. -/
structure Request where
  id : Nat
  input : Bool
  deriving DecidableEq, Repr

/-- The callback stored for a call, by the call it belongs to. -/
def Request.callback (r : Request) : Option Nat := if r.input then some r.id else none

/-- Where the calling thread is inside `call`. -/
inductive Caller
  | idle
  /-- An earlier request is pending: the predicate of the first `m_cv.wait` is evaluated. -/
  | guard (c : Request)
  | guardAsleep (c : Request)
  | write (c : Request)
  /-- Before `IOCTL_CLIENT_END_WRITING`. -/
  | announce (c : Request)
  | notSent (c : Request)
  | setSent (c : Request)
  | storeCallback (c : Request)
  | finish (c : Request)
  /-- The predicate of the last `m_cv.wait` is evaluated. -/
  | check (c : Request)
  | asleep (c : Request)
  deriving DecidableEq, Repr

def Caller.woken : Caller → Caller
  | .guardAsleep c => .guard c
  | .asleep c => .check c
  | c => c

/-- Where the listener is inside `dispatchNewMessage`. -/
inductive Listener
  | idle
  | test (r : Request)
  | invoke (r : Request)
  | clear (r : Request)
  | unset (r : Request)
  | notify (r : Request)
  deriving DecidableEq, Repr

/-- The client's fields, the two threads, the requests and replies that are on their way, and what
happened so far: `sent` are the calls whose `IOCTL_CLIENT_END_WRITING` succeeded, `handled` those whose
reply was handled, `invoked` the replies and the callbacks run for them. -/
structure ClientState where
  isRequestSent : Bool
  callback : Option Nat
  isUsingBlocking : Bool
  isRunning : Bool
  caller : Caller
  listener : Listener
  requests : List Request
  replies : List Request
  calls : Nat
  sent : List Request
  handled : List Request
  invoked : List (Nat × Nat)
  deriving DecidableEq, Repr

/-- One access to the fields that `call` of the application and `dispatchNewMessage` of the listener share, or a step
that the kernel takes. -/
inductive Move
  /-- The application calls `call`, with or without a callback. -/
  | call (input : Bool)
  /-- `IOCTL_CLIENT_END_WRITING` succeeds or fails. -/
  | endWriting (ok : Bool)
  | caller
  /-- The server answers the oldest request. -/
  | reply
  /-- The listener reads the oldest notification. -/
  | take
  | listener
  deriving DecidableEq, Repr

namespace ClientState

def start (blocking running : Bool) : ClientState :=
  ⟨false, none, blocking, running, .idle, .idle, [], [], 0, [], [], []⟩

def beginCall (s : ClientState) (input : Bool) : ClientState :=
  let c : Request := ⟨s.calls, input⟩
  { s with
    calls := s.calls + 1
    caller :=
      if s.isRequestSent then (if s.isUsingBlocking then .guard c else .idle) else .write c }

def announced (s : ClientState) (c : Request) (ok : Bool) : ClientState :=
  if ok then
    { s with caller := .setSent c, requests := s.requests ++ [c], sent := s.sent ++ [c] }
  else { s with caller := .notSent c }

/-- The predicate of both waits: `!m_is_request_sent || !m_is_running`. -/
def mayGoOn (s : ClientState) : Bool := !s.isRequestSent || !s.isRunning

def callerStep (s : ClientState) : Option ClientState :=
  match s.caller with
  | .guard c =>
    some { s with
      caller := if s.mayGoOn then (if s.isRunning then .write c else .idle) else .guardAsleep c }
  | .write c => some { s with caller := .announce c }
  | .notSent c => some { s with isRequestSent := false, caller := .finish c }
  | .setSent c => some { s with isRequestSent := true, caller := .storeCallback c }
  | .storeCallback c => some { s with callback := c.callback, caller := .finish c }
  | .finish c =>
    some { s with caller := if s.isUsingBlocking && s.isRequestSent then .check c else .idle }
  | .check c => some { s with caller := if s.mayGoOn then .idle else .asleep c }
  | _ => none

def listenerStep (s : ClientState) : Option ClientState :=
  match s.listener with
  | .test r => some { s with listener := if s.callback.isSome then .invoke r else .unset r }
  -- an empty `m_callback` throws here
  | .invoke r => s.callback.map fun k => { s with invoked := s.invoked ++ [(r.id, k)], listener := .clear r }
  | .clear r => some { s with callback := none, listener := .unset r }
  | .unset r => some { s with isRequestSent := false, listener := .notify r }
  | .notify r =>
    some { s with
      listener := .idle
      handled := s.handled ++ [r]
      caller := if s.isUsingBlocking then s.caller.woken else s.caller }
  | .idle => none

def step (s : ClientState) : Move → Option ClientState
  | .call input => if s.caller = .idle then some (s.beginCall input) else none
  | .endWriting ok =>
    match s.caller with
    | .announce c => some (s.announced c ok)
    | _ => none
  | .caller => s.callerStep
  | .reply =>
    match s.requests with
    | r :: requests => some { s with requests, replies := s.replies ++ [r] }
    | [] => none
  | .take =>
    match s.listener, s.replies with
    | .idle, r :: replies => some { s with listener := .test r, replies }
    | _, _ => none
  | .listener => s.listenerStep

end ClientState

end Ripc
