import Wallpiper.Ctl.MonitorGeometry
import Wallpiper.Foundations.CText
import Wallpiper.Foundations.Runs

/-!
# The control listener

The listener thread serves one connection at a time and passes requests to
the portal's main loop through a mailbox with one request slot and one reply
slot.  Every step of the two threads is one label: what a client sends, when
the waiting thread wakes up and whether its deadline has passed are choices
of the environment.
-/

namespace Wallpiper.Ctl

open Foundations.CText

/-! ## Requests and responses -/

inductive CtlRequest where
  | geometry
  | detach
  | debugOn
  | debugOff
  | cursorPos
  | ping
  deriving DecidableEq, Repr

inductive CtlResponse where
  | ok
  | err (text : Bytes)
  | geometry (geometry : MonitorGeometry)
  | cursorPos (x y : Int32)
  deriving DecidableEq, Repr

def trim (s : Bytes) : Bytes :=
  (s.rdropWhile fun c ↦ c == 10 || c == 13 || c == 32 || c == 9).dropWhile
    fun c ↦ c == 32 || c == 9

def wpCtlRequestParse (line : Bytes) : Option CtlRequest :=
  let buf := cString line
  if buf.length = 0 ∨ buf.length ≥ 64 then none
  else
    let buf := trim buf
    if buf = bytesOf "GEOMETRY" then some .geometry
    else if buf = bytesOf "DETACH" then some .detach
    else if buf = bytesOf "DEBUG_ON" then some .debugOn
    else if buf = bytesOf "DEBUG_OFF" then some .debugOff
    else if buf = bytesOf "CURSOR_POS" then some .cursorPos
    else if buf = bytesOf "PING" then some .ping
    else none

/-- The line at the head of what a client sends, with its newline. -/
def readLine (outLen : ℕ) (sent : Bytes) : Bytes :=
  let out := sent.take (outLen - 1)
  match cutAt 10 out with
  | some (line, _) => line ++ [10]
  | none => out

/-- The response of `handle_ctl_request`. -/
def handleCtlRequest : CtlRequest → CtlResponse
  | .geometry => .err (bytesOf "geometry detection disabled")
  | .detach => .ok
  | .debugOn => .ok
  | .debugOff => .ok
  | .cursorPos => .err (bytesOf "handled by ctl listener")
  | .ping => .ok

def timedOut : CtlResponse := .err (bytesOf "timed out waiting for response")

/-! ## The two threads -/

/-- A request as one client sent it.  The connection number is not part of
the program: it tells requests of different clients apart. -/
structure CtlInstance where
  conn : ℕ
  request : CtlRequest
  deriving DecidableEq, Repr

/-- The fields of `wp_ctl_listener` under its mutex. -/
structure CtlListener where
  hasPending : Bool
  delivered : Bool
  hasReply : Bool
  pendingRequest : CtlInstance
  pendingReply : CtlResponse
  deriving DecidableEq, Repr

def CtlListener.zero : CtlListener :=
  { hasPending := false, delivered := false, hasReply := false
    pendingRequest := ⟨0, .geometry⟩, pendingReply := .ok }

/-- Where the listener thread is between its steps. -/
inductive ListenerPc where
  | accepting
  | callback (i : CtlInstance)
  | dispatch (i : CtlInstance)
  | waiting (i : CtlInstance)
  | responding (i : CtlInstance) (response : CtlResponse)
  deriving DecidableEq, Repr

inductive MainPc where
  | idle
  | polled (i : CtlInstance)
  | computed (i : CtlInstance) (response : CtlResponse)
  deriving DecidableEq, Repr

/-- `computed` and `written` record what the main loop computed for which
request and what the listener wrote to which connection. -/
structure CtlState where
  listener : CtlListener
  thread : ListenerPc
  mainLoop : MainPc
  nextConn : ℕ
  computed : List (CtlInstance × CtlResponse)
  written : List (CtlInstance × CtlResponse)
  deriving DecidableEq, Repr

def CtlState.initial : CtlState :=
  { listener := .zero, thread := .accepting, mainLoop := .idle, nextConn := 0
    computed := [], written := [] }

inductive CtlLabel where
  /-- a client connects and sends these bytes -/
  | accept (sent : Bytes)
  /-- the cursor callback answers -/
  | cursor (response : CtlResponse)
  | install
  /-- the timed wait returns, with the deadline passed or not -/
  | wake (deadline : Bool)
  | write
  | poll
  | compute
  | reply
  deriving DecidableEq, Repr

/-- The listener thread has no answer for a line it cannot parse, other than
its own error, and goes on to the next connection. -/
def acceptConnection (hasCursorFn : Bool) (s : CtlState) (sent : Bytes) : CtlState :=
  let s' := { s with nextConn := s.nextConn + 1 }
  let line := readLine 512 sent
  if line = [] then s'
  else
    match wpCtlRequestParse line with
    | none => s'
    | some request =>
        let i : CtlInstance := ⟨s.nextConn, request⟩
        if request = .cursorPos ∧ hasCursorFn = true then { s' with thread := .callback i }
        else { s' with thread := .dispatch i }

/-- `has_pending` and `has_reply` are cleared before the mutex is released. -/
def finishWait (s : CtlState) (i : CtlInstance) (response : CtlResponse) : CtlState :=
  { s with
    listener := { s.listener with hasPending := false, hasReply := false }
    thread := .responding i response }

def wpCtlListenerPoll (l : CtlListener) : Option CtlInstance × CtlListener :=
  if l.hasPending = true ∧ l.delivered = false then
    (some l.pendingRequest, { l with delivered := true })
  else (none, l)

def wpCtlListenerReply (l : CtlListener) (response : CtlResponse) : CtlListener :=
  { l with pendingReply := response, hasReply := true }

def ctlStep (hasCursorFn : Bool) (s : CtlState) : CtlLabel → Option CtlState
  | .accept sent =>
      match s.thread with
      | .accepting => some (acceptConnection hasCursorFn s sent)
      | _ => none
  | .cursor response =>
      match s.thread with
      | .callback i => some { s with thread := .responding i response }
      | _ => none
  | .install =>
      match s.thread with
      | .dispatch i =>
          some { s with
            listener := { s.listener with
              pendingRequest := i, hasPending := true, delivered := false, hasReply := false }
            thread := .waiting i }
      | _ => none
  | .wake deadline =>
      match s.thread with
      | .waiting i =>
          if s.listener.hasReply = true then some (finishWait s i s.listener.pendingReply)
          else if deadline = true then some (finishWait s i timedOut)
          else some s
      | _ => none
  | .write =>
      match s.thread with
      | .responding i response =>
          some { s with thread := .accepting, written := s.written ++ [(i, response)] }
      | _ => none
  | .poll =>
      match s.mainLoop with
      | .idle =>
          match wpCtlListenerPoll s.listener with
          | (some i, l) => some { s with listener := l, mainLoop := .polled i }
          | (none, l) => some { s with listener := l }
      | _ => none
  | .compute =>
      match s.mainLoop with
      | .polled i =>
          let response := handleCtlRequest i.request
          some { s with
            mainLoop := .computed i response, computed := s.computed ++ [(i, response)] }
      | _ => none
  | .reply =>
      match s.mainLoop with
      | .computed _ response =>
          some { s with
            listener := wpCtlListenerReply s.listener response, mainLoop := .idle }
      | _ => none

end Wallpiper.Ctl
