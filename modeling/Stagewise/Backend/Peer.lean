import Stagewise.Backend.Buffer
import Stagewise.Data.Printer
import Stagewise.Data.Record

/-!
# Talking to a peer

A backend may be a peer at the other end of a wire. A request is a line of data
sent to it, with the kind of the request and its text, and the answer is a line
of data with the fields `ok`, `value` and `error`. The three may also come as a
list in that order.

Each request waits for its answer, but not forever. After a wait that was too
long, a line that arrives may be the answer to an earlier request, and so the
conversation is over: it is **stalled**, and every later request fails without
being sent.

What arrives within a wait is an `Arrival`, and a peer is any machine that for
each line sent to it has one. `Peer.scripted` is a peer that answers from a
list.
-/

namespace Stagewise.Peer

/-! ## Lines -/

/-- The line that sends a request. -/
def requestLine (kind : Request) (text : String) : String :=
  (Data.object [("kind", .string kind.text), ("text", .string text)]).compact

/-- **An answer to a request.** -/
structure Reply where
  /-- Whether the request was accepted. -/
  ok : Bool
  /-- The value, if the request has one. -/
  value : Option Data
  /-- What went wrong, if something did. -/
  error : Option String

/-- A text that may be absent. -/
def text? : Option Data → Option (Option String)
  | none | some .null => some none
  | some (.string s) => some (some s)
  | some _ => none

/-- An answer from its three parts. -/
def Reply.ofParts? (ok value error : Option Data) : Option Reply := do
  return ⟨← ok >>= Data.bool?, Data.present? value, ← text? error⟩

/-- The names of the parts. -/
def Reply.parts : List String := ["ok", "value", "error"]

/-- An answer from the fields of an object. A part comes at most once, and other
fields do not matter. -/
def Reply.ofFields? (fields : Data.Fields) : Option Reply :=
  let keys := fields.map (·.1)
  if Reply.parts.all fun key => keys.count key ≤ 1 then
    Reply.ofParts? (fields.lookup "ok") (fields.lookup "value") (fields.lookup "error")
  else none

/-- **The answer that a line holds.** -/
def Reply.read? (line : String) : Option Reply :=
  match Data.readRecord? Reply.parts line with
  | some fields => Reply.ofFields? fields
  | none =>
    match Data.read? line with
    | some (.array [ok]) => Reply.ofParts? (some ok) none none
    | some (.array [ok, value]) => Reply.ofParts? (some ok) (some value) none
    | some (.array [ok, value, error]) => Reply.ofParts? (some ok) (some value) (some error)
    | _ => none

/-! ## The conversation -/

/-- **What comes of waiting for an answer.** -/
inductive Arrival where
  /-- A line arrived. -/
  | line (s : String)
  /-- A line arrived that is no text. -/
  | garbled
  /-- Nothing arrived in time. -/
  | late
  /-- Nothing will ever arrive. -/
  | closed
  /-- The line did not get through, there being nobody to read it. -/
  | unsent

/-- A peer with states `κ`: what arrives after a line was sent to it. -/
abbrev Machine (κ : Type) := String → κ → Arrival × κ

/-- **A conversation with a peer.** -/
structure Conversation (κ : Type) where
  /-- The state of the peer. -/
  peer : κ
  /-- How long to wait for an answer. -/
  timeout : Nat
  /-- What is said of a line that holds no answer, which is left to the reader
  of lines. -/
  unreadable : String → String
  /-- Whether a wait was too long. -/
  stalled : Bool := false
  /-- The program so far. -/
  buffer : Buffer Unit := { evaluator := () }

variable {κ : Type}

/-- What an answer means for a request. -/
def outcome (unreadable : String → String) (kind : Request) (line : String) :
    Except Backend.Fault (Option Data) :=
  match Reply.read? line with
  | none => .error (.protocol (unreadable line))
  | some reply =>
    if reply.ok then .ok reply.value
    else .error (.rejected kind.text (reply.error.getD ""))

/-- **Send a request and wait for the answer.** -/
def request (m : Machine κ) (kind : Request) (text : String) (c : Conversation κ) :
    Except Backend.Fault (Option Data) × Conversation κ :=
  if c.stalled then (.error (.protocol "backend stopped answering after a timeout"), c)
  else
    let (arrival, peer) := m (requestLine kind text) c.peer
    let c := { c with peer }
    match arrival with
    | .garbled => (.error (.io "stream did not contain valid UTF-8"), c)
    | .late => (.error (.timeout c.timeout), { c with stalled := true })
    | .closed => (.error (.io "backend process closed its output"), c)
    | .unsent => (.error (.io "Broken pipe (os error 32)"), c)
    | .line s => (outcome c.unreadable kind s, c)

/-- Send a piece of program, and write it down if it is accepted. -/
def submit (m : Machine κ) (isDefinition : Bool) (text : String) (c : Conversation κ) :
    Except Backend.Fault Unit × Conversation κ :=
  match request m (if isDefinition then .define else .declare) text c with
  | (.ok _, c) => (.ok (), { c with buffer := c.buffer.push isDefinition text })
  | (.error f, c) => (.error f, c)

/-- Have an expression evaluated. -/
def evaluate (m : Machine κ) (text : String) (c : Conversation κ) :
    Except Backend.Fault Data × Conversation κ :=
  match request m .evaluate text c with
  | (.ok (some d), c) => (.ok d, c)
  | (.ok none, c) => (.error (.protocol "evaluate reply has no value"), c)
  | (.error f, c) => (.error f, c)

/-- **The backend that is a peer.** -/
def backend (m : Machine κ) : Backend (Conversation κ) where
  declare := submit m false
  define := submit m true
  evaluate := evaluate m
  program c := c.buffer.program

/-! ## A peer that answers from a list -/

/-- One scripted answer. -/
inductive Answer where
  /-- None, ever. -/
  | silent
  /-- None, and the peer ends. -/
  | close
  /-- All lines sent so far. -/
  | echo
  /-- This text, which is a line or several. -/
  | text (s : String)

/-- A peer that answers from a list. -/
structure Scripted where
  /-- The answers to come. -/
  answers : List Answer
  /-- The answer when there are none left. -/
  rest : Answer
  /-- The lines sent so far. -/
  lines : List String := []
  /-- The lines it has answered beyond one for each request. -/
  unread : List String := []
  /-- Whether the peer has ended. -/
  ended : Bool := false

/-- The lines of an answer, once `sent` were sent. -/
def Answer.lines (sent : List String) : Answer → List String
  | .silent | .close => []
  | .echo =>
    [(Data.object [("ok", .bool true), ("value", .array (sent.map .string))]).compact]
  | .text s => s.splitOn "\n"

/-- **The peer that answers from a list.** Only one line arrives for each
request, and others are there for the next. -/
def scripted : Machine Scripted := fun line p =>
  if p.ended then (.unsent, p)
  else
    let answer := p.answers.headD p.rest
    let sent := p.lines ++ [line]
    let ended := answer matches .close
    let p := { p with answers := p.answers.tail, lines := sent, ended }
    match p.unread ++ answer.lines sent with
    | s :: unread => (.line s, { p with unread })
    | [] => (if ended then .closed else .late, p)

end Stagewise.Peer
