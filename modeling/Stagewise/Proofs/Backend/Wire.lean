import Mathlib.Logic.Relation
import Stagewise.Backend.Peer
import Stagewise.Proofs.Analysis.Transcript

/-!
# A peer on a wire

A machine that answers at once is only one way to see a peer. Here the peer is a
program of its own at the other end of a **wire**, and runs when it likes. It is
sent characters, and what it makes of them are lines: it answers each line that
is complete with one line, in order and after any delay. It may also stop
listening, after which nothing can be written to it, or end. Waiting for an
answer takes the next line that is there, gives up, or finds that the peer has
ended.

`Talk` is a conversation over a wire: steps of the peer and requests in any
order, each request made of `Peer.backend` with a machine that keeps to the
rules of the wire. Nothing numbers the lines, and so an answer belongs to a
request only because as many lines were read as were sent. `replies_paired` says
that this never goes wrong. After a wait that was too long the count is off for
good, and from then on nothing is sent.
-/

namespace Stagewise

/-!
## A request is one line

Requests are written as text with an end of line after each. If a request had an
end of line in it then the peer would take it for two, and answer both, and from
then on all answers would be one off. So a request has none, whatever it says,
because texts are quoted and the end of a line is written by letters.
-/

theorem Quoted.newline_not_mem_letter (c : Char) : '\n' ∉ Convention.data.letter c := by
  simp only [Convention.data]
  grind

/-- **No character is written as an end of line**, the end of line itself
included. -/
theorem Quoted.newline_not_mem_encodeChar (c : Char) : '\n' ∉ Convention.data.encodeChar c := by
  by_cases hc : c.toNat < 32
  · have hall : ∀ n < 32, '\n' ∉ Convention.data.encodeChar (Char.ofNat n) := by decide
    simpa using hall c.toNat hc
  · have hne : '\n' ≠ c := by
      rintro rfl
      exact hc (by decide)
    have hcode : Convention.data.code c = none := by
      simp only [Convention.data]
      rw [if_neg (by omega), if_neg hc]
    rcases hletter : Convention.data.letter c with _ | l
    · simp [Convention.encodeChar, hletter, hcode, hne]
    · have hl : '\n' ≠ l := by
        rintro rfl
        exact newline_not_mem_letter c hletter
      simp [Convention.encodeChar, hletter, hl]

theorem Data.newline_not_mem_quote (s : String) : '\n' ∉ (Data.quote s).toList := by
  simp [Data.quote, Quoted.Convention.quote, Quoted.newline_not_mem_encodeChar]

namespace Peer

/-- So there is none in a request. -/
theorem newline_not_mem_requestLine (kind : Request) (text : String) :
    '\n' ∉ (requestLine kind text).toList := by
  simp [requestLine, Data.compact, Data.compactFields, String.intercalate_cons_cons,
    Data.newline_not_mem_quote]

/-! ## The lines of a text -/

/-- The complete lines of a text without their ends, when `start` is the line so
far. -/
def completeLines (start : List Char) : List Char → List (List Char)
  | [] => []
  | c :: cs =>
    if c = '\n' then start :: completeLines [] cs else completeLines (start ++ [c]) cs

/-- The line that a text leaves incomplete, when `start` is the line so far. -/
def lastLine (start : List Char) : List Char → List Char
  | [] => start
  | c :: cs => if c = '\n' then lastLine [] cs else lastLine (start ++ [c]) cs

/-- The lines of a text are those of its first part, and those that the second
makes when it goes on where the first has ended. -/
theorem completeLines_append (start a b : List Char) :
    completeLines start (a ++ b)
      = completeLines start a ++ completeLines (lastLine start a) b := by
  induction a generalizing start with
  | nil => rfl
  | cons c cs ih => by_cases hc : c = '\n' <;> simp [completeLines, lastLine, hc, ih]

/-- So is the line that it leaves incomplete. -/
theorem lastLine_append (start a b : List Char) :
    lastLine start (a ++ b) = lastLine (lastLine start a) b := by
  induction a generalizing start with
  | nil => rfl
  | cons c cs ih => by_cases hc : c = '\n' <;> simp [lastLine, hc, ih]

/-- Without an end of line there is no complete line. -/
theorem completeLines_of_not_mem {start line : List Char} (h : '\n' ∉ line) :
    completeLines start line = [] := by
  induction line generalizing start with
  | nil => rfl
  | cons c cs ih =>
    obtain ⟨hc, hcs⟩ := not_or.1 (mt List.mem_cons.2 h)
    simp [completeLines, Ne.symm hc, ih hcs]

theorem lastLine_of_not_mem {start line : List Char} (h : '\n' ∉ line) :
    lastLine start line = start ++ line := by
  induction line generalizing start with
  | nil => simp [lastLine]
  | cons c cs ih =>
    obtain ⟨hc, hcs⟩ := not_or.1 (mt List.mem_cons.2 h)
    simp [lastLine, Ne.symm hc, ih hcs]

/-! ## The wire -/

/-- A line from the peer, which need not be text. -/
inductive Line where
  | text (s : String)
  | garbled
  deriving DecidableEq

/-- What arrives when a line is read. -/
def Line.arrival : Line → Arrival
  | .text s => .line s
  | .garbled => .garbled

/-- **A wire with a peer at its end.** -/
structure Wire where
  /-- The characters that were written to the peer. -/
  written : List Char := []
  /-- The lines that the peer has answered with. -/
  answers : List Line := []
  /-- How many of them were read. -/
  read : Nat := 0
  /-- Whether nothing can be written any more. -/
  deaf : Bool := false
  /-- Whether the peer will not answer any more. -/
  ended : Bool := false

namespace Wire

/-- The lines that the peer was sent. -/
def lines (w : Wire) : List (List Char) := completeLines [] w.written

/-- **What the peer may do by itself.** -/
inductive Step (w : Wire) : Wire → Prop
  /-- Answer the first line that has no answer. -/
  | answer (l : Line) (running : w.ended = false) (unanswered : w.answers.length < w.lines.length) :
    Step w { w with answers := w.answers ++ [l] }
  /-- Stop listening. -/
  | deafen : Step w { w with deaf := true }
  /-- End. -/
  | finish : Step w { w with ended := true }

/-- The wire with one more line written to it. -/
def send (w : Wire) (line : String) : Wire :=
  { w with written := w.written ++ line.toList ++ ['\n'] }

/-- **What may come of sending a line and waiting.** The peer may do anything in
the meantime, and the wait may be over although there is something to read. -/
inductive Awaits (w : Wire) (line : String) : Arrival → Wire → Prop
  /-- Only a part of the line is written, and nothing is ever after. -/
  | unsent (part : List Char) (before : part <+: line.toList) :
    Awaits w line .unsent { w with written := w.written ++ part, deaf := true }
  /-- The next line is read. -/
  | arrives (l : Line) (u : Wire) (listening : w.deaf = false)
    (meanwhile : Relation.ReflTransGen Step (w.send line) u) (next : u.answers[u.read]? = some l) :
    Awaits w line l.arrival { u with read := u.read + 1 }
  /-- The wait is too long. -/
  | late (u : Wire) (listening : w.deaf = false)
    (meanwhile : Relation.ReflTransGen Step (w.send line) u) : Awaits w line .late u
  /-- Everything was read, and there will be no more. -/
  | closed (u : Wire) (listening : w.deaf = false)
    (meanwhile : Relation.ReflTransGen Step (w.send line) u) (ended : u.ended = true)
    (drained : u.answers.length ≤ u.read) : Awaits w line .closed u

/-- A machine keeps to the rules of the wire. -/
def Obeyed (m : Machine Wire) : Prop :=
  ∀ (line : String) (w : Wire), w.Awaits line (m line w).1 (m line w).2

/-- The peer does nothing while it is waited for. -/
def idle : Machine Wire := fun line w =>
  if w.deaf then (.unsent, { w with written := w.written ++ [], deaf := true })
  else (.late, w.send line)

/-- To do nothing is to keep to the rules. -/
theorem obeyed_idle : Obeyed idle := by
  intro line w
  simp only [idle]
  split
  case isTrue => exact .unsent [] List.nil_prefix
  case isFalse hdeaf => exact .late _ (by simpa using hdeaf) .refl

/-- **Every timing is that of some machine**: whatever may come of a wait, there
is a machine that keeps to the rules and with which it does. -/
theorem Awaits.exists_obeyed {w u : Wire} {line : String} {a : Arrival} (h : w.Awaits line a u) :
    ∃ m, Obeyed m ∧ m line w = (a, u) := by
  classical
  refine ⟨fun line' w' => if line' = line ∧ w' = w then (a, u) else idle line' w', ?_, by simp⟩
  intro line' w'
  dsimp only
  split
  case isTrue heq =>
    obtain ⟨rfl, rfl⟩ := heq
    exact h
  case isFalse => exact obeyed_idle line' w'

end Wire

/-! ## Requests over a wire -/

namespace Arrival

/-- Whether a wait was too long. -/
def isLate : Arrival → Bool
  | .late => true
  | _ => false

/-- Whether a whole line was sent before the wait. -/
def isSent : Arrival → Bool
  | .unsent => false
  | _ => true

/-- The line that was read. -/
def reply? : Arrival → Option Line
  | .line s => some (.text s)
  | .garbled => some .garbled
  | _ => none

end Arrival

/-- Whether a line says that a request was accepted. -/
def Line.isOk : Line → Bool
  | .text s => (Reply.read? s).any (·.ok)
  | .garbled => false

/-- **What comes of a request**: the value if it is to have one, or what went
wrong. -/
def answer (m : Machine Wire) (kind : Request) (text : String) (c : Conversation Wire) :
    Except Backend.Fault (Option Data) :=
  match kind with
  | .declare => ((backend m).declare text c).1.map fun _ => none
  | .define => ((backend m).define text c).1.map fun _ => none
  | .evaluate => ((backend m).evaluate text c).1.map some

/-- **What a request returns**, by what arrived. If nothing was sent, or no line
could be read, then this is what went wrong. If a line was read, then it counts
what the line holds: it may hold no answer, an answer that refuses the request,
or one that accepts it, and that should have a value if something was to be
evaluated. -/
inductive Returns (timeout : Nat) (unreadable : String → String) (kind : Request) :
    Option Arrival → Except Backend.Fault (Option Data) → Prop
  | stopped : Returns timeout unreadable kind none
    (.error (.protocol "backend stopped answering after a timeout"))
  | late : Returns timeout unreadable kind (some .late) (.error (.timeout timeout))
  | closed : Returns timeout unreadable kind (some .closed)
    (.error (.io "backend process closed its output"))
  | unsent : Returns timeout unreadable kind (some .unsent)
    (.error (.io "Broken pipe (os error 32)"))
  | garbled : Returns timeout unreadable kind (some .garbled)
    (.error (.io "stream did not contain valid UTF-8"))
  | nonsense {s : String} (read : Reply.read? s = none) :
    Returns timeout unreadable kind (some (.line s)) (.error (.protocol (unreadable s)))
  | refused {s : String} {reply : Reply} (read : Reply.read? s = some reply)
    (ok : reply.ok = false) :
    Returns timeout unreadable kind (some (.line s))
      (.error (.rejected kind.text (reply.error.getD "")))
  | accepted {s : String} {reply : Reply} (read : Reply.read? s = some reply)
    (ok : reply.ok = true) (piece : kind ≠ .evaluate) :
    Returns timeout unreadable kind (some (.line s)) (.ok none)
  | value {s : String} {reply : Reply} {d : Data} (read : Reply.read? s = some reply)
    (ok : reply.ok = true) (evaluated : kind = .evaluate) (value : reply.value = some d) :
    Returns timeout unreadable kind (some (.line s)) (.ok (some d))
  | valueless {s : String} {reply : Reply} (read : Reply.read? s = some reply)
    (ok : reply.ok = true) (evaluated : kind = .evaluate) (value : reply.value = none) :
    Returns timeout unreadable kind (some (.line s))
      (.error (.protocol "evaluate reply has no value"))

/-- **A request that was made.** -/
structure Call where
  /-- What was asked for. -/
  kind : Request
  /-- The text of the request. -/
  text : String
  /-- What came of sending the line and waiting, if this was done at all. -/
  arrival : Option Arrival
  /-- What was returned: a value if there is one, or what went wrong. -/
  result : Except Backend.Fault (Option Data)

namespace Call

/-- The line of a call. -/
def line (call : Call) : List Char := (requestLine call.kind call.text).toList

/-- Whether the line of a call was sent as a whole. -/
def isSent (call : Call) : Bool := call.arrival.any Arrival.isSent

/-- The line that a call has read, if it has read one. -/
def reply? (call : Call) : Option Line := call.arrival.bind Arrival.reply?

/-- Whether a call is to add to the program. -/
def isPiece (call : Call) : Bool := call.kind ≠ .evaluate

/-- Whether a call adds to the program: it is to, and the line it has read says
that it may. -/
def isAccepted (call : Call) : Bool := call.isPiece && call.reply?.any Line.isOk

/-- Whether a call has failed for having waited too long. -/
def TimedOut (call : Call) : Prop := ∃ millis, call.result = .error (.timeout millis)

/-- The call that a request is. -/
def of (m : Machine Wire) (kind : Request) (text : String) (c : Conversation Wire) : Call where
  kind
  text
  arrival := if c.stalled then none else some (m (requestLine kind text) c.peer).1
  result := answer m kind text c

@[simp]
theorem of_text (m : Machine Wire) (kind : Request) (text : String) (c : Conversation Wire) :
    (of m kind text c).text = text := rfl

end Call

/-- **A conversation over a wire**, with the calls so far: the peer takes steps
by itself, and each request is made with any machine that keeps to the rules, so
that nothing is said about delays. -/
inductive Talk (c₀ : Conversation Wire) : List Call → Conversation Wire → Prop
  | start : Talk c₀ [] c₀
  | peer {calls : List Call} {c : Conversation Wire} {w : Wire} (talk : Talk c₀ calls c)
    (step : c.peer.Step w) : Talk c₀ calls { c with peer := w }
  | call {calls : List Call} {c : Conversation Wire} (talk : Talk c₀ calls c) (m : Machine Wire)
    (obeyed : Wire.Obeyed m) (kind : Request) (text : String) :
    Talk c₀ (calls ++ [Call.of m kind text c]) ((backend m).respond kind text c).2

/-! ## What a request does to a conversation -/

section Request

variable (m : Machine Wire) (kind : Request) (text : String) (c : Conversation Wire)

/-- What a request does to a conversation that is stalled: nothing. -/
theorem respond_of_stalled (h : c.stalled = true) :
    (backend m).respond kind text c
      = (some (.protocol "backend stopped answering after a timeout"), c) := by
  cases kind <;>
    simp [Backend.respond, Backend.respond.fault?, backend, submit, evaluate, request, h]

/-- A reply means success exactly if it says so. -/
theorem isOk_text (unreadable : String → String) (line : String) :
    (Line.text line).isOk = (outcome unreadable kind line).isOk := by
  simp only [Line.isOk, outcome]
  rcases Reply.read? line with _ | reply
  · rfl
  · cases hok : reply.ok <;> simp [hok, Except.isOk, Except.toBool]

/-- **What is sent and waited for** in a conversation that is not stalled. -/
theorem request_of_not_stalled (h : c.stalled = false) :
    (request m kind text c).2 =
        { c with
          peer := (m (requestLine kind text) c.peer).2
          stalled := (m (requestLine kind text) c.peer).1.isLate } ∧
      (request m kind text c).1.isOk
        = (m (requestLine kind text) c.peer).1.reply?.any Line.isOk := by
  simp only [request, h]
  rcases m (requestLine kind text) c.peer with ⟨a, w⟩
  cases a with
  | line s => exact ⟨by simp [Arrival.isLate], (isOk_text kind c.unreadable s).symm⟩
  | garbled | late | closed | unsent =>
    simp [Arrival.isLate, Arrival.reply?, Except.isOk, Except.toBool, Line.isOk]

/-- **What a request does to a conversation** that is not stalled. -/
theorem respond_of_not_stalled (h : c.stalled = false) :
    ((backend m).respond kind text c).2 =
      { c with
        peer := (m (requestLine kind text) c.peer).2
        stalled := (m (requestLine kind text) c.peer).1.isLate
        buffer := if (Call.of m kind text c).isAccepted then c.buffer.push (kind = .define) text
          else c.buffer } := by
  obtain ⟨hafter, hok⟩ := request_of_not_stalled m kind text c h
  have haccepted : (Call.of m kind text c).isAccepted
      = (decide (kind ≠ .evaluate) && (request m kind text c).1.isOk) := by
    simp [hok, Call.of, Call.isAccepted, Call.isPiece, Call.reply?, h]
  rw [haccepted]
  rcases hr : request m kind text c with ⟨f | v, c'⟩ <;> rw [hr] at hafter <;> subst hafter
  · cases kind <;>
      simp [Backend.respond, Backend.respond.fault?, backend, submit, evaluate, hr, Except.isOk,
        Except.toBool]
  · cases kind <;> rcases v with _ | d <;>
      simp [Backend.respond, Backend.respond.fault?, backend, submit, evaluate, hr, Except.isOk,
        Except.toBool]

/-- An error of the request is what is returned. -/
theorem answer_of_error {f : Backend.Fault} (h : (request m kind text c).1 = .error f) :
    answer m kind text c = .error f := by
  rcases hr : request m kind text c with ⟨r, c'⟩
  obtain rfl : r = .error f := by rw [← h, hr]
  cases kind <;> simp [answer, backend, submit, evaluate, hr, Except.map]

/-- A piece of program has no value. -/
theorem answer_of_ok {v : Option Data} (h : (request m kind text c).1 = .ok v)
    (hkind : kind ≠ .evaluate) : answer m kind text c = .ok none := by
  rcases hr : request m kind text c with ⟨r, c'⟩
  obtain rfl : r = .ok v := by rw [← h, hr]
  cases kind with
  | evaluate => exact absurd rfl hkind
  | declare | define => simp [answer, backend, submit, hr, Except.map]

/-- A value that is missing where there should be one is an error of the
peer. -/
theorem answer_evaluate {v : Option Data} (h : (request m .evaluate text c).1 = .ok v) :
    answer m .evaluate text c
      = v.elim (.error (.protocol "evaluate reply has no value")) (.ok <| some ·) := by
  rcases hr : request m .evaluate text c with ⟨r, c'⟩
  obtain rfl : r = .ok v := by rw [← h, hr]
  cases v <;> simp [answer, backend, evaluate, hr, Except.map]

/-- **A line that was read** says what is returned. -/
theorem returns_of_line {s : String}
    (h : (request m kind text c).1 = outcome c.unreadable kind s) :
    Returns c.timeout c.unreadable kind (some (.line s)) (answer m kind text c) := by
  unfold outcome at h
  cases hread : Reply.read? s with
  | none =>
    rw [hread] at h
    exact answer_of_error m kind text c h ▸ .nonsense hread
  | some reply =>
    rw [hread] at h
    dsimp only at h
    cases hok : reply.ok with
    | false =>
      rw [hok, if_neg Bool.false_ne_true] at h
      exact answer_of_error m kind text c h ▸ .refused hread hok
    | true =>
      rw [hok, if_pos rfl] at h
      by_cases hkind : kind = .evaluate
      · subst hkind
        rw [answer_evaluate m text c h]
        cases hvalue : reply.value with
        | none => exact .valueless hread hok rfl hvalue
        | some d => exact .value hread hok rfl hvalue
      · exact answer_of_ok m kind text c h hkind ▸ .accepted hread hok hkind

/-- **What a call returns is told by what arrived.** -/
theorem returns_of : Returns c.timeout c.unreadable kind (Call.of m kind text c).arrival
    (Call.of m kind text c).result := by
  show Returns _ _ _ (if c.stalled then none else some (m (requestLine kind text) c.peer).1)
    (answer m kind text c)
  cases h : c.stalled with
  | true =>
    rw [answer_of_error m kind text c (by rw [request, h]; rfl)]
    exact .stopped
  | false =>
    have hfault {a : Arrival} {f : Backend.Fault}
        (hreturns : Returns c.timeout c.unreadable kind (some a) (.error f))
        (hrequest : (request m kind text c).1 = .error f) :
        Returns c.timeout c.unreadable kind (some a) (answer m kind text c) :=
      answer_of_error m kind text c hrequest ▸ hreturns
    rcases hm : m (requestLine kind text) c.peer with ⟨a, w⟩
    cases a with
    | line s => exact returns_of_line m kind text c (by simp [request, h, hm])
    | garbled => exact hfault .garbled (by simp [request, h, hm])
    | late => exact hfault .late (by simp [request, h, hm])
    | closed => exact hfault .closed (by simp [request, h, hm])
    | unsent => exact hfault .unsent (by simp [request, h, hm])

/-- A request fails for having waited too long exactly if the wait was too
long. -/
theorem timedOut_iff (h : c.stalled = false) :
    (Call.of m kind text c).TimedOut ↔ (m (requestLine kind text) c.peer).1.isLate = true := by
  have hreturns := returns_of m kind text c
  have harrival : (Call.of m kind text c).arrival
      = some (m (requestLine kind text) c.peer).1 := by simp [Call.of, h]
  rw [harrival] at hreturns
  unfold Call.TimedOut
  generalize (Call.of m kind text c).result = result at hreturns ⊢
  generalize (m (requestLine kind text) c.peer).1 = a at hreturns ⊢
  cases hreturns <;> simp [Arrival.isLate]

end Request

/-!
## Time passes

The peer is free to do something at any time, and what it does is not seen by a
call before it waits. So all that is said about a wire has to hold still after
any number of steps of the peer. What does not change is what was written and
what was read. The answers only get more, at the end.
-/

namespace Wire

/-- **One wire is another later on**, the peer having done things by itself. -/
structure Later (w u : Wire) : Prop where
  written : u.written = w.written
  read : u.read = w.read
  answers : w.answers <+: u.answers
  deaf : w.deaf = true → u.deaf = true
  ended : w.ended = true → u.ended = true ∧ u.answers = w.answers
  bounded : w.answers.length ≤ w.lines.length → u.answers.length ≤ u.lines.length

variable {w u v : Wire}

theorem Later.refl (w : Wire) : w.Later w where
  written := rfl
  read := rfl
  answers := List.prefix_rfl
  deaf := id
  ended h := ⟨h, rfl⟩
  bounded := id

/-- What is later than later is later. An answer that has come stays, and the
peer has no more lines to answer than before. -/
theorem Later.trans (h : w.Later u) (h' : u.Later v) : w.Later v where
  written := h'.written.trans h.written
  read := h'.read.trans h.read
  answers := h.answers.trans h'.answers
  deaf hw := h'.deaf (h.deaf hw)
  ended hw := by
    obtain ⟨hu, heq⟩ := h.ended hw
    obtain ⟨hv, heq'⟩ := h'.ended hu
    exact ⟨hv, heq'.trans heq⟩
  bounded hw := h'.bounded (h.bounded hw)

/-- Each step of the peer adds an answer, or takes something away that it could
do. -/
theorem Step.later (h : w.Step u) : w.Later u := by
  cases h with
  | answer l running unanswered =>
    exact
      { written := rfl
        read := rfl
        answers := List.prefix_append _ _
        deaf := id
        ended := fun hw => absurd (hw.symm.trans running) (by decide)
        bounded := fun _ => by
          simpa [lines] using Nat.succ_le_of_lt unanswered }
  | deafen => exact { Later.refl w with deaf := fun _ => rfl }
  | finish => exact { Later.refl w with ended := fun _ => ⟨rfl, rfl⟩ }

/-- So do any number of steps. -/
theorem later_of_reflTransGen (h : Relation.ReflTransGen Step w u) : w.Later u := by
  induction h with
  | refl => exact Later.refl w
  | tail _ step ih => exact ih.trans step.later

theorem Later.lines_eq (h : w.Later u) : u.lines = w.lines := by
  rw [lines, lines, h.written]

/-- An answer keeps its place. -/
theorem Later.getElem? (h : w.Later u) {k : Nat} {l : Line} (hk : w.answers[k]? = some l) :
    u.answers[k]? = some l := by
  obtain ⟨more, hmore⟩ := h.answers
  rw [← hmore, List.getElem?_append_left (List.getElem?_eq_some_iff.1 hk).1]
  exact hk

/-- **A request that is sent is one more line**, if the last one was
complete. -/
theorem lines_send {line : String} (hw : lastLine [] w.written = []) (h : '\n' ∉ line.toList) :
    (w.send line).lines = w.lines ++ [line.toList] := by
  simp [lines, send, completeLines_append, hw, completeLines_of_not_mem h, lastLine_of_not_mem h,
    completeLines]

theorem lastLine_send {line : String} : lastLine [] (w.send line).written = [] := by
  simp [send, lastLine_append, lastLine]

/-- **As many lines were read as were sent**, or else there will be no more to
read. -/
def InStep (w : Wire) : Prop :=
  w.read = w.lines.length ∨ w.ended = true ∧ w.answers.length ≤ w.read

/-- **The peer cannot get out of step by itself.** It answers lines that it was
sent, so there are never more answers than lines, and if it has ended then there
are no more to come. -/
theorem InStep.later (h : w.InStep) (hu : w.Later u) : u.InStep := by
  rcases h with hread | ⟨hended, hdrained⟩
  · exact .inl (by rw [hu.read, hu.lines_eq, hread])
  · obtain ⟨hended, heq⟩ := hu.ended hended
    exact .inr ⟨hended, by rw [heq, hu.read]; exact hdrained⟩

end Wire

/-!
## Calls and the wire

That an answer belongs to a request is a statement about positions: the `k`-th
line that was sent and the `k`-th answer. The invariant has three parts. The
lines that were sent are those of the calls, in order. A call that has read a
line has read the answer in its own position. And as long as no wait was too
long, as many lines were read as were sent (`InStep`), so the next line to be
read is in the position of the next call.
-/

/-- **What the calls so far have to do with the wire**: the lines sent are
theirs, and the lines that were read are the answers to them. -/
structure Recorded (calls : List Call) (w : Wire) : Prop where
  lines : w.lines = (calls.filter Call.isSent).map Call.line
  whole : w.deaf = false → lastLine [] w.written = []
  bounded : w.answers.length ≤ w.lines.length
  paired : ∀ (k : Nat) (call : Call) (l : Line), (calls.filter Call.isSent)[k]? = some call →
    call.reply? = some l → w.answers[k]? = some l

namespace Recorded

variable {calls : List Call} {call : Call} {w u : Wire}

theorem start : Recorded [] {} where
  lines := rfl
  whole _ := rfl
  bounded := Nat.le_refl 0
  paired := by simp

/-- What the calls have to do with the wire does not change while the peer does
things by itself. -/
theorem later (h : Recorded calls w) (hu : w.Later u) : Recorded calls u where
  lines := hu.lines_eq.trans h.lines
  whole hdeaf := by
    rw [hu.written]
    exact h.whole (Bool.eq_false_iff.2 fun hw => by simp [hu.deaf hw] at hdeaf)
  bounded := hu.bounded h.bounded
  paired k call l hk hl := hu.getElem? (h.paired k call l hk hl)

/-- A call that sends nothing. -/
theorem append_unsent (h : Recorded calls w) (hcall : call.isSent = false) :
    Recorded (calls ++ [call]) w where
  lines := by simpa [hcall] using h.lines
  whole := h.whole
  bounded := h.bounded
  paired := by simpa [hcall] using h.paired

/-- A part of a line at the end. -/
theorem deafen (h : Recorded calls w) {part : List Char} (hpart : '\n' ∉ part) :
    Recorded calls { w with written := w.written ++ part, deaf := true } := by
  have hlines : ({ w with written := w.written ++ part, deaf := true } : Wire).lines = w.lines := by
    simp [Wire.lines, completeLines_append, completeLines_of_not_mem hpart]
  exact
    { lines := hlines.trans h.lines
      whole := nofun
      bounded := by rw [hlines]; exact h.bounded
      paired := h.paired }

/-- A call that sends its line, and may read the answer to it. -/
theorem append_sent (h : Recorded calls w) (hdeaf : w.deaf = false)
    (hu : (w.send (requestLine call.kind call.text)).Later u) (hcall : call.isSent = true)
    (hreply : ∀ l, call.reply? = some l → u.answers[w.lines.length]? = some l) :
    Recorded (calls ++ [call]) u := by
  have hsend := Wire.lines_send (h.whole hdeaf) (newline_not_mem_requestLine call.kind call.text)
  have hlength : w.lines.length = (calls.filter Call.isSent).length := by simp [h.lines]
  have hfilter : (calls ++ [call]).filter Call.isSent = calls.filter Call.isSent ++ [call] := by
    simp [hcall]
  refine ⟨?_, fun _ => ?_, hu.bounded ?_, fun k call' l hk hl => ?_⟩
  · rw [hu.lines_eq, hsend, hfilter, h.lines, List.map_append]
    rfl
  · rw [hu.written]
    exact Wire.lastLine_send
  · refine Nat.le_trans h.bounded ?_
    simp [hsend]
  · rw [hfilter] at hk
    rcases Nat.lt_or_ge k (calls.filter Call.isSent).length with hlt | hge
    · rw [List.getElem?_append_left hlt] at hk
      exact hu.getElem? (h.paired k call' l hk hl)
    · -- the last call is the only one whose answer may be new
      rw [List.getElem?_append_right hge, List.getElem?_singleton] at hk
      split at hk
      case isFalse => exact absurd hk (by simp)
      case isTrue hk' =>
        obtain rfl := Option.some.inj hk
        obtain rfl : k = w.lines.length := by omega
        exact hreply l hl

/-- **What one call does.** It reads the answer to its own line if it reads one,
and unless it has waited too long, as many lines were read afterwards as were
sent. -/
theorem append_awaits (h : Recorded calls w) (call : Call) (hstep : w.InStep) {a : Arrival}
    (ha : w.Awaits (requestLine call.kind call.text) a u) (hcall : call.arrival = some a) :
    Recorded (calls ++ [call]) u ∧ (a.isLate = false → u.InStep) := by
  cases ha with
  | unsent part before =>
    have hpart : '\n' ∉ part := fun hmem => newline_not_mem_requestLine _ _ (before.subset hmem)
    have hlines : Wire.lines { w with written := w.written ++ part, deaf := true } = w.lines := by
      simp [Wire.lines, completeLines_append, completeLines_of_not_mem hpart]
    refine ⟨(h.deafen hpart).append_unsent (by simp [Call.isSent, hcall, Arrival.isSent]),
      fun _ => ?_⟩
    rw [Wire.InStep, hlines]
    exact hstep
  | arrives l u listening meanwhile next =>
    have hu := Wire.later_of_reflTransGen meanwhile
    have hlines := hu.lines_eq.trans
      (Wire.lines_send (h.whole listening) (newline_not_mem_requestLine call.kind call.text))
    -- there is a line to read, and so the peer cannot have ended with all its lines read before
    have hread : u.read = w.lines.length := by
      rcases hstep with hread | ⟨hended, hdrained⟩
      · exact hu.read.trans hread
      · have hanswers : u.answers = w.answers := (hu.ended hended).2
        rw [hanswers, hu.read] at next
        exact absurd next (by simp [Wire.send, List.getElem?_eq_none hdrained])
    have hrecorded : Recorded (calls ++ [call]) u := by
      refine h.append_sent listening hu ?_ fun l' hl' => ?_
      · cases l <;> simp [Call.isSent, hcall, Arrival.isSent, Line.arrival]
      · obtain rfl : l = l' := by
          cases l <;> simpa [Call.reply?, hcall, Line.arrival, Arrival.reply?] using hl'
        rw [← hread]
        exact next
    refine ⟨⟨hrecorded.lines, hrecorded.whole, hrecorded.bounded, hrecorded.paired⟩, fun _ => ?_⟩
    left
    change u.read + 1 = u.lines.length
    simp [hlines, hread]
  | late u listening meanwhile =>
    refine ⟨h.append_sent listening (Wire.later_of_reflTransGen meanwhile) ?_ ?_, nofun⟩
    · simp [Call.isSent, hcall, Arrival.isSent]
    · simp [Call.reply?, hcall, Arrival.reply?]
  | closed u listening meanwhile ended drained =>
    refine ⟨h.append_sent listening (Wire.later_of_reflTransGen meanwhile) ?_ ?_,
      fun _ => .inr ⟨ended, drained⟩⟩
    · simp [Call.isSent, hcall, Arrival.isSent]
    · simp [Call.reply?, hcall, Arrival.reply?]

end Recorded

/-- **What the calls so far have to do with the conversation.** -/
structure Accounted (calls : List Call) (c : Conversation Wire) : Prop where
  recorded : Recorded calls c.peer
  returns : ∀ call ∈ calls, Returns c.timeout c.unreadable call.kind call.arrival call.result
  inStep : c.stalled = false → c.peer.InStep
  pieces : c.buffer.entries.map (·.text) = (calls.filter Call.isAccepted).map (·.text)
  stalled : c.stalled = true ↔ ∃ call ∈ calls, call.TimedOut
  silent : ∀ (before : List Call) (call : Call) (after : List Call),
    calls = before ++ call :: after → (call.arrival = none ↔ ∃ earlier ∈ before, earlier.TimedOut)

namespace Accounted

variable {calls : List Call} {c : Conversation Wire}

theorem start (timeout : Nat) (unreadable : String → String) :
    Accounted [] { peer := {}, timeout, unreadable } where
  recorded := .start
  returns _ h := absurd h List.not_mem_nil
  inStep _ := .inl rfl
  pieces := rfl
  stalled := by simp
  silent := by simp

/-- A step of the peer. -/
theorem peer (h : Accounted calls c) {w : Wire} (hw : c.peer.Later w) :
    Accounted calls { c with peer := w } where
  recorded := h.recorded.later hw
  returns := h.returns
  inStep hc := (h.inStep hc).later hw
  pieces := h.pieces
  stalled := h.stalled
  silent := h.silent

/-- What the last call of a list was made after. -/
theorem silent_append (h : Accounted calls c) {call : Call}
    (hcall : call.arrival = none ↔ c.stalled = true) (before : List Call) (call' : Call)
    (after : List Call) (heq : calls ++ [call] = before ++ call' :: after) :
    call'.arrival = none ↔ ∃ earlier ∈ before, earlier.TimedOut := by
  rcases List.eq_nil_or_concat' after with rfl | ⟨after, last, rfl⟩
  · obtain ⟨rfl, rfl⟩ := List.concat_inj.1 (by simpa using heq)
    rw [hcall, h.stalled]
  · rw [← List.cons_append, ← List.append_assoc] at heq
    obtain ⟨heq, -⟩ := List.append_inj' heq rfl
    exact h.silent before call' after heq

/-- What one more call returns is told by what arrives for it, and the others
have returned. -/
theorem returns_append (h : Accounted calls c) (m : Machine Wire) (kind : Request) (text : String) :
    ∀ call ∈ calls ++ [Call.of m kind text c],
      Returns c.timeout c.unreadable call.kind call.arrival call.result :=
  List.forall_mem_append.mpr
    ⟨h.returns, List.forall_mem_singleton.mpr (returns_of m kind text c)⟩

/-- A request to a conversation that is stalled. -/
theorem call_of_stalled (h : Accounted calls c) (hc : c.stalled = true) (m : Machine Wire)
    (kind : Request) (text : String) : Accounted (calls ++ [Call.of m kind text c]) c := by
  have harrival : (Call.of m kind text c).arrival = none := by simp [Call.of, hc]
  refine ⟨h.recorded.append_unsent ?_, h.returns_append m kind text, h.inStep, ?_,
    ⟨fun _ => ?_, fun _ => hc⟩, h.silent_append (by simp [harrival, hc])⟩
  · simp [Call.isSent, harrival]
  · rw [h.pieces]
    simp [Call.isAccepted, Call.reply?, harrival]
  · obtain ⟨call, hmem, htimedOut⟩ := h.stalled.1 hc
    exact ⟨call, List.mem_append_left _ hmem, htimedOut⟩

/-- **A request.** -/
theorem call (h : Accounted calls c) {m : Machine Wire} (hm : Wire.Obeyed m) (kind : Request)
    (text : String) :
    Accounted (calls ++ [Call.of m kind text c]) ((backend m).respond kind text c).2 := by
  cases hc : c.stalled with
  | true =>
    rw [respond_of_stalled m kind text c hc]
    exact h.call_of_stalled hc m kind text
  | false =>
    have harrival : (Call.of m kind text c).arrival
        = some (m (requestLine kind text) c.peer).1 := by simp [Call.of, hc]
    obtain ⟨hrecorded, hstep⟩ :=
      h.recorded.append_awaits (Call.of m kind text c) (h.inStep hc)
        (hm (requestLine kind text) c.peer) harrival
    rw [respond_of_not_stalled m kind text c hc]
    refine ⟨hrecorded, h.returns_append m kind text, hstep, ?_, ?_,
      h.silent_append (by simp [harrival, hc])⟩
    · cases hok : (Call.of m kind text c).isAccepted
      · simp [hok, h.pieces]
      · simp [hok, h.pieces, Buffer.push]
    · have hnone : ¬ ∃ call ∈ calls, call.TimedOut := by simp [← h.stalled, hc]
      rw [← timedOut_iff m kind text c hc]
      simp only [List.mem_append, List.mem_singleton]
      constructor
      · intro htimedOut
        exact ⟨_, .inr rfl, htimedOut⟩
      · rintro ⟨call, hmem | rfl, htimedOut⟩
        · exact absurd ⟨call, hmem, htimedOut⟩ hnone
        · exact htimedOut

end Accounted

/-- Nothing changes how long to wait and what is said of lines that hold no
answer. -/
theorem Talk.settings_eq {c₀ c : Conversation Wire} {calls : List Call} (h : Talk c₀ calls c) :
    c.timeout = c₀.timeout ∧ c.unreadable = c₀.unreadable := by
  induction h with
  | start => exact ⟨rfl, rfl⟩
  | peer _ _ ih => exact ih
  | @call calls c _ m _ kind text ih =>
    cases hc : c.stalled with
    | true => rwa [respond_of_stalled m kind text c hc]
    | false => rwa [respond_of_not_stalled m kind text c hc]

/-- Whatever the peer does and whatever is asked, the calls account for the
conversation. -/
theorem Talk.accounted {timeout : Nat} {unreadable : String → String} {calls : List Call}
    {c : Conversation Wire} (h : Talk { peer := {}, timeout, unreadable } calls c) :
    Accounted calls c := by
  induction h with
  | start => exact .start timeout unreadable
  | peer _ step ih => exact ih.peer step.later
  | call _ m obeyed kind text ih => exact ih.call obeyed kind text

/-- **Requests and answers are paired.** In a conversation over a wire, however
long and with whatever delays:

* the lines that the peer was sent are those of the calls that sent one, in
  order;
* if the `k`-th of these has read a line, it is the `k`-th answer, which is the
  one to its line;
* a call is neither sent nor waited for exactly if an earlier one has waited too
  long;
* what a call returns is told by what arrived, and if a line did, by the answer
  that the line holds;
* the program consists of the declarations and definitions for which the line
  that was read, their own answer, says that they are accepted.

The answer to a call that has waited too long is not read by it, nor by any
other. Until then every call that was sent has read one line, or there will be
no more, and so the next line that is there belongs to the next call. -/
theorem replies_paired {timeout : Nat} {unreadable : String → String} {calls : List Call}
    {c : Conversation Wire} (h : Talk { peer := {}, timeout, unreadable } calls c) :
    c.peer.lines = (calls.filter Call.isSent).map Call.line ∧
      (∀ (k : Nat) (call : Call) (l : Line), (calls.filter Call.isSent)[k]? = some call →
        call.reply? = some l → c.peer.answers[k]? = some l) ∧
      (∀ (before : List Call) (call : Call) (after : List Call), calls = before ++ call :: after →
        (call.arrival = none ↔ ∃ earlier ∈ before, earlier.TimedOut)) ∧
      (∀ call ∈ calls, Returns timeout unreadable call.kind call.arrival call.result) ∧
      ∀ m : Machine Wire, (backend m).program c
        = String.intercalate "\n" ((calls.filter Call.isAccepted).map (·.text)) := by
  have haccounted := h.accounted
  obtain ⟨htimeout, hunreadable⟩ := h.settings_eq
  refine ⟨haccounted.recorded.lines, haccounted.recorded.paired, haccounted.silent,
    fun call hcall => ?_, fun m => ?_⟩
  · have hreturns := haccounted.returns call hcall
    rwa [htimeout, hunreadable] at hreturns
  · rw [← haccounted.pieces]
    rfl

/-- The peer gives the same answer to every line, at once. -/
def prompt (l : Line) : Machine Wire := fun line w =>
  let u := w.send line
  if w.deaf then (.unsent, { w with written := w.written ++ [], deaf := true })
  else if w.ended = false ∧ w.answers.length = w.read ∧ w.answers.length < u.lines.length then
    (l.arrival, { u with answers := w.answers ++ [l], read := w.read + 1 })
  else (.late, u)

/-- A peer that answers at once keeps to the rules. -/
theorem obeyed_prompt (l : Line) : Wire.Obeyed (prompt l) := by
  intro line w
  simp only [prompt]
  split
  case isTrue => exact .unsent [] List.nil_prefix
  case isFalse hdeaf =>
    split
    case isTrue h =>
      exact .arrives l { w.send line with answers := w.answers ++ [l] } (by simpa using hdeaf)
        (.single (.answer l h.1 h.2.2)) (by simp [Wire.send, h.2.1])
    case isFalse => exact .late _ (by simpa using hdeaf) .refl

/-- The answer to a definition comes late, and says that it is accepted. It is
not taken for the answer to the next request, which is not sent, and the program
has neither of the two. -/
theorem late_reply_unpaired : ∃ (calls : List Call) (c : Conversation Wire),
    Talk { peer := {}, timeout := 50, unreadable := id } calls c ∧
      c.peer.answers = [.text "\x7b\"ok\":true\x7d", .text "[true]"] ∧
      calls.map (fun call => (call.isSent, call.reply?.isSome))
        = [(true, true), (true, false), (false, false)] ∧
      (∀ call ∈ calls, Returns 50 id call.kind call.arrival call.result) ∧
      ∀ m : Machine Wire, (backend m).program c = "int f();" := by
  have silence : Talk { peer := {}, timeout := 50, unreadable := id } []
    { peer := {}, timeout := 50, unreadable := id } := .start
  have first := silence.call (prompt (.text "\x7b\"ok\":true\x7d")) (obeyed_prompt _) .declare
    "int f();"
  have second := first.call Wire.idle Wire.obeyed_idle .define "int f() \x7b return 1; \x7d"
  have answered := second.peer
    (.answer (.text "[true]") (by decide +kernel) (by decide +kernel))
  have talk := answered.call (prompt (.text "[true]")) (obeyed_prompt _) .declare "int g();"
  obtain ⟨-, -, -, hreturns, hprogram⟩ := replies_paired talk
  refine ⟨_, _, talk, by decide +kernel, by decide +kernel, hreturns, fun m => ?_⟩
  rw [hprogram m]
  decide +kernel

end Peer

end Stagewise
