import RecordServer.Fault
import RecordServer.Json.Printer

/-!
# Replies

A `Reply` buffers the text that a handler writes and hands it to a `Sink` in chunks of at least `chunkSize` bytes. The
status is committed with the first chunk; as long as nothing is committed a failure is reported with its own status
and a JSON body, afterwards it can only abort the transfer.

A `Sink` is told what to do by `Call`s, may refuse to commit and to write, and keeps an account of all calls.
-/

namespace RecordServer

/-! ## Failures -/

/-- Who is to blame for a failure. -/
inductive Blame where
  /-- The request is invalid. -/
  | client
  /-- There is no such record. -/
  | notFound
  /-- Something went wrong here. -/
  | server
  /-- The response cannot be transferred. -/
  | transfer
  deriving DecidableEq, Repr

/-- The failure of a request. -/
structure Failure where
  blame : Blame
  fault : Fault
  deriving DecidableEq, Repr

instance : Inhabited Failure := ⟨⟨.server, default⟩⟩

namespace Blame

/-- The HTTP status that is reported. -/
def status : Blame → Nat
  | client => 400
  | notFound => 404
  | server => 500
  | transfer => 500

/-- How a failure begins in messages to the operator. -/
def title : Blame → String
  | client => "Client error"
  | notFound => "Not found"
  | server => "Server error"
  | transfer => "IO error"

end Blame

namespace Failure

/-- An invalid request. -/
def ofClient (cause : Cause) : Failure := ⟨.client, cause⟩

/-- A record which does not exist. -/
def ofMissing (cause : Cause) : Failure := ⟨.notFound, cause⟩

/-- A fault is the server's, unless the client has gone away. -/
def ofFault (fault : Fault) : Failure := ⟨if fault.isCancelled then .transfer else .server, fault⟩

/-- The client has gone away. -/
def cancelled : Failure := ⟨.transfer, Cause.cancelled⟩

/-- The message for the client. -/
def message (describe : External → String) (failure : Failure) : String := failure.fault.text describe

/-- The message for the operator. -/
def display (describe : External → String) (failure : Failure) : String :=
  failure.blame.title ++ ": " ++ failure.message describe

/-- The JSON body which reports a failure. -/
def body (describe : External → String) (failure : Failure) : String :=
  Json.print (.map [("error", .string (failure.message describe))])

end Failure

/-! ## Sinks -/

/-- What a sink is told. -/
inductive Call where
  | commit (status : Nat)
  | write (chunk : String)
  | abort (failure : Failure)
  deriving DecidableEq, Repr

/-- A call and the failure with which it was refused. -/
structure Entry where
  call : Call
  refusal : Option Failure
  deriving DecidableEq, Repr

/-- A sink decides from its account, the latest entry first, whether it refuses the next commit or write. -/
structure Sink where
  refuse : List Entry → Call → Option Failure
  account : List Entry

namespace Sink

/-- A sink which never refuses anything. -/
def willing : Sink := ⟨fun _ _ => none, []⟩

/-- One call: its refusal, if any, and the sink with the call in its account. -/
def call (sink : Sink) (c : Call) : Option Failure × Sink :=
  let refusal := match c with
    | .abort _ => none
    | c => sink.refuse sink.account c
  (refusal, { sink with account := ⟨c, refusal⟩ :: sink.account })

/-- The committed status. -/
def status? (sink : Sink) : Option Nat :=
  sink.account.reverse.findSome? fun
    | ⟨.commit status, none⟩ => some status
    | _ => none

/-- The chunks which have been written, the first one first. -/
def chunks (sink : Sink) : List String :=
  sink.account.reverse.filterMap fun
    | ⟨.write chunk, none⟩ => some chunk
    | _ => none

/-- The body which has been written. -/
def body (sink : Sink) : String := String.join sink.chunks

/-- The failure with which the transfer has been aborted. -/
def aborted? (sink : Sink) : Option Failure :=
  sink.account.findSome? fun
    | ⟨.abort failure, _⟩ => some failure
    | _ => none

end Sink

/-! ## Replies -/

/-- Buffered text in front of a sink. -/
structure Reply where
  sink : Sink
  buffer : String
  committed : Bool

namespace Reply

/-- The number of bytes from which on the buffer is handed over. -/
def chunkSize : Nat := 8192

/-- A reply that has not begun. -/
def ofSink (sink : Sink) : Reply := ⟨sink, "", false⟩

/-- The result of an action which may fail, and the reply after it. -/
abbrev Outcome := Except Failure Unit × Reply

/-- A call as the outcome of an action. -/
def tell (reply : Reply) (c : Call) : Outcome :=
  match reply.sink.call c with
  | (none, sink) => (.ok (), { reply with sink := sink })
  | (some failure, sink) => (.error failure, { reply with sink := sink })

/-- Writes the buffered text. -/
def writeOut (reply : Reply) : Outcome :=
  if reply.buffer.isEmpty then (.ok (), reply)
  else { reply with buffer := "" }.tell (.write reply.buffer)

/-- Commits the status, if this has not been done, and writes the buffered text. -/
def flush (reply : Reply) : Outcome :=
  if reply.committed then reply.writeOut
  else
    match { reply with committed := true }.tell (.commit 200) with
    | (.ok (), reply) => reply.writeOut
    | (.error failure, reply) => (.error failure, reply)

/-- Appends text, and hands the buffer over once it is long enough. -/
def append (reply : Reply) (text : String) : Outcome :=
  let reply := { reply with buffer := reply.buffer ++ text }
  if chunkSize ≤ reply.buffer.utf8ByteSize then reply.flush else (.ok (), reply)

/-- Ends a reply after a success. -/
def complete (reply : Reply) : Outcome := reply.flush

/-- Ends a reply after a failure: with the failure as the response, or by aborting what has been committed. -/
def fail (describe : External → String) (reply : Reply) (failure : Failure) : Reply :=
  if reply.committed then (reply.tell (.abort failure)).2
  else
    match { reply with buffer := "" }.tell (.commit failure.blame.status) with
    | (.ok (), reply) => (reply.tell (.write (failure.body describe))).2
    | (.error _, reply) => reply

end Reply

end RecordServer
