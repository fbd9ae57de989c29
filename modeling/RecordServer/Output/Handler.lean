import RecordServer.Output.Basic
import RecordServer.Reply
import RecordServer.Request

/-!
# Handling requests

`Output.handle` answers a request: it checks the parameters, executes the query, and writes the records one by one as
they are loaded. `Output.dispatch` ends the reply, with the failure if there is one.

A handler works on an `Exchange`, the session in which records are loaded together with the reply; both are kept when
it fails.
-/

namespace RecordServer

/-- What a handler works on. -/
structure Exchange where
  session : Session
  reply : Reply

/-- What handles a request and may fail. -/
abbrev Handler := ExceptT Failure (StateM Exchange)

namespace Handler

/-- Fails. -/
def fail (failure : Failure) : Handler α := ExceptT.mk fun x => (.error failure, x)

/-- What runs within the session. -/
def within (action : Session.Run α) : Handler α := ExceptT.mk fun x =>
  match action.run x.session with
  | (.ok a, session) => (.ok a, { x with session := session })
  | (.error fault, session) => (.error (.ofFault fault), { x with session := session })

/-- Appends text to the reply. -/
def write (text : String) : Handler Unit := ExceptT.mk fun x =>
  let (outcome, reply) := x.reply.append text
  (outcome, { x with reply := reply })

/-- Fails if the client has gone away. -/
def checkpoint : Handler Unit := ExceptT.mk fun x =>
  let (cancelled, watch) := x.session.watch.ask
  (if cancelled then .error .cancelled else .ok (), { x with session := { x.session with watch := watch } })

/-- A result which does not depend on the exchange. -/
def lift (a : Except Failure α) : Handler α := ExceptT.mk fun x => (a, x)

/-- The result of a check of the request. -/
def check (a : Except Cause α) : Handler α :=
  lift (a.mapError Failure.ofClient)

end Handler

namespace Output

/-! ## Parameters -/

/-- An integer of 64 bits, blanks around it being ignored. -/
def readInteger? (text : String) : Option Int64 :=
  (Decimal.integer? (Text.trimChars text.toList)).bind Format.ofInteger?

/-- The number of records to deliver at most. -/
def limitOf (limit : Config.Limit) (request : Request) : Except Cause Nat :=
  match request.parameter? limit.parameter with
  | none => .ok limit.default
  | some raw =>
    match readInteger? raw with
    | some n => if 0 < n.toInt then .ok (min n.toInt.toNat limit.max) else .error (.limitNotPositive limit.parameter)
    | none => .error (.limitNotPositive limit.parameter)

/-- The number of records to pass over. -/
def offsetOf (parameter : String) (request : Request) : Except Cause Nat :=
  match request.parameter? parameter with
  | none => .ok 0
  | some raw =>
    match readInteger? raw with
    | some n => if 0 ≤ n.toInt then .ok n.toInt.toNat else .error (.offsetNegative parameter)
    | none => .error (.offsetNegative parameter)

/-- Accepts requests without parameters that are unknown. -/
def checkParameters (o : Output) (request : Request) : Except Cause Unit :=
  match (request.parameters.map Prod.fst).find? fun name => !o.hasParameter name with
  | some name => .error (.unknownParameter name)
  | none => .ok ()

/-- Adds the filter of a binding to a query, given the text of its value. -/
def applyBinding (parsers : Parsers) (q : Query) (b : Binding) (raw : String) : Except Failure Query :=
  match parsers.parse b.parser raw with
  | .ok value => .ok (q.filter b.index b.property value)
  | .error fault => .error ⟨.client, fault.outermost.within (.parsingParameter b.name)⟩

/-- Adds the filters of bindings which have a value. -/
def applyBindings (parsers : Parsers) (valueOf : Binding → Option String) : Query → List Binding → Except Failure Query
  | q, [] => .ok q
  | q, b :: rest =>
    match valueOf b with
    | none => applyBindings parsers valueOf q rest
    | some raw => do applyBindings parsers valueOf (← applyBinding parsers q b raw) rest

/-- Adds the filters of bindings with their texts. -/
def applyCaptured (parsers : Parsers) : Query → List (Binding × String) → Except Failure Query
  | q, [] => .ok q
  | q, (b, raw) :: rest => do applyCaptured parsers (← applyBinding parsers q b raw) rest

/-! ## Records -/

/-- Loads the record at a position with its related records. -/
def loadRecord (o : Output) (position : Position) : Session.Run Record := do
  let r ← Session.load o.input position
  Relation.resolveAll o.relations r

/-- Passes over positions. -/
def skip : Nat → Feed → Handler Feed
  | 0, feed => return feed
  | n + 1, feed => do
    match ← Handler.within (Session.pull feed) with
    | (none, feed) => return feed
    | (some (.ok _), feed) => skip n feed
    | (some (.error fault), _) => Handler.fail (.ofFault fault)

/-- Writes records with commas between them, up to a number; `first` tells whether none has been written. -/
def writeRecords (o : Output) : Nat → Bool → Feed → Handler Unit
  | 0, _, _ => return
  | n + 1, first, feed => do
    match ← Handler.within (Session.pull feed) with
    | (none, _) => return
    | (some (.error fault), _) => Handler.fail (.ofFault fault)
    | (some (.ok position), feed) =>
      let r ← Handler.within (o.loadRecord position)
      if !first then Handler.write ","
      Handler.write (Json.print r.toValue)
      writeRecords o n false feed

/-! ## Deliveries -/

/-- Answers with a list of records. -/
def handleList (o : Output) (limit : Config.Limit) (offsetParameter : String) (request : Request) : Handler Unit := do
  let count ← Handler.check (limitOf limit request)
  let offset ← Handler.check (offsetOf offsetParameter request)
  Handler.check (o.checkParameters request)
  let query ← Handler.lift (applyBindings o.input.parsers (fun b => request.parameter? b.name) .all o.bindings)
  let feed ← Handler.within (Session.execute query o.input)
  let feed ← skip offset feed
  Handler.checkpoint
  Handler.write "["
  o.writeRecords count true feed
  Handler.write "]"

/-- Answers with the first record. -/
def handleSingle (o : Output) (route : Route) (request : Request) : Handler Unit := do
  match route.match? request.path.toList with
  | none => Handler.fail (.ofMissing (.unknownPath request.path))
  | some values =>
    let query ← Handler.lift (applyCaptured o.input.parsers .all (o.bindings.zip (values.map String.ofList)))
    let feed ← Handler.within (Session.execute query o.input)
    match ← Handler.within (Session.pull feed) with
    | (none, _) => Handler.fail (.ofMissing (.noMatch request.path))
    | (some (.error fault), _) => Handler.fail (.ofFault fault)
    | (some (.ok position), _) =>
      let r ← Handler.within (o.loadRecord position)
      Handler.write (Json.print r.toValue)

/-- Answers a request. -/
def handle (o : Output) (request : Request) : Handler Unit :=
  match o.delivery with
  | .list limit offset => o.handleList limit offset request
  | .single route => o.handleSingle route request

/-- How a request has ended, what happened on the way, and the sink with the response. After a fatal fault there is no
response. -/
structure Dispatched where
  outcome : Except Failure Unit
  watch : Watch
  sink : Sink

/-- Answers a request and ends the reply. -/
def dispatch (describe : External → String) (fs : FileSystem) (o : Output) (request : Request) (watch : Watch)
    (sink : Sink) : Dispatched :=
  match ExceptT.run (o.handle request) ⟨.new fs watch, .ofSink sink⟩ with
  | (.ok (), x) =>
    let (outcome, reply) := x.reply.complete
    ⟨outcome, x.session.watch, reply.sink⟩
  | (.error failure, x) =>
    if failure.fault.isFatal then ⟨.error failure, x.session.watch, x.reply.sink⟩
    else ⟨.error failure, x.session.watch, (x.reply.fail describe failure).sink⟩

end Output

end RecordServer
