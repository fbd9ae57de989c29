import RecordServer.Encryption.Certificate
import RecordServer.Encryption.PrivateKey
import RecordServer.Output.Handler
import RecordServer.Service.Address

/-!
# Servers

A `Server` offers some of the outputs of a site. `Server.create` checks the configuration of a service: its outputs,
the certificate and the private key for encrypted connections, which have to fit, and the address. `Server.respond`
answers a request with the first output that accepts its path.
-/

namespace RecordServer

/-- A service that has been set up. -/
structure Server where
  name : String
  listen : String
  address : Address
  isSecure : Bool
  outputs : List Output

namespace Server

/-! ## From the configuration -/

/-- The outputs which a service names, the first of them with the given index. -/
def namedOutputs (site : Site) (place : String) : Nat → List String → Except Fault (List Output)
  | _, [] => return []
  | n, name :: rest =>
    match site.outputs.lookup name with
    | none => .error (Fault.located (place ++ ".outputs[" ++ toString n ++ "]") (.unknownOutput name))
    | some output => do return output :: (← namedOutputs site place (n + 1) rest)

/-- Accepts outputs with different endpoints, given those before them. -/
def checkEndpoints (place : String) (before : List Output) : List Output → Except Fault Unit
  | [] => .ok ()
  | output :: rest =>
    match before.find? fun other => other.endpoint == output.endpoint with
    | some other =>
      .error (Fault.located (place ++ ".outputs") (.sharedEndpoint output.endpoint other.name output.name))
    | none => checkEndpoints place (before ++ [output]) rest

/-- The outputs of a service: those which it names, or all. -/
def selectOutputs (site : Site) (place : String) (names : Option (List String)) : Except Fault (List Output) := do
  let outputs ← match names with
    | some names => namedOutputs site place 0 names
    | none => .ok (site.outputs.map Prod.snd)
  checkEndpoints place [] outputs
  return outputs

/-- The bytes of a file which is given at a place of the configuration. A directory can be opened as well, but nothing
can be read from it. -/
def readPem (fs : FileSystem) (place file : String) (parsing : Context) : Except Fault (List UInt8) :=
  match fs.file? file with
  | some f => .ok f.content
  | none =>
    let fault := Fault.external .io
    .error (if fs.isDirectory file then fault.within parsing else (fault.within (.opening file)).within (.place place))

/-- The certificate for which the private key of a service is used: the first one in a file. -/
def readCertificate (fs : FileSystem) (place file : String) : Except Fault (List UInt8) := do
  match Pem.certificates? (← readPem fs place file (.parsingCertificates place)) with
  | none => .error ((Fault.external .io).within (.parsingCertificates place))
  | some [] => .error (Fault.located place (.noCertificate file))
  | some (certificate :: _) => .ok certificate

/-- The private key of a service: the first one in a file. -/
def readPrivateKey (fs : FileSystem) (place file : String) : Except Fault (Pem.KeyForm × List UInt8) := do
  match Pem.privateKey (← readPem fs place file (.parsingPrivateKey place)) with
  | .found form bytes => .ok (form, bytes)
  | .missing => .error (Fault.located place (.noPrivateKey file))
  | .malformed => .error ((Fault.external .io).within (.parsingPrivateKey place))

/-- Why a certificate and a private key do not fit, if so. The key is looked at first. -/
def mismatch? (certificate : List UInt8) (form : Pem.KeyForm) (key : List UInt8) : Option Mismatch :=
  match PrivateKey.publicKey? form key with
  | none => some .unusableKey
  | some publicKey =>
    match Certificate.publicKey certificate with
    | .error flaw => some (.unusableCertificate flaw)
    | .ok stated => if stated = publicKey then none else some .otherKey

/-- Accepts the files for encrypted connections. -/
def checkEncryption (fs : FileSystem) (place : String) (e : Config.Encryption) : Except Fault Unit := do
  let certificate ← readCertificate fs (place ++ ".certificate") e.certificate
  let (form, key) ← readPrivateKey fs (place ++ ".privateKey") e.privateKey
  match mismatch? certificate form key with
  | some reason => .error (Fault.located place (.mismatch reason))
  | none => .ok ()

/-- The address at which a service listens, if it is free besides those which are taken. -/
def freeAddress? (taken : List Address) (text : String) : Option Address :=
  (Address.ofText? text).filter fun a => a.isOwn && !taken.any a.conflicts

/-- The server for a service, besides those at the addresses which are taken. -/
def create (fs : FileSystem) (site : Site) (taken : List Address) (name : String) (config : Config.Service) :
    Except Fault Server := do
  let place := "services." ++ name
  let outputs ← selectOutputs site place config.outputs
  config.encryption.forM (checkEncryption fs place)
  match freeAddress? taken config.listen with
  | some address => return ⟨name, config.listen, address, config.encryption.isSome, outputs⟩
  | none => .error ((Fault.external .io).within (.listening (place ++ ".listen") config.listen))

/-- The servers for all services, one after the other, behind those which have been set up. -/
def createAll (fs : FileSystem) (site : Site) (servers : List Server) :
    List (String × Config.Service) → Except Fault (List Server)
  | [] => .ok servers
  | (name, config) :: rest => do
    let server ← create fs site (servers.map Server.address) name config
    createAll fs site (servers ++ [server]) rest

/-- Sets up the site and the servers of a configuration, and gives the file system afterwards. -/
def start (fs : FileSystem) (config : Config) : Except Fault (Site × List Server) × FileSystem :=
  match Site.ofConfig fs config with
  | (.error fault, fs) => (.error fault, fs)
  | (.ok site, fs) => ((createAll fs site [] config.services).map fun servers => (site, servers), fs)

/-! ## Responding -/

/-- A response over HTTP. -/
structure Response where
  status : Nat
  contentType : String
  body : String
  deriving DecidableEq, Repr

/-- A response which reports what is wrong with a request. -/
def refusal (status : Nat) (message : String) : Response :=
  ⟨status, Output.contentType, Json.print (.map [("error", .string message)])⟩

/-- The path and the query of a target. -/
def splitTarget (target : String) : String × Option String :=
  let cs := target.toList.takeWhile (· ≠ '#')
  match cs.span (· ≠ '?') with
  | (path, _ :: query) => (String.ofList path, some (String.ofList query))
  | (path, []) => (String.ofList path, none)

/-- The first output which accepts a path. -/
def route (s : Server) (path : String) : Option Output := s.outputs.find? fun o => o.accepts path

/-- The response of an output to a request which is not cancelled. -/
def deliver (describe : External → String) (fs : FileSystem) (o : Output) (request : Request) : Response :=
  let done := o.dispatch describe fs request .never .willing
  match done.sink.status? with
  | some status => ⟨status, Output.contentType, done.sink.body⟩
  | none => refusal 500 "The output didn't produce a response."

/-- The response to a request. -/
def respond (describe : External → String) (fs : FileSystem) (s : Server) (method target : String) : Response :=
  if method ≠ "GET" then
    let r := refusal 405 ("The method " ++ method ++ " is not supported.")
    if method = "HEAD" then { r with body := "" } else r
  else
    let (path, query) := splitTarget target
    let request := Request.ofRaw path query
    match s.route request.path with
    | some o => deliver describe fs o request
    | none => refusal 404 ("Unknown endpoint: " ++ request.path)

end Server

end RecordServer
