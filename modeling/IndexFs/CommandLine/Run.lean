import IndexFs.CommandLine.Location
import IndexFs.CommandLine.Setup
import IndexFs.FileSystem.Session
import IndexFs.Log.Filter
import IndexFs.Tree

/-!
# Runs

A run of the program from its words to its exit code. It reads the configuration, opens its log, connects
to the index server if its command needs the index, and prints what it finds.
-/

namespace IndexFs.CommandLine

/-- What a connection meets. -/
inductive Network where
  /-- No connection can be made, for the reason that the system gives. -/
  | unreachable (reason : String)
  /-- A server answers for an index. -/
  | server (index : Index)

/-- All that a run depends on besides its words. -/
structure World where
  disk : Disk
  directories : Config.Surroundings
  /-- The log filter of the surroundings. -/
  logFilter : Option String
  network : Network
  processId : Nat

/-- What a run leaves behind. -/
structure Outcome where
  exitCode : Nat
  output : List UInt8
  error : Option Report
  log : List Log.Line
  /-- The messages that have reached the index. -/
  received : List Outgoing

/-! ## The log -/

/-- The part of the program that speaks about the whole run. -/
def programTarget : String := "lsif_fs"

def gateTarget : String := "lsif_fs::services::rpc::gate"

def transportTarget : String := "lsif_fs::services::rpc::transport"

def connectorTarget : String := "lsif_fs::services::rpc::connector"

/-- The line about the server that a run uses. -/
def serverLine (c : Config) : Log.Line :=
  ⟨.debug, programTarget, "Using index server at " ++ c.server.address⟩

/-- The lines about the answer to a request. -/
def answerLines (id : Nat) : Reply → List Log.Line
  | .silence => []
  | .answer (.ok _) => [⟨.trace, transportTarget, s!"<- response {id}"⟩]
  | .answer (.error (.server _ _)) => [⟨.trace, transportTarget, s!"<- response {id}"⟩]
  | .answer (.error _) => [⟨.debug, transportTarget, "Index server closed the connection"⟩]

/-- The lines about a request, the `id`th one of its connection. -/
def requestLines (index : Index) (id : Nat) (method : String) (params : Json) : List Log.Line :=
  ⟨.trace, transportTarget, s!"-> request {id} {method}"⟩ ::
    answerLines id (index (.request method params))

/-- The lines about an introduction. -/
def introductionLines (i : Introduction) : List Log.Line :=
  (match i.server with
    | none => []
    | some s =>
      [⟨.info, connectorTarget, "Initialized with " ++ s.name ++ " " ++ s.version.getD ""⟩]) ++
  [⟨.trace, transportTarget, "-> notification " ++ Handshake.notificationMethod⟩]

def readyLine : Log.Line :=
  ⟨.info, gateTarget, "Index server connection ready"⟩

def failedLine (e : ChannelError) : Log.Line :=
  ⟨.warn, gateTarget, "Index server connection failed: " ++ e.message⟩

/-- The error that a client sees when the index reports one. -/
def seenByClient : Except ChannelError Json → Except ChannelError Json
  | .error (.server code text) => .error (.server code text)
  | .error _ => .error .closed
  | .ok v => .ok v

/-- The lines about an introduction by the client. -/
def handshakeLines (index : Index) (params : Json) : List Log.Line :=
  requestLines index 1 Handshake.requestMethod params ++
    (match index (.request Handshake.requestMethod params) with
      | .silence => []
      | .answer r =>
        match Handshake.accept (seenByClient r) with
        | .ok i => introductionLines i ++ [readyLine]
        | .error e => [failedLine e])

/-- The lines about the connection that a configuration asks for. -/
def connectionLines (c : Config) (w : World) : List Log.Line :=
  [ ⟨.debug, gateTarget, "Connecting to index server"⟩,
    ⟨.debug, transportTarget, "Opening TCP connection to " ++ c.server.address⟩ ] ++
  match w.network with
  | .unreachable reason => [failedLine (.io reason)]
  | .server index =>
    if c.server.handshake then
      handshakeLines index (Handshake.params ⟨c.server.clientName, Handshake.version, w.processId⟩)
    else [readyLine]

/-! ## Reading -/

/-- A file system in use, the number of its next read, and the log so far. -/
structure Client where
  session : FileSystem.Session
  next : Nat
  log : List Log.Line

/-- A client that has not connected yet. -/
def Client.new (c : Config) (w : World) : Client :=
  let (fate, index) := match w.network with
    | .unreachable reason => (Fate.fails (.io reason), Index.constant .null)
    | .server index =>
      (Fate.opens (if c.server.handshake then some c.server.clientName else none), index)
  ⟨.new ⟨false, fate⟩ (.ofServer index none) c.statErrorsAsNotFound w.processId, 0, []⟩

/-- The lines about a read that starts at `before` and ends at `after`. -/
def Client.readLines (c : Config) (w : World) (before after : FileSystem.Session) (r : Read) :
    List Log.Line :=
  (if before.gate.connects = after.gate.connects then [] else connectionLines c w) ++
  match w.network, before.link, after.gate.state with
  | .server index, .framed channel _, .ready =>
    let id := if c.server.handshake && channel.nextId = 1 then 2 else channel.nextId
    if channel.closed then [] else requestLines index id r.method.name r.params
  | _, _, _ => []

/-- Reads, and waits for the result. There is none if the index never answers. -/
def Client.read (client : Client) (c : Config) (w : World) (r : Read) :
    Client × Option (Except FsError Value) :=
  let after := client.session.apply (.read client.next r)
  (⟨after, client.next + 1, client.log ++ Client.readLines c w client.session after r⟩,
    after.results.lookup client.next)

/-! ## Commands -/

/-- What a command has done so far: what it printed, and how it ended, if it did. -/
structure Progress where
  client : Client
  output : List UInt8
  /-- No result means that the command still waits for an answer. -/
  result : Option (Except Report Unit)

/-- The lines about the metadata of an entry. -/
def statText (s : FileStat) : String :=
  s!"kind:     {s.kind}\nsize:     {s.size}\ncreated:  {s.createdAt}\nmodified: {s.modifiedAt}\n"

/-- The lines about the entries of a directory. -/
def listText (entries : List DirectoryEntry) : String :=
  String.join (entries.map fun e => e.kind.name ++ "\t" ++ e.name ++ "\n")

/-- What is printed for a value. -/
def valueBytes : Value → List UInt8
  | .stat s => Utf8.ofString (statText s)
  | .content bytes => bytes
  | .listing entries => Utf8.ofString (listText entries)

/-- A command that asks one question. -/
def readOnce (client : Client) (c : Config) (w : World) (method : Method) (url : Url) : Progress :=
  match client.read c w ⟨method, url⟩ with
  | (client, none) => ⟨client, [], none⟩
  | (client, some (.error e)) => ⟨client, [], some (.error e.report)⟩
  | (client, some (.ok v)) => ⟨client, valueBytes v, some (.ok ())⟩

/-- The entries of a listing. -/
def entriesOf : Except FsError Value → Except FsError (List DirectoryEntry)
  | .ok (.listing entries) => .ok entries
  | .ok _ => .ok []
  | .error e => .error e

/-- Walks through at most so many directories. -/
def walkTree (client : Client) (c : Config) (w : World) (walk : Walk) : Nat → Progress
  | 0 => ⟨client, Utf8.ofString walk.text, none⟩
  | fuel + 1 =>
    match walk.error, walk.rest with
    | some e, _ => ⟨client, Utf8.ofString walk.text, some (.error e.report)⟩
    | none, [] => ⟨client, Utf8.ofString walk.text, some (.ok ())⟩
    | none, directory :: others =>
      match client.read c w ⟨.readDirectory, directory.url⟩ with
      | (client, none) => ⟨client, Utf8.ofString walk.text, none⟩
      | (client, some r) =>
        walkTree client c w (walk.resume directory others (entriesOf r)) fuel

/-- Runs a command, with a bound on the directories that it may walk through. -/
def execute (c : Config) (w : World) (command : Command) (fuel : Nat) : Progress :=
  let client := Client.new c w
  let withLocation (location : String) (f : Url → Progress) : Progress :=
    match readLocation location c.scheme with
    | .error r => ⟨client, [], some (.error r)⟩
    | .ok url => f url
  match command with
  | .stat location => withLocation location (readOnce client c w .statFile)
  | .list location => withLocation location (readOnce client c w .readDirectory)
  | .cat location => withLocation location (readOnce client c w .readFile)
  | .tree location depth =>
    withLocation location fun url => walkTree client c w (Walk.start depth url) fuel

/-- The outcome of a command that has ended. -/
def Progress.outcome? (p : Progress) (log : List Log.Line) : Option Outcome :=
  p.result.map fun r =>
    let received := p.client.session.link.received
    match r with
    | .ok () => ⟨0, p.output, none, log, received⟩
    | .error report => ⟨1, p.output, some report, log, received⟩

/-! ## The program -/

def versionText : String :=
  "lsif-fs " ++ Handshake.version ++ "\n"

/-- The outcome of a run that ends before its command starts. -/
def Outcome.failure (r : Report) : Outcome :=
  ⟨1, [], some r, [], []⟩

/-- Whether the log can be opened. -/
def openLog (disk : Disk) (a : Arguments) : Except Report Unit :=
  match a.logFile with
  | none => .ok ()
  | some path =>
    (disk.checkWrite path).mapError fun e =>
      (Report.ofMessage e.message).context "Failed to initialize logging"

/-- A run with a configuration. There is no outcome if it never ends, or does not within its bound. -/
def runWith (c : Config) (w : World) (command : Command) (fuel : Nat) : Option Outcome :=
  let p := execute c w command fuel
  let filter := Log.Filter.choose w.logFilter c.logLevel
  p.outcome? ((serverLine c :: p.client.log).filter fun l => filter.passes l.level l.target)

/-- A run whose words have been read. -/
def runArguments (w : World) (a : Arguments) (fuel : Nat) : Option Outcome :=
  match setup w.disk w.directories a with
  | .error e => some (.failure e.report)
  | .ok c =>
    match openLog w.disk a with
    | .error r => some (.failure r)
    | .ok () => runWith c w a.command fuel

end IndexFs.CommandLine
