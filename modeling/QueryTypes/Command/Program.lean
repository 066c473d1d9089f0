import QueryTypes.Command.Order
import QueryTypes.Config.Origin
import QueryTypes.Config.Reader
import QueryTypes.Console
import QueryTypes.Watch.Session

/-! The program: it carries out what a command line asks for and says what comes of it. For a
generation, flags are looked at before any file, then the configuration, then the arguments that
change it, and last where the schema comes from. -/

namespace QueryTypes

/-! ### Orders that are prepared -/

/-- Why an order is not carried out. -/
inductive Refusal
  | usage (e : UsageError)
  | failure (f : Failure)
deriving DecidableEq

/-- What was decided on for an order. -/
structure Plan where
  order : GenerateOrder
  request : Request
  client : ClientConfig
  setup : LogSetup

namespace GenerateOrder

def plan (o : GenerateOrder) (env : Table String) (w : World) : Except Refusal Plan := do
  let request ← (Request.ofFlags o.flags).mapError fun e => .failure (.configuration e.message)
  let config ← (ConfigFile.load w.tree w.cwd env o.config).mapError fun e => .failure e.failure
  let client ← (config.client.override o.arguments).mapError fun e =>
    .usage ⟨.generate, .header e⟩
  return {
    order := o
    request := { request with templateTag := client.templateTag }
    client := client
    setup := if o.verbose || config.logLevel == "debug" then .verbose else .usual }

end GenerateOrder

namespace Plan

/-- What is said before the work begins. -/
def introduction (p : Plan) : String :=
  if p.order.verbose then
    "Target: " ++ p.request.target.text ++ "\nOutput: " ++ p.request.outputPath ++ "\nIncludes: "
      ++ Text.joinWith ", " p.client.includes ++ "\n"
  else ""

def session (p : Plan) (w : World) : Except Failure Session := do
  let origin ← p.client.schema.origin
  return ⟨w, Project.ofClient p.client (some origin) w.cwd, none⟩

def watchState (p : Plan) (terminal : Bool) : WatchState :=
  WatchState.ofRequest p.request p.client.includes terminal

def subscription (p : Plan) (state : WatchState) (w : World) : Subscription :=
  Subscription.ofState state p.client.excludes w.cwd

/-- Generates with the emitters that come with the program, onto a disk that refuses nothing. -/
def backend : Generation → Work Nat := Generation.run Emitters.builtin Refusals.none

end Plan

/-! ### Commands -/

def programVersion : String := "0.1.0"

/-- What a command leaves behind. A breakdown ends it without a message of its own. -/
structure CommandResult where
  status : Nat
  stdout : String
  stderr : String
  breakdown : Option Fault
  world : World

namespace CommandResult

def said (stdout : String) (w : World) : CommandResult := ⟨0, stdout, "", none, w⟩

/-- Adds what was said and logged before the end. -/
def after (stdout : String) (setup : LogSetup) (r : CommandResult) : CommandResult :=
  { r with
    stdout := stdout ++ r.stdout
    stderr := String.join ((setup.onConsole r.world.log).map fun l => l ++ "\n") ++ r.stderr }

def ofFailure (w : World) : Failure → CommandResult
  | .breakdown f => ⟨1, "", "", some f, w⟩
  | f => ⟨1, "", "Error: " ++ f.text ++ "\n", none, w⟩

def ofRefusal (w : World) : Refusal → CommandResult
  | .usage e => ⟨2, "", e.text, none, w⟩
  | .failure f => ofFailure w f

def ofEnding (w : World) : Option Ending → CommandResult
  | some (.failed f) => ofFailure w f
  | _ => said "" w

end CommandResult

namespace Plan

def generate (send : HttpRequest → Work HttpReply) (p : Plan) (s : Session) : CommandResult :=
  match (Pipeline.run send backend p.request).perform s with
  | (.ok n, s) => .said ("Done! Wrote " ++ toString n ++ " files.\n") s.world
  | (.error f, s) => .ofFailure s.world f

/-- Watches without a terminal, on a source that gives its events at once. -/
def watch (send : HttpRequest → Work HttpReply) (p : Plan) (events : List SourceEvent) (s : Session) :
    CommandResult :=
  let state := p.watchState false
  let opening := (p.subscription state s.world).start
  let (ending, watched) := s.watch send backend p.request state opening events
  .ofEnding watched.session.world ending

end Plan

namespace Program

def generate (send : HttpRequest → Work HttpReply) (env : Table String) (o : GenerateOrder)
    (events : List SourceEvent) (w : World) : CommandResult :=
  match o.plan env w with
  | .error r => .ofRefusal w r
  | .ok p =>
    let result : CommandResult := match p.session w with
      | .error f => .ofFailure w f
      | .ok s => if o.watch then p.watch send events s else p.generate send s
    result.after p.introduction p.setup

def init (force : Bool) (w : World) : CommandResult :=
  match ConfigFile.putStarter force w.tree w.cwd with
  | .ok t => .said ("Wrote " ++ configFileName ++ "\n") { w with tree := t }
  | .error f => .ofFailure w f

def isDir (w : World) (path : String) : Bool :=
  ((w.tree.findText? w.cwd path).map w.tree.isDir).getD false

/-- Carries out a command line. The log of the world begins anew. -/
def run (send : HttpRequest → Work HttpReply) (env : Table String) (events : List SourceEvent)
    (args : List String) (w : World) : CommandResult :=
  let w := { w with log := [] }
  match Order.ofArgs (isDir w) args with
  | .error e => .ofRefusal w (.usage e)
  | .ok (.help c) => .said ("Usage: " ++ c.usage ++ "\n") w
  | .ok .version => .said ("gql-clientgen, version " ++ programVersion ++ "\n") w
  | .ok (.init force) => init force w
  | .ok (.generate o) => generate send env o events w

end Program
end QueryTypes
