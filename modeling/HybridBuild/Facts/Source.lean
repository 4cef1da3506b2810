import HybridBuild.Bazel.Session
import HybridBuild.Facts.Basic
/-!
# Sources of facts

A build has one source of facts. A disabled source must not be asked anything; a
fixed one has its answers beforehand; a session has the answers that Bazel gave,
and queues the requests that have none.
-/
namespace HybridBuild

/-- Where a build's facts come from. -/
inductive FactSource where
  | disabled
  | fixed (f : FixedFacts)
  | session (s : Session)

/-- A use that a disabled source does not allow. -/
inductive Misuse where
  | requested (r : Request)
  | invoked
  deriving DecidableEq, Repr

def Misuse.message : Misuse → String
  | requested r => s!"requested {r} from a context with bazel disabled"
  | invoked => "invoked a context with bazel disabled"

/-- Why a source cannot be invoked. -/
inductive SourceError where
  | misuse (m : Misuse)
  | invoke (e : InvokeError)
  deriving DecidableEq, Repr

def SourceError.message : SourceError → String
  | misuse m => m.message
  | invoke e => e.message

namespace FactSource

def ofEnvironment (env : Environment) (buildDir : Path) (runner : Runner) :
    Except ConfigError FactSource :=
  if env.asksForMixedBuild then
    (BazelPaths.ofEnvironment env buildDir).map fun paths => .session (Session.start paths runner)
  else .ok .disabled

/-- What a source knows. -/
def facts : FactSource → Facts
  | disabled => { enabled := false, outputBase := none, answer? := fun _ => none }
  | fixed f => f.facts
  | session s =>
    { enabled := true, outputBase := some s.paths.outputBase, answer? := s.ledger.answer? }

/-- Whether modules may be delegated. -/
def enabled (src : FactSource) : Bool := src.facts.enabled

/-- The source after some requests have been asked of it. -/
def note (src : FactSource) (requests : List Request) : FactSource :=
  match src with
  | session s => session (s.askAll requests)
  | src => src

/-- Asks a source, and reads what it knows. -/
def consult {α : Type} (src : FactSource) (r : Request) (read : Facts → α) :
    Except Misuse α × FactSource :=
  match src with
  | disabled => (.error (.requested r), disabled)
  | src => (.ok (read src.facts), src.note [r])

/-- The answer to a request, once it is known. -/
def fact (src : FactSource) (r : Request) : Except Misuse (Option String) × FactSource :=
  src.consult r fun facts => facts.answer? r

def outputFiles (src : FactSource) (label : String) (arch : Arch) :
    Except Misuse (Option (List String)) × FactSource :=
  src.consult (Facts.outputFilesRequest label arch) fun facts => facts.outputFiles label arch

def ccInfo (src : FactSource) (label : String) (arch : Arch) :
    Except Misuse (Except QueryError (Option CcInfo)) × FactSource :=
  src.consult (Facts.ccInfoRequest label arch) fun facts => facts.ccInfo label arch

def statements : FactSource → List Statement
  | disabled => []
  | fixed f => f.statements
  | session s => s.statements

def pending : FactSource → List Request
  | disabled => []
  | fixed f => f.pending
  | session s => s.ledger.pending

def generatedFiles : FactSource → List Path
  | disabled => []
  | fixed f => f.generatedFiles
  | session s => s.generatedFiles

/-- Has a source settle its waiting requests. -/
def invoke (src : FactSource) (files : FileTree) :
    Except SourceError Unit × FactSource × FileTree :=
  match src with
  | disabled => (.error (.misuse .invoked), disabled, files)
  | fixed f => (.ok (), fixed f, files)
  | session s =>
    match s.invoke files with
    | (.ok (), s, files) => (.ok (), session s, files)
    | (.error e, s, files) => (.error (.invoke e), session s, files)

end FactSource

end HybridBuild
