import HybridBuild.Action.Statement
import HybridBuild.Query.Fact
/-!
# Facts

While modules are planned, the facts known about Bazel's targets do not change:
a request has its answer or has none. Facts may be fixed beforehand, as a source of
facts that never runs Bazel; canned ones answer every request, with an empty fact
where none was given.
-/
namespace HybridBuild

/-- What is known about Bazel's targets. -/
structure Facts where
  /-- Whether modules may be delegated at all. -/
  enabled : Bool
  outputBase : Option Path
  answer? : Request → Option String

namespace Facts

def outputFilesRequest (label : String) (arch : Arch) : Request :=
  ⟨label, QueryKind.outputFiles.name, arch⟩

def ccInfoRequest (label : String) (arch : Arch) : Request :=
  ⟨label, QueryKind.ccInfo.name, arch⟩

/-- The output files of a target, once they are known. -/
def outputFiles (f : Facts) (label : String) (arch : Arch) : Option (List String) :=
  (f.answer? (outputFilesRequest label arch)).map readOutputFiles

/-- The compile and link facts of a target, once they are known. -/
def ccInfo (f : Facts) (label : String) (arch : Arch) : Except QueryError (Option CcInfo) :=
  match f.answer? (ccInfoRequest label arch) with
  | none => .ok none
  | some raw => (CcInfo.ofAnswer raw).map some

end Facts

structure FixedFacts where
  facts : Facts
  statements : List Statement
  pending : List Request
  generatedFiles : List Path

/-- Answers given beforehand, by canonical label, kind and architecture. -/
structure CannedFacts where
  outputBase : Path
  answers : Std.TreeMap Request String
  statements : List Statement

namespace CannedFacts

def empty (outputBase : Path) : CannedFacts := ⟨outputBase, ∅, []⟩

def canonicalRequest (r : Request) : Request := { r with label := r.canonical }

def withOutputFiles (c : CannedFacts) (label : String) (arch : Arch) (files : List String) :
    CannedFacts :=
  { c with answers :=
      c.answers.insert (canonicalRequest (Facts.outputFilesRequest label arch)) (writeList files) }

def withCcInfo (c : CannedFacts) (label : String) (arch : Arch) (info : CcInfo) : CannedFacts :=
  { c with answers :=
      c.answers.insert (canonicalRequest (Facts.ccInfoRequest label arch)) info.toAnswer }

def withStatements (c : CannedFacts) (statements : List Statement) : CannedFacts :=
  { c with statements }

/-- The answer to a request for which none was given. -/
def emptyAnswer (kind : String) : String :=
  if kind = QueryKind.ccInfo.name then "||||" else ""

def answer (c : CannedFacts) (r : Request) : String :=
  c.answers.getD (canonicalRequest r) (emptyAnswer r.kind)

/-- Canned facts as a source: every request has an answer, and none waits. -/
def toFixed (c : CannedFacts) : FixedFacts where
  facts := { enabled := true, outputBase := some c.outputBase, answer? := fun r => some (c.answer r) }
  statements := c.statements
  pending := []
  generatedFiles := []

end CannedFacts

end HybridBuild
