import HybridBuild.Facts.Basic
import HybridBuild.Module.Graph
import HybridBuild.Variant.Basic
import HybridBuild.Variant.Copy
/-!
# Plans

A plan gives every variant of a module graph its outputs and at most one rule. The
modules are planned wave by wave, so the outputs of a module's dependencies are
known when its turn comes. A delegated variant, when facts may be used, takes its
outputs from a fact; as long as that has no answer, the variant is provisional: it
has no rule and no outputs, and its request is to be queued. Any other variant is
built from its sources and the outputs of its dependencies, each taken under the
same architecture or else the common one.
-/
namespace HybridBuild

/-- The outputs of the variants planned so far. -/
abbrev Outputs := Std.TreeMap Variant (List String)

/-- What one variant adds to a plan. -/
inductive Contribution where
  | ready (rule : Option Rule) (outputs : List String)
  | provisional

namespace ModuleDecl

def variant (m : ModuleDecl) (arch : Arch) : Variant := ⟨m.name, arch⟩

/-- The directory of a variant's outputs. -/
def variantDir (m : ModuleDecl) (outDir : Path) (arch : Arch) : Path :=
  (outDir.join m.name).join arch.label

/-- The outputs of a dependency that a variant sees. -/
def depOutputs (m : ModuleDecl) (arch : Arch) (outputs : Outputs) (dep : String) :
    Except PlanError (List String) :=
  match outputs[Variant.mk dep arch]?.or outputs[Variant.mk dep .common]? with
  | some paths => .ok paths
  | none => .error (.missingVariant (m.variant arch) dep)

/-- The inputs of a variant: its sources, then the outputs of its dependencies. -/
def inputs (m : ModuleDecl) (arch : Arch) (outputs : Outputs) :
    Except PlanError (List String) :=
  match m.deps.mapM (m.depOutputs arch outputs) with
  | .error e => .error e
  | .ok lists => .ok (m.srcs ++ lists.flatten)

/-- A command with its input and output paths filled in, the inputs first. -/
def expandCommand (cmd : String) (inputs outs : List String) : String :=
  replaceText (replaceText cmd "$(in)" (" ".intercalate inputs)) "$(out)" (" ".intercalate outs)

/-- Plans a variant from its sources. -/
def planNative (m : ModuleDecl) (outDir : Path) (outputs : Outputs) (arch : Arch) :
    Except PlanError Contribution :=
  match m.inputs arch outputs with
  | .error e => .error e
  | .ok inputs =>
    if m.kind = .filegroup then .ok (.ready none inputs)
    else match m.cmd with
      | none => .error (.noCommand (m.variant arch))
      | some cmd =>
        if m.outs.isEmpty then .error (.noOutputs (m.variant arch))
        else
          let outs := m.outs.map fun out => ((m.variantDir outDir arch).join out).text
          .ok (.ready (some {
            name := (m.variant arch).ruleName
            description := m.kind.label ++ " " ++ m.name
            command := expandCommand cmd inputs outs
            outputs := outs
            inputs }) outs)

/-- The request for the outputs of a variant whose Bazel target has a label. -/
def outputsRequest (m : ModuleDecl) (label : String) (arch : Arch) : Request :=
  if m.kind.isNativeCode then Facts.ccInfoRequest label arch
  else Facts.outputFilesRequest label arch

/-- The outputs of a variant's Bazel target, once they are known. -/
def bazelOutputs (m : ModuleDecl) (facts : Facts) (label : String) (arch : Arch) :
    Except PlanError (Option (List String)) :=
  if m.kind.isNativeCode then
    match facts.ccInfo label arch with
    | .error e => .error (.query (m.variant arch) e)
    | .ok info => .ok (info.map CcInfo.outputFiles)
  else .ok (facts.outputFiles label arch)

/-- Plans a variant whose Bazel target has the given outputs. -/
def planCopies (m : ModuleDecl) (facts : Facts) (outDir : Path) (arch : Arch)
    (files : List String) : Except PlanError Contribution :=
  if files.isEmpty then .ok (.ready none [])
  else
    let execroot := (facts.outputBase.map execroot).getD ⟨""⟩
    let copies := files.map (FileCopy.ofFile execroot (m.variantDir outDir arch))
    match FileCopy.collision? [] copies with
    | some (first, second) =>
      .error (.outputCollision (m.variant arch) first.file second.file second.target)
    | none =>
      .ok (.ready
        (some (FileCopy.rule (m.variant arch).ruleName ("bazel output " ++ m.name) copies))
        (copies.map FileCopy.target))

/-- Plans a variant from the facts about its Bazel target. -/
def planDelegated (m : ModuleDecl) (facts : Facts) (outDir : Path) (label : String)
    (arch : Arch) : Except PlanError Contribution :=
  match m.bazelOutputs facts label arch with
  | .error e => .error e
  | .ok none => .ok .provisional
  | .ok (some files) => m.planCopies facts outDir arch files

/-- Plans a variant, and tells the requests that it made. -/
def planVariant (m : ModuleDecl) (facts : Facts) (outDir : Path) (outputs : Outputs)
    (arch : Arch) : List Request × Except PlanError Contribution :=
  match m.delegate? with
  | some label =>
    if facts.enabled then
      ([m.outputsRequest label arch], m.planDelegated facts outDir label arch)
    else ([], m.planNative outDir outputs arch)
  | none => ([], m.planNative outDir outputs arch)

end ModuleDecl

/-- The rules and outputs of a module graph's variants. -/
structure Plan where
  rules : List Rule
  outputs : Outputs
  /-- The delegated variants whose outputs are not known yet. -/
  provisional : List Variant

namespace Plan

def empty : Plan := ⟨[], ∅, []⟩

def add (p : Plan) (c : Variant × Contribution) : Plan :=
  match c with
  | (v, .ready rule outputs) =>
    { p with rules := p.rules ++ rule.toList, outputs := p.outputs.insert v outputs }
  | (v, .provisional) =>
    { p with outputs := p.outputs.insert v [], provisional := p.provisional ++ [v] }

end Plan

/-- A planning pass: the requests that it made, and what came of it. -/
structure Pass (α : Type) where
  asked : List Request
  result : Except PlanError α

namespace Pass

/-- Plans some variants against the same outputs. The first that fails ends the
pass. The variants of a wave do not need each other, so they could as well be planned
side by side; of several that fail any may then be reported, and the first one is one
outcome that is allowed. -/
def ofVariants (facts : Facts) (outDir : Path) (outputs : Outputs) :
    List (ModuleDecl × Arch) → Pass (List (Variant × Contribution))
  | [] => ⟨[], .ok []⟩
  | (m, arch) :: rest =>
    match m.planVariant facts outDir outputs arch with
    | (asked, .error e) => ⟨asked, .error e⟩
    | (asked, .ok c) =>
      let later := ofVariants facts outDir outputs rest
      ⟨asked ++ later.asked, later.result.map ((m.variant arch, c) :: ·)⟩

def variantsOf (modules : List ModuleDecl) : List (ModuleDecl × Arch) :=
  modules.flatMap fun m => m.archs.map fun arch => (m, arch)

/-- Plans waves of modules on top of a plan. -/
def ofWaves (facts : Facts) (outDir : Path) (p : Plan) : List (List ModuleDecl) → Pass Plan
  | [] => ⟨[], .ok p⟩
  | wave :: rest =>
    match ofVariants facts outDir p.outputs (variantsOf wave) with
    | ⟨asked, .error e⟩ => ⟨asked, .error e⟩
    | ⟨asked, .ok contributions⟩ =>
      let later := ofWaves facts outDir (contributions.foldl Plan.add p) rest
      ⟨asked ++ later.asked, later.result⟩

def ofGraph (facts : Facts) (outDir : Path) (g : ModuleGraph) : Pass Plan :=
  ofWaves facts outDir .empty g.waves

end Pass

end HybridBuild
