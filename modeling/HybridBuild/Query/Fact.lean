import HybridBuild.Query.Kind
/-!
# Facts read from answers

An answer is trimmed before it is read. A list is written with a comma and a space
between its entries, and no text is the empty list. Compile and link facts are
five lists between bars: output files, static libraries, objects, include
directories and system include directories.
-/
namespace HybridBuild

/-- What stands between the entries of a list. -/
def entrySeparator : String := ", "

/-- The entries of a written list. -/
def readList (text : String) : List String :=
  if text.isEmpty then [] else splitText text entrySeparator

def writeList (entries : List String) : String := entrySeparator.intercalate entries

/-- The paths that an answer about output files lists. -/
def readOutputFiles (raw : String) : List String := readList (trimText raw)

/-- The compile and link facts of a native-code target. -/
structure CcInfo where
  outputFiles : List String
  objectFiles : List String
  staticLibraries : List String
  includes : List String
  systemIncludes : List String
  deriving DecidableEq, Repr

namespace CcInfo

def sectionCount : Nat := 5

/-- The facts that an answer holds. -/
def ofAnswer (raw : String) : Except QueryError CcInfo :=
  let raw := trimText raw
  match (raw.toList.splitOn '|').map String.ofList with
  | [outputFiles, staticLibraries, objectFiles, includes, systemIncludes] =>
    .ok {
      outputFiles := readList outputFiles
      objectFiles := readList objectFiles
      staticLibraries := readList staticLibraries
      includes := readList includes
      systemIncludes := readList systemIncludes }
  | sections => .error (.malformed QueryKind.ccInfo.name sectionCount sections.length raw)

/-- The answer that holds given facts. -/
def toAnswer (info : CcInfo) : String :=
  "|".intercalate ([info.outputFiles, info.staticLibraries, info.objectFiles, info.includes,
    info.systemIncludes].map writeList)

end CcInfo

end HybridBuild
