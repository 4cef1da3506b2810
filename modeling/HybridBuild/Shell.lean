/-!
# Words of a shell command

A text becomes one word of a shell command. Plain words stay as they are; any
other text stands between single quotes, which it leaves for each single quote
and exclamation mark, writing that character after a backslash.
-/
namespace HybridBuild.Shell

/-- Whether a character needs no quoting. -/
def isPlain (c : Char) : Bool :=
  c.isAlphanum || ['-', '_', '=', '/', ',', '.', '+'].contains c

/-- A character as it stands in a quoted word. -/
def quoteChar (c : Char) : List Char :=
  if c = '\'' ∨ c = '!' then ['\'', '\\', c, '\''] else [c]

/-- A text as one word. -/
def word (text : List Char) : List Char :=
  if !text.isEmpty && text.all isPlain then text
  else '\'' :: text.flatMap quoteChar ++ ['\'']

end HybridBuild.Shell

namespace HybridBuild

/-- A text as one word of a shell command. -/
def shellWord (text : String) : String :=
  String.ofList (Shell.word text.toList)

/-- A shell command with the given texts as its words. -/
def shellWords (texts : List String) : String :=
  " ".intercalate (texts.map shellWord)

end HybridBuild
