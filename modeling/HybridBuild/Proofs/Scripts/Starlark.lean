import HybridBuild.Scripts.Basic

/-!
# Reading Starlark

A script is read character by character into trees: names, numbers, texts in quotes, single
signs, and groups of trees in brackets. Line feeds and indentation count outside of brackets
only, where they separate logical lines. A line that is not indented is a call, a table, or the
head of a function, whose body consists of the indented lines after it.

What follows reads this part of the language and refuses the rest of it: texts in three quotes
or with a prefix, escapes by number, numbers with letters, lines continued by a backslash, tabs and
carriage returns outside of texts, and statements of other kinds outside of functions. The body
of a function is taken apart into lines but not understood.
-/
namespace HybridBuild.Starlark

inductive Tree where
  | name (text : String)
  | number (digits : String)
  | text (value : String)
  | sign (c : Char)
  /-- The trees between a bracket and its partner. -/
  | group (bracket : Char) (trees : List Tree)

/-- A logical line: how far it is indented, and its trees. -/
structure Line where
  indent : Nat
  trees : List Tree

/-- What is being read. -/
inductive Mode where
  /-- The spaces at the start of a line. -/
  | margin (spaces : Nat)
  | code
  /-- A name; its characters stand in reverse, as those of a number and of a text do. -/
  | name (read : List Char)
  | number (read : List Char)
  | quoted (quote : Char) (read : List Char)
  /-- What follows a backslash in a text. -/
  | escaped (quote : Char) (read : List Char)
  /-- What follows two quotes next to each other. -/
  | emptyText (quote : Char)
  | comment

/-- What has been read of a logical line; all lists stand in reverse. -/
structure Reader where
  mode : Mode
  /-- The indentation of the line. -/
  indent : Nat
  /-- The trees read since the innermost open bracket, or since the start of the line. -/
  level : List Tree
  /-- The open brackets, each with the trees in front of it. -/
  outer : List (Char × List Tree)

namespace Reader

def start : Reader := ⟨.margin 0, 0, [], []⟩

def push (s : Reader) (tree : Tree) : Reader := { s with mode := .code, level := tree :: s.level }

/-- Ends a line, unless it goes on in brackets, and tells it if something stands in it. -/
def endLine (s : Reader) : Reader × List Line :=
  if s.outer.isEmpty then (start, if s.level.isEmpty then [] else [⟨s.indent, s.level.reverse⟩])
  else ({ s with mode := .code }, [])

def openGroup (s : Reader) (bracket : Char) : Reader :=
  { s with mode := .code, level := [], outer := (bracket, s.level) :: s.outer }

/-- Closes the innermost group, if it was opened by a given bracket. -/
def closeGroup? (s : Reader) (bracket : Char) : Option Reader :=
  match s.outer with
  | [] => none
  | (opened, before) :: outer =>
    if opened = bracket then
      some { s with mode := .code, level := .group bracket s.level.reverse :: before, outer }
    else none

end Reader

def isNameChar (c : Char) : Bool := c.isAlphanum || c = '_'

def isQuote (c : Char) : Bool := c = '"' || c = '\''

def isBracket (c : Char) : Bool := c = '(' || c = '[' || c = '\x7b'

/-- The bracket that a character closes. -/
def partner? (c : Char) : Option Char :=
  if c = ')' then some '(' else if c = ']' then some '['
  else if c = '\x7d' then some '\x7b' else none

/-- Whether a character must not stand between trees. -/
def isForeign (c : Char) : Bool := c = '\\' || c = '\t' || c = '\r'

/-- The character that a backslash and another character stand for. -/
def escape? (c : Char) : Option Char :=
  if c = 'n' then some '\n' else if c = 't' then some '\t' else if c = 'r' then some '\r'
  else if c = '\\' || isQuote c then some c else none

/-- Reads a character between trees that does not end the line. -/
def stepCode (s : Reader) (c : Char) : Option Reader :=
  if c = ' ' then some { s with mode := .code }
  else if c = '#' then some { s with mode := .comment }
  else if c.isDigit then some { s with mode := .number [c] }
  else if isNameChar c then some { s with mode := .name [c] }
  else if isQuote c then some { s with mode := .quoted c [] }
  else if isBracket c then some (s.openGroup c)
  else if isForeign c then none
  else
    match partner? c with
    | some bracket => s.closeGroup? bracket
    | none => some (s.push (.sign c))

/-- Reads a character between trees, and tells the line that it ends. -/
def stepEnd (s : Reader) (c : Char) : Option (Reader × List Line) :=
  if c = '\n' then some s.endLine else (stepCode s c).map fun s => (s, [])

/-- Reads a character, and tells the line that it ends. -/
def step (s : Reader) (c : Char) : Option (Reader × List Line) :=
  match s.mode with
  | .margin spaces =>
    if c = ' ' then some ({ s with mode := .margin (spaces + 1) }, [])
    else stepEnd { s with indent := spaces } c
  | .code => stepEnd s c
  | .name read =>
    if isNameChar c then some ({ s with mode := .name (c :: read) }, [])
    else if isQuote c then none
    else stepEnd (s.push (.name (String.ofList read.reverse))) c
  | .number read =>
    if c.isDigit then some ({ s with mode := .number (c :: read) }, [])
    else if isNameChar c || isQuote c then none
    else stepEnd (s.push (.number (String.ofList read.reverse))) c
  | .quoted quote read =>
    if c = '\n' then none
    else if c = '\\' then some ({ s with mode := .escaped quote read }, [])
    else if c ≠ quote then some ({ s with mode := .quoted quote (c :: read) }, [])
    else if read.isEmpty then some ({ s with mode := .emptyText quote }, [])
    else some (s.push (.text (String.ofList read.reverse)), [])
  | .escaped quote read =>
    (escape? c).map fun c => ({ s with mode := .quoted quote (c :: read) }, [])
  | .emptyText quote => if c = quote then none else stepEnd (s.push (.text "")) c
  | .comment => if c = '\n' then some s.endLine else some (s, [])

def run (s : Reader) : List Char → Option (Reader × List Line)
  | [] => some (s, [])
  | c :: text => do
    let (s, ended) ← step s c
    let (s, lines) ← run s text
    return (s, ended ++ lines)

def isComma : Tree → Bool
  | .sign c => c = ','
  | _ => false

/-- The items of a group; a comma may stand after the last one. -/
def items : List Tree → List (List Tree)
  | [] => []
  | tree :: trees =>
    if isComma tree then [] :: items trees
    else
      match items trees with
      | [] => [[tree]]
      | item :: rest => (tree :: item) :: rest

/-- What stands for an argument of a call. -/
inductive Value where
  | text (value : String)
  | list (values : List String)
  deriving DecidableEq, Repr

structure Argument where
  name : Option String
  value : Value
  deriving DecidableEq, Repr

/-- What a script says outside of functions. -/
inductive Statement where
  | call (function : String) (arguments : List Argument)
  /-- A table of texts with a name for each. -/
  | table (name : String) (entries : List (String × String))
  | function (name : String)
  deriving DecidableEq, Repr

def readText? : List Tree → Option String
  | [.text value] => some value
  | _ => none

def readValue? : List Tree → Option Value
  | [.text value] => some (.text value)
  | [.group '[' trees] => ((items trees).mapM readText?).map .list
  | _ => none

def readArgument? : List Tree → Option Argument
  | .name name :: .sign '=' :: value => (readValue? value).map fun value => ⟨some name, value⟩
  | value => (readValue? value).map fun value => ⟨none, value⟩

/-- The entry of a table that an item is. -/
def readEntry? : List Tree → Option (String × String)
  | [.text key, .sign ':', .name value] => some (key, value)
  | _ => none

def readStatement? : List Tree → Option Statement
  | [.name function, .group '(' trees] => ((items trees).mapM readArgument?).map (.call function)
  | [.name name, .sign '=', .group '\x7b' trees] =>
    ((items trees).mapM readEntry?).map (.table name)
  | [.name word, .name name, .group '(' _, .sign ':'] =>
    if word = "def" then some (.function name) else none
  | _ => none

/-- Whether a statement needs indented lines after it. -/
def Statement.needsBody : Statement → Bool
  | .function _ => true
  | _ => false

/-- Puts a line in front of statements; `some (true, _)` says that indented lines stand in
front of them. -/
def addLine (line : Line) : Option (Bool × List Statement) → Option (Bool × List Statement)
  | none => none
  | some (body, statements) =>
    if 0 < line.indent then some (true, statements)
    else
      match readStatement? line.trees with
      | none => none
      | some statement =>
        if statement.needsBody = body then some (false, statement :: statements) else none

/-- The statements of a part of a script whose last line ends, and whether indented lines stand
in front of them, where `below` tells whether indented lines stand after them. -/
def readPart? (below : Bool) (text : List Char) : Option (Bool × List Statement) :=
  match run .start text with
  | some (⟨.margin 0, 0, [], []⟩, lines) => lines.foldr addLine (some (below, []))
  | _ => none

def read? (script : String) : Option (List Statement) :=
  match readPart? false script.toList with
  | some (false, statements) => some statements
  | _ => none

end HybridBuild.Starlark
