/-!
# Reading shell commands

A command line is read character by character. Blanks separate words. Single quotes keep all that
stands between them as it is, and a backslash the one character after it. Two ampersands end a
command, and another one follows. In front of its words a command may have assignments, which are
words that start with a name and an equals sign, none of them quoted; a word without any quoting
may also be reserved, and then it starts something else than a simple command.

What follows reads this part of the language and refuses the rest of it: texts in double quotes;
all that the shell replaces before it runs a command, which are parameters, outputs of other
commands, home directories and patterns of file names; other operators, line feeds and comments;
and commands that are not simple.
-/
namespace HybridBuild.Shell

/-- A part of a word: a character outside of quotes, or the characters between two quotes or
behind a backslash. -/
inductive Part where
  | bare (c : Char)
  | quoted (text : List Char)
  deriving DecidableEq, Repr

namespace Part

/-- The characters that a part stands for. -/
def text : Part → List Char
  | bare c => [c]
  | quoted text => text

def isBare : Part → Bool
  | bare _ => true
  | quoted _ => false

end Part

/-- A word by its parts. -/
abbrev Word := List Part

def wordText (w : Word) : String := String.ofList (w.flatMap Part.text)

inductive Mode where
  /-- What follows some parts of a word; without parts no word has begun. -/
  | outside (read : Word)
  /-- What follows some characters of a quoted part. -/
  | quoted (read : Word) (text : List Char)
  /-- What follows a backslash. -/
  | escaped (read : Word)
  /-- What follows an ampersand. -/
  | ampersand
  deriving DecidableEq, Repr

/-- What has been read of a command line. -/
structure Reader where
  /-- The commands that have ended. -/
  ended : List (List Word)
  /-- The words of the command that is being read. -/
  words : List Word
  mode : Mode
  deriving DecidableEq, Repr

/-- Nothing has been read. -/
def Reader.start : Reader := ⟨[], [], .outside []⟩

def endWord (words : List Word) (read : Word) : List Word :=
  if read.isEmpty then words else words ++ [read]

/-- The characters that do not stand for themselves outside of quotes. -/
def signs : List Char :=
  [' ', '\t', '\n', '\'', '\\', '&', '"', '$', '\x60', '|', ';', '<', '>', '(', ')', '*', '?', '[']

/-- Whether a character stands for itself inside of a word. -/
def isLiteral (c : Char) : Bool := !signs.contains c

/-- Whether a character stands for itself at the start of a word, where a number sign starts a
comment and a tilde a home directory. -/
def opensWord (c : Char) : Bool := isLiteral c && c ≠ '#' && c ≠ '~'

/-- Reads a character outside of quotes. -/
def stepOutside (s : Reader) (read : Word) (c : Char) : Option Reader :=
  if c = ' ' || c = '\t' then some { s with words := endWord s.words read, mode := .outside [] }
  else if c = '\'' then some { s with mode := .quoted read [] }
  else if c = '\\' then some { s with mode := .escaped read }
  else if c = '&' then some { s with words := endWord s.words read, mode := .ampersand }
  else if opensWord c || (isLiteral c && !read.isEmpty) then
    some { s with mode := .outside (read ++ [.bare c]) }
  else none

def step (s : Reader) (c : Char) : Option Reader :=
  match s.mode with
  | .outside read => stepOutside s read c
  | .quoted read text =>
    some { s with mode := if c = '\'' then .outside (read ++ [.quoted text])
                          else .quoted read (text ++ [c]) }
  | .escaped read =>
    some { s with mode := .outside (if c = '\n' then read else read ++ [.quoted [c]]) }
  | .ampersand =>
    if c = '&' && !s.words.isEmpty then some ⟨s.ended ++ [s.words], [], .outside []⟩ else none

def run (s : Reader) (text : List Char) : Option Reader := text.foldlM step s

/-- The commands of a text by their words; the last of them has none if nothing follows the last
operator. -/
def read? (text : String) : Option (List (List Word)) :=
  match run .start text.toList with
  | some ⟨ended, words, .outside read⟩ => some (ended ++ [endWord words read])
  | _ => none

/-- The words of a text without operators. -/
def words? (text : String) : Option (List String) :=
  match read? text with
  | some [words] => some (words.map wordText)
  | _ => none

def isName (text : List Char) : Bool :=
  !text.isEmpty && text.all (fun c => c.isAlphanum || c = '_') && !(text.head?.any Char.isDigit)

def isAssignment (w : Word) : Bool :=
  let name := w.takeWhile (· ≠ .bare '=')
  w.contains (.bare '=') && name.all Part.isBare && isName (name.flatMap Part.text)

/-- The words that do not start a simple command when no character of them is quoted. -/
def reservedWords : List String :=
  ["!", "\x7b", "\x7d", "case", "do", "done", "elif", "else", "esac", "fi", "for", "if", "in",
    "then", "until", "while", "function", "select"]

def bareWord (text : List Char) : Word := text.map .bare

def isReserved (w : Word) : Bool := reservedWords.any fun text => bareWord text.toList = w

/-- Whether a simple command can start with a word that is none of its assignments. -/
def headsCommand (w : Word) : Bool := !isReserved w && !isAssignment w

/-- A simple command: the assignments in front of it, and its words. -/
structure SimpleCommand where
  assignments : List String := []
  words : List String
  deriving DecidableEq, Repr

/-- The simple command with some words; a tilde in an assignment may stand for a home
directory. -/
def SimpleCommand.ofWords? (words : List Word) : Option SimpleCommand :=
  let assigned := words.takeWhile isAssignment
  if words.isEmpty || words.head?.any isReserved || assigned.any (·.contains (.bare '~')) then none
  else some ⟨assigned.map wordText, (words.dropWhile isAssignment).map wordText⟩

/-- The simple commands that a text runs, each if the one before it succeeds. -/
def commands? (text : String) : Option (List SimpleCommand) :=
  (read? text).bind fun commands => commands.mapM SimpleCommand.ofWords?

/-- Quotes and a backslash join parts to one word, and an empty word needs quotes. -/
example : commands? "A=1 'b c'd\\ e ''&& cd x" =
    some [⟨["A=1"], ["b cd e", ""]⟩, ⟨[], ["cd", "x"]⟩] := by decide +kernel

end HybridBuild.Shell
