import HybridBuild.Ninja.Manifest

/-!
# The grammar of manifests

A manifest consists of lines. A line may bind a value to a key, declare a rule, or state an
edge, which says what a rule makes out of what. An indented line binds a value for the rule
declared right above it, and every other line may be blank or a comment. In a value and in
a path a dollar sign in front of a dollar sign, a space or a colon makes it stand for itself;
in a path nothing else does. A bar stands before the implicit paths of a list.

What follows reads this part of the grammar and refuses the rest of it: references to
variables, continued lines, order-only inputs, validations, pools, inclusions, defaults and
bindings of edges, and line ends with a carriage return. It reads what stands in a
manifest, and not what an executor asks of it besides, as that every rule has a command.
-/
namespace HybridBuild.Ninja

/-- Whether a character stands for itself after a dollar sign. -/
def isEscapable (c : Char) : Bool := c = '$' || c = ' ' || c = ':'

def readValue? : List Char → Option (List Char)
  | [] => some []
  | c :: rest =>
    if c = '$' then
      match rest with
      | [] => none
      | e :: rest => if isEscapable e then (readValue? rest).map (e :: ·) else none
    else (readValue? rest).map (c :: ·)

theorem readValue?_dollar {c : Char} (hc : isEscapable c) (text : List Char) :
    readValue? ('$' :: c :: text) = (readValue? text).map (c :: ·) := by
  simp [readValue?, hc]

theorem readValue?_plain {c : Char} (hc : c ≠ '$') (text : List Char) :
    readValue? (c :: text) = (readValue? text).map (c :: ·) := by
  cases text <;> simp [readValue?, hc]

/-- The paths read so far when the path being read ends; all stand in reverse. -/
def endPath (done : List String) (path : List Char) : List String :=
  if path.isEmpty then done else String.ofList path.reverse :: done

/-- The paths in a text up to a bar or a colon, and the text from there on. -/
def readPaths? (done : List String) (path : List Char) :
    List Char → Option (List String × List Char)
  | [] => some ((endPath done path).reverse, [])
  | c :: rest =>
    if c = '$' then
      match rest with
      | [] => none
      | e :: rest => if isEscapable e then readPaths? done (e :: path) rest else none
    else if c = ' ' then readPaths? (endPath done path) [] rest
    else if c = '|' || c = ':' then some ((endPath done path).reverse, c :: rest)
    else readPaths? done (c :: path) rest

section

variable {done : List String} {path text : List Char} {c : Char}

theorem readPaths?_dollar (hc : isEscapable c) :
    readPaths? done path ('$' :: c :: text) = readPaths? done (c :: path) text := by
  simp [readPaths?, hc]

theorem readPaths?_space :
    readPaths? done path (' ' :: text) = readPaths? (endPath done path) [] text := by
  cases text <;> simp [readPaths?]

theorem readPaths?_stop (hc : c = '|' ∨ c = ':') :
    readPaths? done path (c :: text) = some ((endPath done path).reverse, c :: text) := by
  rcases hc with rfl | rfl <;> cases text <;> simp [readPaths?]

theorem readPaths?_plain (hescapable : ¬ isEscapable c) (hbar : c ≠ '|') :
    readPaths? done path (c :: text) = readPaths? done (c :: path) text := by
  have hc : (c ≠ '$' ∧ c ≠ ' ') ∧ c ≠ ':' := by simpa [isEscapable] using hescapable
  cases text <;> simp [readPaths?, hc, hbar]

end

/-- The paths after a bar, if the text starts with one. -/
def readBarred? : List Char → Option (List String × List Char)
  | [] => some ([], [])
  | c :: rest =>
    if c ≠ '|' then some ([], c :: rest)
    else if rest.head? = some '|' || rest.head? = some '@' then none
    else readPaths? [] [] rest

def isNameChar (c : Char) : Bool := c.isAlphanum || c = '_' || c = '.' || c = '-'

def skipSpaces (text : List Char) : List Char := text.dropWhile (· = ' ')

/-- The name at the start of a text, and what follows it and the spaces after it. -/
def readName (text : List Char) : String × List Char :=
  (String.ofList (text.takeWhile isNameChar), skipSpaces (text.dropWhile isNameChar))

/-- What follows a sign at the start of a text and the spaces after it. -/
def readSign? (sign : Char) : List Char → Option (List Char)
  | [] => none
  | c :: rest => if c = sign then some (skipSpaces rest) else none

def readBinding? (text : List Char) : Option (String × String) := do
  let (key, text) := readName text
  let text ← readSign? '=' text
  let value ← readValue? text
  if key.isEmpty then none else some (key, String.ofList value)

structure Edge where
  /-- The rule that makes it, or none if it is only a group of files. -/
  rule : Option String
  outputs : List String
  implicitOutputs : List String
  inputs : List String
  implicitInputs : List String
  deriving DecidableEq, Repr

/-- The name of the rule for groups of files, which is never declared. -/
def groupRule : String := "phony"

def readEdge? (text : List Char) : Option Edge := do
  let (outputs, text) ← readPaths? [] [] text
  let (implicitOutputs, text) ← readBarred? text
  let text ← readSign? ':' text
  let (name, text) := readName text
  let (inputs, text) ← readPaths? [] [] text
  let (implicitInputs, text) ← readBarred? text
  let rule := if name = groupRule then none else some name
  if (outputs ++ implicitOutputs).isEmpty || name.isEmpty || !text.isEmpty then none
  else some { rule, outputs, implicitOutputs, inputs, implicitInputs }

def readRuleName? (text : List Char) : Option String :=
  let (name, text) := readName text
  if name.isEmpty || name = groupRule || !text.isEmpty then none else some name

inductive Line where
  | blank
  | comment (text : String)
  | binding (key value : String)
  | indented (key value : String)
  | rule (name : String)
  | edge (e : Edge)
  deriving DecidableEq, Repr

/-- The words that start a line of another kind. -/
def otherWords : List String := ["pool", "default", "include", "subninja"]

def readLine? (line : List Char) : Option Line :=
  let text := skipSpaces line
  if text.isEmpty then some .blank
  else if text.head? = some '#' then some (.comment (String.ofList text.tail))
  else if line.head? = some ' ' then (readBinding? text).map fun (key, value) => .indented key value
  else
    let (word, rest) := readName text
    if word = "rule" then (readRuleName? rest).map .rule
    else if word = "build" then (readEdge? rest).map .edge
    else if otherWords.contains word then none
    else (readBinding? text).map fun (key, value) => .binding key value

/-- What a manifest declares. -/
inductive Declaration where
  | binding (key value : String)
  | rule (name : String) (bindings : List (String × String))
  | edge (e : Edge)
  deriving DecidableEq, Repr

/-- What some lines declare, after the bindings in front of the first declaration. -/
def declare? : List Line → Option (List (String × String) × List Declaration)
  | [] => some ([], [])
  | line :: lines =>
    match declare? lines with
    | none => none
    | some (bindings, declared) =>
      match line with
      | .comment _ => some (bindings, declared)
      | .indented key value => some ((key, value) :: bindings, declared)
      | .rule name => some ([], .rule name bindings :: declared)
      | .blank => if bindings.isEmpty then some ([], declared) else none
      | .binding key value =>
        if bindings.isEmpty then some ([], .binding key value :: declared) else none
      | .edge e => if bindings.isEmpty then some ([], .edge e :: declared) else none

/-- Whether a character has no place in a manifest. -/
def isForeign (c : Char) : Bool := c = '\r' || c = '\x00'

/-- What a manifest declares, if every line of it ends and can be read. -/
def read? (text : String) : Option (List Declaration) :=
  let lines := text.toList.splitOn '\n'
  if text.toList.any isForeign || lines.getLast? ≠ some [] then none
  else
    match (lines.dropLast.mapM readLine?).bind declare? with
    | some ([], declared) => some declared
    | _ => none

end HybridBuild.Ninja
