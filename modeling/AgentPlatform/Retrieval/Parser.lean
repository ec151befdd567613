import AgentPlatform.Core.Domain
import AgentPlatform.Machinery.Text

/-!
# Retrieval/Parser — the symbols of a source file

`parse_symbols` reads a file line by line, with one expression for each language, and finds the end
of a definition by its braces or its indentation.  The expressions are matched by the runtime's
`re`.
-/

namespace AgentPlatform

/-- What is Python's own: the tables of Unicode, and `re`. -/
structure PyRuntime where
  /-- `str.lower`. -/
  lower : Text → Text
  /-- `str.isidentifier`. -/
  isIdentifier : Text → Bool
  /-- The message of the `re.error` of `re.compile(pattern, re.IGNORECASE)`, if it raises. -/
  compileError : Text → Option String
  /-- `re.compile(pattern, re.IGNORECASE).search(line)` finds a match. -/
  search : Text → Text → Bool
  /-- `re.compile(pattern).match(line)`: the groups that took part, by name or by number. -/
  groups : String → Text → Option (List (String × Text))
  /-- `re.compile(pattern).findall(text)`, for an expression with one group. -/
  findall : String → Text → List Text

namespace Parser

/-- `Symbol`. -/
structure Symbol where
  name : Text
  kind : Text
  filePath : Text
  startLine : ℕ
  endLine : ℕ
  language : String
  deriving DecidableEq, Repr

/-- `LANGUAGE_BY_SUFFIX`. -/
def languageBySuffix : List (String × String) :=
  [(".cs", "csharp"), (".py", "python"), (".ts", "typescript"), (".tsx", "typescript"),
    (".js", "javascript"), (".jsx", "javascript"), (".sql", "sql"), (".md", "markdown"),
    (".json", "json"), (".yml", "yaml"), (".yaml", "yaml")]

/-- `_CSHARP_TYPE`. -/
def csharpType : String :=
  "^\\s*(?:public|internal|private|protected|sealed|static|abstract|partial|\\s)*" ++
  "\\b(?P<kind>class|interface|record|struct|enum)\\s+(?P<name>[A-Za-z_]\\w*)"

/-- `_CSHARP_MEMBER`. -/
def csharpMember : String :=
  "^\\s*(?:public|internal|private|protected|static|async|virtual|override|sealed|\\s)+" ++
  "(?:[A-Za-z_][\\w<>,\\[\\]\\.\\?]*\\s+)+(?P<name>[A-Za-z_]\\w*)\\s*\\("

/-- `_PYTHON_DEF`. -/
def pythonDef : String := "^\\s*(?P<kind>class|def)\\s+(?P<name>[A-Za-z_]\\w*)"

/-- `_TS_DEF`. -/
def tsDef : String :=
  "^\\s*(?:export\\s+)?(?:default\\s+)?(?P<kind>class|interface|type|function|const)\\s+" ++
  "(?P<name>[A-Za-z_$][\\w$]*)"

/-- `_CSHARP_KEYWORDS`. -/
def csharpKeywords : List String :=
  ["if", "for", "foreach", "while", "switch", "catch", "using", "lock", "return"]

/-- `match.group(name)`, of a group that takes part in every match. -/
def group (groups : List (String × Text)) (name : String) : Text := (groups.lookup name).getD []

/-- What follows the last dot. -/
def afterLastDot (t : Text) : Text := (t.reverse.takeWhile (· ≠ '.')).reverse

/-- `len(line) - len(line.lstrip())`. -/
def indent (line : Text) : ℕ := (line.takeWhile Text.isSpace).length

/-! ## The end of a definition -/

/-- A line of a block, from the depth of the braces and whether one was opened; `none` where the
block closes. -/
def blockLine : ℤ → Bool → Text → Option (ℤ × Bool)
  | depth, opened, [] => if opened ∧ depth = 0 then none else some (depth, opened)
  | depth, opened, c :: t =>
    if c = '\x7b' then blockLine (depth + 1) true t
    else if c = '\x7d' then
      if opened ∧ depth - 1 = 0 then none else blockLine (depth - 1) opened t
    else blockLine depth opened t

/-- The lines from `offset` on, of `total`. -/
def blockEndFrom (total : ℕ) : ℤ → Bool → ℕ → List Text → ℕ
  | _, _, _, [] => total
  | depth, opened, offset, line :: lines =>
    match blockLine depth opened line with
    | none => offset + 1
    | some (depth, opened) => blockEndFrom total depth opened (offset + 1) lines

/-- `_block_end`. -/
def blockEnd (lines : List Text) (startIndex : ℕ) : ℕ :=
  blockEndFrom lines.length 0 false startIndex (lines.drop startIndex)

example : blockEnd ["class A \x7b".toList, "  F() \x7b \x7d".toList, "\x7d".toList, "x".toList] 0
      = 3 := by
  decide

/-- The end of a Python definition: the next line that is not blank and not indented further. -/
def pythonEnd (lines : List Text) (index : ℕ) (line : Text) : ℕ :=
  match (lines.zipIdx.drop (index + 1)).find? fun candidate =>
      Text.strip candidate.1 ≠ [] ∧ indent candidate.1 ≤ indent line with
  | some (_, offset) => offset
  | none => lines.length

/-! ## The symbols -/

variable (py : PyRuntime)

/-- `language_of`. -/
def languageOf (filePath : Text) : String :=
  if '.' ∈ filePath then
    (languageBySuffix.lookup (String.ofList ('.' :: py.lower (afterLastDot filePath)))).getD "text"
  else "text"

/-- `_parse_csharp`. -/
def parseCsharp (filePath : Text) (lines : List Text) : List Symbol :=
  lines.zipIdx.filterMap fun (line, index) =>
    if Text.strip line = [] ∨ "//".toList.isPrefixOf (Text.strip line) then none
    else match py.groups csharpType line with
      | some groups => some ⟨group groups "name", group groups "kind", filePath, index + 1,
          blockEnd lines index, "csharp"⟩
      | none =>
        match py.groups csharpMember line with
        | some groups =>
          if String.ofList (group groups "name") ∈ csharpKeywords then none
          else some ⟨group groups "name", "method".toList, filePath, index + 1,
            blockEnd lines index, "csharp"⟩
        | none => none

/-- `_parse_python`. -/
def parsePython (filePath : Text) (lines : List Text) : List Symbol :=
  lines.zipIdx.filterMap fun (line, index) =>
    (py.groups pythonDef line).map fun groups => ⟨group groups "name",
      if group groups "kind" = "class".toList then "class".toList else "function".toList, filePath,
      index + 1, pythonEnd lines index line, "python"⟩

/-- `_parse_braced`. -/
def parseBraced (filePath : Text) (lines : List Text) (pattern language : String) : List Symbol :=
  lines.zipIdx.filterMap fun (line, index) =>
    (py.groups pattern line).map fun groups => ⟨group groups "name", group groups "kind", filePath,
      index + 1, blockEnd lines index, language⟩

/-- `parse_symbols`. -/
def parseSymbols (filePath content : Text) : List Symbol :=
  let language := languageOf py filePath
  let lines := Text.splitlines content
  if language = "csharp" then parseCsharp py filePath lines
  else if language = "python" then parsePython py filePath lines
  else if language = "typescript" ∨ language = "javascript" then
    parseBraced py filePath lines tsDef language
  else []

end Parser

end AgentPlatform
