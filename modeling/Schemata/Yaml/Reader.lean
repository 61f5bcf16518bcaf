import Schemata.Yaml.Basic
import Schemata.Yaml.Text

/-!
# Reading YAML

The layout of a document says what belongs together: the entries of a mapping
and the items of a sequence start in one column, and what is in them starts
behind that column. Only the items of a sequence that is the value of an
entry may start in the column of the entry. Within brackets and braces the
layout does not count.

The reader keeps the column of what is in front, and the values that have
been given an anchor. A key stands on one line, and a mapping has no key
twice.

## Main definitions

* `Cursor`: A place in a text.
* `Yaml.read?`: The documents of a text.
-/

namespace Schemata

namespace Yaml

/-- A place in a text: what is left, its column, and the values with anchors so far. -/
structure Cursor where
  rest : List Char
  column : Nat
  anchors : List (String × Yaml)
  deriving Repr

/-- What is in front of a text, and the place behind it. -/
abbrev Reader :=
  StateT Cursor Option

namespace Reader

/-! ### Places -/

/-- What is left. -/
def rest : Reader (List Char) :=
  return (← get).rest

/-- The column of what is in front. -/
def column : Reader Nat :=
  return (← get).column

/-- The column behind some characters. -/
def columnBehind (start : Nat) : List Char → Nat
  | [] => start
  | c :: cs => columnBehind (if c = '\n' then 0 else start + 1) cs

/-- Go on to what is left behind some characters. -/
def goTo (cs : List Char) : Reader Unit :=
  modify fun cursor =>
    let taken := cursor.rest.take (cursor.rest.length - cs.length)
    { cursor with rest := cs, column := columnBehind cursor.column taken }

/-- Go on behind a number of characters. -/
def skip (count : Nat) : Reader Unit := do
  goTo ((← rest).drop count)

/-- What is left starts with a mark that is a word of its own. -/
def atMark (mark : Char) : Reader Bool := do
  match ← rest with
  | c :: cs => return c == mark && endsWord cs
  | [] => return false

/-- A document starts or ends in front of this place. -/
def atBoundary : Reader Bool := do
  let cursor ← get
  if cursor.rest = [] then return true
  else if cursor.column ≠ 0 then return false
  else
    match cursor.rest with
    | a :: b :: c :: cs => return (a == '-' || a == '.') && a == b && b == c && endsWord cs
    | _ => return false

/-- Nothing is left on the line. -/
def atBreak : Reader Bool := do
  match ← rest with
  | [] | '\n' :: _ => return true
  | _ => return false

/-- A rule that has to hold. -/
def require (condition : Bool) : Reader Unit :=
  if condition then pure () else failure

/-! ### Between the words -/

/-- Skip blanks on the line, and a comment behind them or at the start of the line. -/
def inlineGap : Reader Unit := do
  let cursor ← get
  let blanks := cursor.rest.takeWhile Text.isLineBlank
  let cs := cursor.rest.drop blanks.length
  if cs.head? = some '#' ∧ (blanks ≠ [] ∨ cursor.column = 0) then goTo (cs.dropWhile (· ≠ '\n'))
  else goTo cs

/-- Skip to the next word, over no more than `fuel` lines. In front of it there is no tab at
    the start of its line. -/
def nextLine : (fuel : Nat) → Reader Unit
  | 0 => failure
  | fuel + 1 => do
    let start := (← get)
    inlineGap
    if ← atBreak then
      if (← rest) ≠ [] then
        skip 1
        nextLine fuel
    else require (start.column ≠ 0 || !(start.rest.takeWhile Text.isLineBlank).contains '\t')

/-- Skip to the next word. -/
def nextWord : Reader Unit := do
  nextLine ((← rest).length + 1)

/-- The rest of the line is empty, but for a comment. -/
def endLine : Reader Unit := do
  inlineGap
  require (← atBreak)

/-- Skip blanks, comments and line breaks within brackets, over no more than `fuel` lines.
    What is in brackets does not start in front of what is around them. -/
def flowLines (indent : Int) : (fuel : Nat) → Reader Unit
  | 0 => failure
  | fuel + 1 => do
    inlineGap
    match ← rest with
    | '\n' :: _ =>
      skip 1
      flowLines indent fuel
    | [] => failure
    | _ => require (decide (indent ≤ (← column)))

/-- Skip blanks, comments and line breaks within brackets. -/
def flowGap (indent : Int) : Reader Unit := do
  flowLines indent ((← rest).length + 1)

/-! ### Anchors and tags -/

/-- What stands in front of a value. -/
structure Properties where
  tag : Option String
  anchor : Option String
  deriving DecidableEq, Repr

/-- No properties. -/
def Properties.none : Properties :=
  ⟨.none, .none⟩

/-- The character can stand in the name of an anchor. -/
def isAnchorChar (c : Char) : Bool :=
  !(endsWord [c] || isFlowMark c)

/-- A word of some characters behind a mark, without the mark. -/
def markedWord (isPart : Char → Bool) : Reader String := do
  let word := ((← rest).drop 1).takeWhile isPart
  skip (word.length + 1)
  require (endsWord (← rest) || (← rest).head?.any isFlowMark)
  return String.ofList word

/-- The properties in front, no more than `fuel`. -/
def properties : (fuel : Nat) → Properties → Reader Properties
  | 0, found => return found
  | fuel + 1, found => do
    let blanks := (← rest).takeWhile Text.isLineBlank
    match (← rest).drop blanks.length with
    | '&' :: _ =>
      skip blanks.length
      let anchor ← markedWord isAnchorChar
      require (anchor ≠ "" && found.anchor.isNone)
      properties fuel { found with anchor }
    | '!' :: _ =>
      skip blanks.length
      let tag := "!" ++ (← markedWord isAnchorChar)
      require found.tag.isNone
      properties fuel { found with tag }
    | _ => return found

/-- A value with an anchor, from now on. -/
def keep (properties : Properties) (value : Yaml) : Reader Yaml := do
  match properties.anchor with
  | none => return value
  | some anchor =>
    modify fun cursor => { cursor with anchors := (anchor, value) :: cursor.anchors }
    return value

/-- The value of a word without marks, behind its properties. -/
def wordValue (properties : Properties) (word : String) : Reader Yaml :=
  keep properties (properties.tag.elim (ofWord word) (tagged · word))

/-- The value where there is none, behind its properties. -/
def emptyValue (properties : Properties) : Reader Yaml :=
  wordValue properties "~"

/-- The value of an anchor. -/
def anchored : Reader Yaml := do
  let name ← markedWord isAnchorChar
  match (← get).anchors.lookup name with
  | some value => return value
  | none => failure

/-! ### Brackets -/

/-- A text between marks, with the opening one in front. -/
def markedText : Reader String := do
  match ← rest with
  | mark :: cs =>
    let read := if mark = '"' then quotedText else literalText
    let (text, cs) ← (read (cs.length + 1) cs : Option _)
    goTo cs
    return String.ofList text
  | [] => failure

/-- The text without marks in front, to the end of the line at most. -/
def linePart (flow : Bool) : Reader (List Char) := do
  let text := trimEnd (plainText flow false (← rest)).1
  skip text.length
  return text

/-- What follows the blanks in front, if it is a line break. -/
def breakAhead : Reader (Option (List Char)) := do
  let cs := (← rest).dropWhile Text.isLineBlank
  return if cs.head? = some '\n' then some cs else none

/-- A text without marks within brackets, on no more than `fuel` lines. -/
def flowText : (fuel : Nat) → Reader (List Char)
  | 0 => failure
  | fuel + 1 => do
    let text ← linePart true
    match ← breakAhead with
    | none => return text
    | some cs =>
      let (count, cs) := breaks cs.length cs
      if cs.head? = some '#' then return text
      else
        goTo cs
        let more ← flowText fuel
        return if more = [] then text else text ++ folded count ++ more

/-- The value of a key that is not there yet. -/
def addEntry (key value : Yaml) (entries : List (Yaml × Yaml)) :
    Reader (List (Yaml × Yaml)) := do
  require (!entries.any fun (k, _) => k.same key)
  return entries ++ [(key, value)]

mutual

/-- A value within brackets; and whether a colon may follow it at once. -/
def flowValue (indent : Int) : (fuel : Nat) → Reader (Yaml × Bool)
  | 0 => failure
  | fuel + 1 => do
    let found ← properties (← rest).length .none
    if found ≠ .none then flowGap indent
    match ← rest with
    | '[' :: _ =>
      skip 1
      return (← keep found (.sequence (← flowItems indent fuel)), true)
    | '\x7b' :: _ =>
      skip 1
      return (← keep found (.mapping (← flowEntries indent fuel [])), true)
    | '"' :: _ | '\'' :: _ => return (← keep found (.string (← markedText)), true)
    | '*' :: _ => return (← anchored, false)
    | cs =>
      if startsPlain true cs then
        return (← wordValue found (String.ofList (← flowText (cs.length + 1))), false)
      -- Behind properties the value itself may be missing.
      else if found ≠ .none ∧ cs.head?.any (fun c => isFlowMark c || c == ':') then
        return (← emptyValue found, false)
      else failure

/-- The value behind a colon within brackets. -/
def flowEntryValue (indent : Int) : (fuel : Nat) → Reader Yaml
  | 0 => failure
  | fuel + 1 => do
    skip 1
    flowGap indent
    match ← rest with
    | ',' :: _ | ']' :: _ | '\x7d' :: _ => return .null
    | _ => return (← flowValue indent fuel).1

/-- A key within brackets, and its value if a colon follows. -/
def flowEntry (indent : Int) : (fuel : Nat) → Reader (Yaml × Option Yaml)
  | 0 => failure
  | fuel + 1 => do
    let explicit ← atMark '?'
    if explicit then
      skip 1
      flowGap indent
    let (key, adjacent) ←
      match ← rest with
      | ':' :: cs =>
        if endsWord cs || cs.head?.any isFlowMark then pure (.null, true)
        else flowValue indent fuel
      | ',' :: _ | ']' :: _ | '\x7d' :: _ =>
        if explicit then pure (.null, true) else failure
      | _ => flowValue indent fuel
    flowGap indent
    match ← rest with
    | ':' :: cs =>
      -- A colon directly behind a key counts only if the key has an end of its own.
      require (adjacent || endsWord cs || cs.head?.any isFlowMark)
      return (key, some (← flowEntryValue indent fuel))
    | _ => return (key, if explicit then some .null else none)

/-- The items of a list up to its end. An item may be an entry, which is a mapping then. -/
def flowItems (indent : Int) : (fuel : Nat) → Reader (List Yaml)
  | 0 => failure
  | fuel + 1 => do
    flowGap indent
    match ← rest with
    | ']' :: _ =>
      skip 1
      return []
    | _ =>
      let (key, value) ← flowEntry indent fuel
      let item := value.elim key fun value => .mapping [(key, value)]
      flowGap indent
      match ← rest with
      | ',' :: _ =>
        skip 1
        return item :: (← flowItems indent fuel)
      | ']' :: _ =>
        skip 1
        return [item]
      | _ => failure

/-- The entries of a mapping up to its end, behind others. -/
def flowEntries (indent : Int) : (fuel : Nat) → List (Yaml × Yaml) →
    Reader (List (Yaml × Yaml))
  | 0, _ => failure
  | fuel + 1, entries => do
    flowGap indent
    match ← rest with
    | '\x7d' :: _ =>
      skip 1
      return entries
    | _ =>
      let (key, value) ← flowEntry indent fuel
      let entries ← addEntry key (value.getD .null) entries
      flowGap indent
      match ← rest with
      | ',' :: _ =>
        skip 1
        flowEntries indent fuel entries
      | '\x7d' :: _ =>
        skip 1
        return entries
      | _ => failure

end

/-! ### Words and blocks of lines -/

/-- A value that can be a key, or the first line of a text without marks. -/
inductive Atom where
  | value (value : Yaml)
  | text (text : String)
  | word (text : List Char)
  deriving Repr

/-- A value that can be a key, or the first line of a text without marks. -/
def atom (indent : Int) : Reader Atom := do
  let cs ← rest
  match cs with
  | '[' :: _ | '\x7b' :: _ => return .value (← flowValue indent (2 * cs.length + 2)).1
  | '"' :: _ | '\'' :: _ => return .text (← markedText)
  | '*' :: _ => return .value (← anchored)
  | _ =>
    require (startsPlain false cs)
    return .word (← linePart false)

/-- The value of an atom behind its properties. -/
def atomValue (properties : Properties) : Atom → Reader Yaml
  | .value value => keep properties value
  | .text text => keep properties (.string text)
  | .word text => wordValue properties (String.ofList text)

/-- A text without marks with its further lines, no more than `fuel`. They start behind a
    column. -/
def wordLines (indent : Int) : (fuel : Nat) → List Char → Reader (List Char)
  | 0, _ => failure
  | fuel + 1, text => do
    let here ← get
    match ← breakAhead with
    | none => return text
    | some cs =>
      let (count, cs) := breaks cs.length cs
      goTo cs
      if (← atBoundary) || (← column) ≤ indent || cs.head? = some '#' then
        set here
        return text
      else
        let more ← linePart false
        require (more ≠ [])
        wordLines indent fuel (text ++ folded count ++ more)

/-- The lines of a block that starts at some column, and whether the last one ends in a line
    break. -/
def blockLines (start : Nat) : (fuel : Nat) → Reader (List (List Char) × Bool)
  | 0 => failure
  | fuel + 1 => do
    let cs ← rest
    let line := cs.takeWhile (· ≠ '\n')
    let blanks := (line.takeWhile (· == ' ')).length
    let isClosed := line.length < cs.length
    if cs = [] then return ([], true)
    else if Block.isEmptyLine line || start ≤ blanks then
      goTo (cs.drop (line.length + 1))
      let (lines, closed) ← blockLines start fuel
      return (line.drop start :: lines, if lines = [] then isClosed else closed)
    else return ([], true)

/-- The column in which the text of a block starts. -/
def blockStart (indent : Int) (cs : List Char) : Nat :=
  let least := (max 0 indent + 1).toNat
  -- The first line that is not empty decides.
  let lines := (cs.splitOn '\n').dropWhile Block.isEmptyLine
  max least ((lines.head?.getD []).takeWhile (· == ' ')).length

/-- A block of lines, with its mark in front. -/
def block (indent : Int) : Reader String := do
  let isFolded := (← rest).head? = some '>'
  let marks := ((← rest).drop 1).takeWhile fun c => c == '+' || c == '-' || c.isDigit
  let block ← (Block.ofMarks? isFolded marks : Option Block)
  skip (marks.length + 1)
  endLine
  skip 1
  let cs ← rest
  let start := block.indent.elim (blockStart indent cs) fun more => (max 0 indent).toNat + more
  let (lines, isClosed) ← blockLines start (cs.length + 1)
  return block.text lines isClosed

/-! ### Layout -/

/-- A value that starts in front of this place may start here. -/
def isBehind (indent : Int) : Reader Bool := do
  return !(← atBoundary) && indent < (← column)

/-- The colon behind a key, after blanks; `none` if there is none. -/
def colonAhead : Reader Bool := do
  let blanks := (← rest).takeWhile Text.isLineBlank
  match (← rest).drop blanks.length with
  | ':' :: cs =>
    if endsWord cs then
      skip blanks.length
      return true
    else return false
  | _ => return false

mutual

/-- A value behind a column; `fresh` says that it may be a sequence or a mapping. -/
def node : (fuel : Nat) → (indent : Int) → (fresh : Bool) → Reader Yaml
  | 0, _, _ => failure
  | fuel + 1, indent, fresh => do
    let start ← column
    let found ← properties (← rest).length .none
    inlineGap
    -- Properties on a line of their own belong to the whole value behind them.
    if found ≠ .none && (← atBreak) then
      nextWord
      if ← isBehind indent then keep found (← content fuel indent true (← column) .none)
      else emptyValue found
    else content fuel indent fresh start found

/-- A value behind its properties, which may belong to its first key. -/
def content : (fuel : Nat) → (indent : Int) → (fresh : Bool) → (start : Nat) → Properties →
    Reader Yaml
  | 0, _, _, _, _ => failure
  | fuel + 1, indent, fresh, start, found => do
    if ← atMark '-' then
      require (fresh && found == .none)
      return .sequence (← sequence fuel start)
    else if ← atMark '?' then
      require (fresh && found == .none)
      return .mapping (← entry fuel start [])
    else if (← atMark ':') && fresh && found == .none then
      return .mapping (← entryValue fuel start .null [])
    else
      match ← rest with
      | '|' :: _ | '>' :: _ => keep found (.string (← block indent))
      | _ =>
        let here ← get
        let atom ← atom indent
        let taken := here.rest.take (here.rest.length - (← rest).length)
        if ← colonAhead then
          -- A key stands on one line.
          require (fresh && !taken.contains '\n')
          return .mapping (← entryValue fuel start (← atomValue found atom) [])
        else
          let atom ←
            match atom with
            | .word text => pure (.word (← wordLines indent (← rest).length.succ text))
            | atom => pure atom
          endLine
          atomValue found atom

/-- The items of a sequence in a column, with a hyphen in front. -/
def sequence : (fuel : Nat) → (start : Nat) → Reader (List Yaml)
  | 0, _ => failure
  | fuel + 1, start => do
    skip 1
    let item ← inner fuel start
    nextWord
    if ← isBehind (start - 1) then
      require ((← column) == start)
      if ← atMark '-' then return item :: (← sequence fuel start) else return [item]
    else return [item]

/-- What is behind a mark in a column: a value, or nothing. -/
def inner : (fuel : Nat) → (start : Nat) → Reader Yaml
  | 0, _ => failure
  | fuel + 1, start => do
    inlineGap
    if ← atBreak then nextWord
    if ← isBehind start then node fuel start true else return .null

/-- The value behind the colon of an entry in a column, and the entries behind it. -/
def entryValue : (fuel : Nat) → (start : Nat) → (key : Yaml) → List (Yaml × Yaml) →
    Reader (List (Yaml × Yaml))
  | 0, _, _, _ => failure
  | fuel + 1, start, key, entries => do
    skip 1
    inlineGap
    let value ←
      if ← atBreak then
        nextWord
        if ← isBehind start then node fuel start true
        -- A sequence may start in the column of the key.
        else if !(← atBoundary) && (← column) == start && (← atMark '-') then
          pure (.sequence (← sequence fuel start))
        else pure .null
      else node fuel start false
    moreEntries fuel start (← addEntry key value entries)

/-- The entries of a mapping in a column, behind others. -/
def moreEntries : (fuel : Nat) → (start : Nat) → List (Yaml × Yaml) →
    Reader (List (Yaml × Yaml))
  | 0, _, _ => failure
  | fuel + 1, start, entries => do
    nextWord
    if ← isBehind (start - 1) then
      require ((← column) == start)
      entry fuel start entries
    else return entries

/-- An entry of a mapping in a column, and the entries behind it. -/
def entry : (fuel : Nat) → (start : Nat) → List (Yaml × Yaml) → Reader (List (Yaml × Yaml))
  | 0, _, _ => failure
  | fuel + 1, start, entries => do
    if ← atMark '?' then
      skip 1
      let key ← inner fuel start
      nextWord
      if !(← atBoundary) && (← column) == start && (← atMark ':') then
        skip 1
        let value ← inner fuel start
        moreEntries fuel start (← addEntry key value entries)
      else moreEntries fuel start (← addEntry key .null entries)
    else if ← atMark ':' then entryValue fuel start .null entries
    else
      let found ← properties (← rest).length .none
      inlineGap
      let here ← get
      let key ← atomValue found (← atom start)
      let taken := here.rest.take (here.rest.length - (← rest).length)
      require (!taken.contains '\n' && (← colonAhead))
      entryValue fuel start key entries

end

/-! ### Documents -/

/-- The value of a document in front. -/
def document (fuel : Nat) : Reader Yaml := do
  let marked := (← atBoundary) && (← rest).head? = some '-'
  if marked then
    skip 3
    inlineGap
    if ← atBreak then
      nextWord
      if ← atBoundary then return .null else node fuel (-1) true
    else node fuel (-1) false
  else node fuel (-1) true

/-- The documents in front, no more than `fuel`. -/
def documents : (fuel : Nat) → Reader (List Yaml)
  | 0 => failure
  | fuel + 1 => do
    nextWord
    match ← rest with
    | [] => return []
    | '%' :: cs =>
      goTo (cs.dropWhile (· ≠ '\n'))
      nextWord
      -- Behind a directive there is another one or the start of a document.
      require ((← rest).head? = some '%' || ((← atBoundary) && (← rest).head? = some '-'))
      documents fuel
    | '.' :: _ =>
      if ← atBoundary then
        skip 3
        endLine
        documents fuel
      else documentsFrom fuel
    | _ => documentsFrom fuel
where
  /-- A document, and the documents behind it. -/
  documentsFrom (fuel : Nat) : Reader (List Yaml) := do
    modify fun cursor => { cursor with anchors := [] }
    let value ← document (8 * (← rest).length + 8)
    nextWord
    require (← atBoundary)
    return value :: (← documents fuel)

end Reader

/-- A text with one line break for each of the ways to write one. -/
def unifyBreaks : List Char → List Char
  | '\r' :: '\n' :: cs => '\n' :: unifyBreaks cs
  | '\r' :: cs => '\n' :: unifyBreaks cs
  | c :: cs => c :: unifyBreaks cs
  | [] => []

/-- The documents of a text. -/
def read? (text : String) : Option (List Yaml) := do
  let cs := unifyBreaks text.toList
  let (documents, _) ← (Reader.documents (cs.length + 1)).run ⟨cs, 0, []⟩
  return documents

end Yaml

end Schemata
