import Restyle.Number.Reading
import Restyle.Text.Parts
import Restyle.Text.Quoted
import Restyle.Toml.Basic

/-!
# Reading settings

A settings file is a sequence of lines: blank lines, comments, headers of
tables and of lists of tables, and pairs of a key and a value.  Keys may be
dotted.  A table is declared once; the tables and lists written inside a value
cannot be added to.
-/

namespace Restyle

namespace Toml

open Text

/-- Why a text is no settings file. -/
inductive ReadError where
  | malformed
  /-- An integer has more digits than the limit. -/
  | tooLong (digits : Nat)
  deriving DecidableEq, Repr

def isSpace (character : Char) : Bool := character == ' ' || character == '\t'

def isSpaceOrFeed (character : Char) : Bool := isSpace character || character == '\n'

def skipSpaces (input : List Char) : List Char := input.dropWhile isSpace

/-- Whether a character may not stand in a comment or a text on one line. -/
def isControl (character : Char) : Bool :=
  (character.toNat < 0x20 && character != '\t') || character.toNat == 0x7F

/-- Whether a character may not stand in a text over several lines. -/
def isControlButFeed (character : Char) : Bool :=
  isControl character && character != '\n'

def isBareKey (character : Char) : Bool :=
  character.isAlphanum || character == '-' || character == '_'

def skipComment : List Char → Except ReadError (List Char)
  | '#' :: rest =>
      let body := rest.takeWhile (· != '\n')
      if body.any isControl then .error .malformed else .ok (rest.drop body.length)
  | input => .ok input

/-- Skips blanks, line feeds and comments; `fuel` bounds their number. -/
def skipGaps : (fuel : Nat) → List Char → Except ReadError (List Char)
  | 0, input => .ok input
  | fuel + 1, input =>
      let afterBlanks := input.dropWhile isSpaceOrFeed
      match skipComment afterBlanks with
      | .error error => .error error
      | .ok rest =>
          if rest.length = input.length then .ok rest else skipGaps fuel rest

/-- The character of a code point in hexadecimal digits. -/
def codeCharacter? (digits : List Char) : Option Char := do
  let values ← digits.mapM hexValue?
  let code := values.foldl (fun total value => total * 16 + value) 0
  if code < 0xD800 || (0xDFFF < code && code < 0x110000) then some (Char.ofNat code) else none

def readCode (count : Nat) (input : List Char) : Except ReadError (List Char × List Char) :=
  let digits := input.take count
  if digits.length = count then
    match codeCharacter? digits with
    | some character => .ok ([character], input.drop count)
    | none => .error .malformed
  else .error .malformed

/-- Skips a line end in a text over several lines, with the blanks around it. -/
def skipContinuation (input : List Char) : Except ReadError (List Char × List Char) :=
  match skipSpaces input with
  | [] => .ok ([], [])
  | '\n' :: rest => .ok ([], rest.dropWhile isSpaceOrFeed)
  | _ => .error .malformed

/-- Reads what follows a backslash. -/
def readEscape (multiline : Bool) : List Char → Except ReadError (List Char × List Char)
  | 'b' :: rest => .ok (['\x08'], rest)
  | 't' :: rest => .ok (['\t'], rest)
  | 'n' :: rest => .ok (['\n'], rest)
  | 'f' :: rest => .ok (['\x0c'], rest)
  | 'r' :: rest => .ok (['\r'], rest)
  | '"' :: rest => .ok (['"'], rest)
  | '\\' :: rest => .ok (['\\'], rest)
  | 'u' :: rest => readCode 4 rest
  | 'U' :: rest => readCode 8 rest
  | character :: rest =>
      if multiline && isSpaceOrFeed character then skipContinuation (character :: rest)
      else .error .malformed
  | [] => .error .malformed

/-- Reads a basic text on one line from after its opening quote. -/
def readBasic : (fuel : Nat) → List Char → Except ReadError (List Char × List Char)
  | 0, _ => .error .malformed
  | _ + 1, [] => .error .malformed
  | _ + 1, '"' :: rest => .ok ([], rest)
  | fuel + 1, '\\' :: rest => do
      let (characters, afterEscape) ← readEscape false rest
      let (later, last) ← readBasic fuel afterEscape
      return (characters ++ later, last)
  | fuel + 1, character :: rest =>
      if isControl character then .error .malformed
      else do
        let (later, last) ← readBasic fuel rest
        return (character :: later, last)

/-- Reads a basic text over several lines from after its opening quotes up to
the first three closing ones. -/
def readBasicLines : (fuel : Nat) → List Char → Except ReadError (List Char × List Char)
  | 0, _ => .error .malformed
  | _ + 1, [] => .error .malformed
  | _ + 1, '"' :: '"' :: '"' :: rest => .ok ([], rest)
  | fuel + 1, '\\' :: rest => do
      let (characters, afterEscape) ← readEscape true rest
      let (later, last) ← readBasicLines fuel afterEscape
      return (characters ++ later, last)
  | fuel + 1, character :: rest =>
      if isControlButFeed character then .error .malformed
      else do
        let (later, last) ← readBasicLines fuel rest
        return (character :: later, last)

/-- Reads a literal text on one line from after its opening mark. -/
def readLiteral (input : List Char) : Except ReadError (List Char × List Char) :=
  let body := input.takeWhile (· != '\'')
  match input.drop body.length with
  | [] => .error .malformed
  | _ :: rest => if body.any isControl then .error .malformed else .ok (body, rest)

/-- Reads a literal text over several lines from after its opening marks up to
the first three closing ones. -/
def readLiteralLines (input : List Char) : Except ReadError (List Char × List Char) :=
  match indexOf? "'''".toList input with
  | none => .error .malformed
  | some length =>
      let body := input.take length
      if body.any isControlButFeed then .error .malformed
      else .ok (body, input.drop (length + 3))

/-- Adds up to two marks that stand before the three closing ones. -/
def addMarks (mark : Char) (body rest : List Char) : List Char × List Char :=
  let extra := (rest.takeWhile (· == mark)).take 2
  (body ++ extra, rest.drop extra.length)

/-- A text over several lines loses a line feed right after its opening marks. -/
def dropFirstFeed : List Char → List Char
  | '\n' :: rest => rest
  | input => input

/-- Reads a text from its opening mark on, if there is one. -/
def readText? (input : List Char) : Option (Except ReadError (List Char × List Char)) :=
  match input with
  | '"' :: '"' :: '"' :: rest =>
      some do
        let (body, last) ← readBasicLines (rest.length + 1) (dropFirstFeed rest)
        return addMarks '"' body last
  | '"' :: rest => some (readBasic (rest.length + 1) rest)
  | '\'' :: '\'' :: '\'' :: rest =>
      some do
        let (body, last) ← readLiteralLines (dropFirstFeed rest)
        return addMarks '\'' body last
  | '\'' :: rest => some (readLiteral rest)
  | _ => none

def readKeyPart (input : List Char) : Except ReadError (String × List Char) :=
  match input with
  | '"' :: rest => do
      let (body, last) ← readBasic (rest.length + 1) rest
      return (String.ofList body, last)
  | '\'' :: rest => do
      let (body, last) ← readLiteral rest
      return (String.ofList body, last)
  | _ =>
      let word := input.takeWhile isBareKey
      if word.isEmpty then .error .malformed
      else .ok (String.ofList word, input.drop word.length)

def readKeyRest : (fuel : Nat) → List Char → Except ReadError (List String × List Char)
  | 0, _ => .error .malformed
  | fuel + 1, input =>
      match skipSpaces input with
      | '.' :: rest => do
          let (part, afterPart) ← readKeyPart (skipSpaces rest)
          let (parts, last) ← readKeyRest fuel afterPart
          return (part :: parts, last)
      | last => .ok ([], last)

def readKey (input : List Char) : Except ReadError (List String × List Char) := do
  let (part, afterPart) ← readKeyPart input
  let (parts, last) ← readKeyRest (input.length + 1) afterPart
  return (part :: parts, last)

/-- Digits with single underscores between them, after a first digit. -/
def moreDigits (isDigit : Char → Bool) : List Char → List Char × List Char
  | [] => ([], [])
  | '_' :: digit :: rest =>
      if isDigit digit then
        let (digits, last) := moreDigits isDigit rest
        (digit :: digits, last)
      else ([], '_' :: digit :: rest)
  | digit :: rest =>
      if isDigit digit then
        let (digits, last) := moreDigits isDigit rest
        (digit :: digits, last)
      else ([], digit :: rest)

/-- Digits with single underscores between them; none when the first character
is no digit. -/
def groupedDigits (isDigit : Char → Bool) : List Char → List Char × List Char
  | [] => ([], [])
  | digit :: rest =>
      if isDigit digit then
        let (digits, last) := moreDigits isDigit rest
        (digit :: digits, last)
      else ([], digit :: rest)

def valueInBase (base : Nat) (digits : List Char) : Nat :=
  digits.foldl (fun total digit => total * base + (hexValue? digit).getD 0) 0

/-- The digits of the bases other than ten, by the letter that announces them. -/
def basePrefix? (letter : Char) : Option (Nat × (Char → Bool)) :=
  if letter == 'x' then some (16, fun digit => (hexValue? digit).isSome)
  else if letter == 'o' then some (8, fun digit => '0' ≤ digit && digit ≤ '7')
  else if letter == 'b' then some (2, fun digit => digit == '0' || digit == '1')
  else none

/-- Reads an integer in a base other than ten. -/
def readBased? (input : List Char) : Option (Toml × List Char) :=
  match input with
  | '0' :: letter :: rest =>
      match basePrefix? letter with
      | none => none
      | some (base, isDigit) =>
          let (digits, last) := groupedDigits isDigit rest
          if digits.isEmpty then none else some (.integer (valueInBase base digits), last)
  | _ => none

/-- The integer part of a decimal: a zero, or digits that do not start with
one. -/
def wholePart (input : List Char) : List Char × List Char :=
  match input with
  | '0' :: rest => (['0'], rest)
  | _ => groupedDigits Char.isDigit input

def fractionPart (input : List Char) : List Char × List Char :=
  match input with
  | '.' :: rest =>
      let (digits, last) := groupedDigits Char.isDigit rest
      if digits.isEmpty then ([], input) else (digits, last)
  | _ => ([], input)

def exponentPart (input : List Char) : Option Int × List Char :=
  match input with
  | mark :: rest =>
      if mark == 'e' || mark == 'E' then
        let (negative, unsigned) := takeSign rest
        let (digits, last) := groupedDigits Char.isDigit unsigned
        if digits.isEmpty then (none, input)
        else (some (Binary64.signed negative (digitsValue digits)), last)
      else (none, input)
  | [] => (none, input)

def readDecimalNumber? (input : List Char) : Option (Except ReadError (Toml × List Char)) :=
  let (negative, unsigned) := takeSign input
  let (whole, afterWhole) := wholePart unsigned
  if whole.isEmpty then none
  else
    let (fraction, afterFraction) := fractionPart afterWhole
    let (exponent, last) := exponentPart afterFraction
    if fraction.isEmpty && exponent.isNone then
      if digitLimit < whole.length then some (.error (.tooLong whole.length))
      else some (.ok (.integer (Binary64.signed negative (digitsValue whole)), last))
    else
      some (.ok (.real (Binary64.ofDecimal negative (digitsValue (whole ++ fraction))
        (exponent.getD 0 - fraction.length)), last))

def numberWords : List (String × Binary64) :=
  [("inf", .infinite false), ("nan", .notANumber), ("-inf", .infinite true),
    ("+inf", .infinite false), ("-nan", .notANumber), ("+nan", .notANumber)]

def readNumberWord? (input : List Char) : Option (Toml × List Char) :=
  numberWords.findSome? fun word =>
    (dropLead? word.1.toList input).map fun rest => (.real word.2, rest)

def twoDigits? (low high : Nat) (first second : Char) : Option Nat :=
  if first.isDigit && second.isDigit then
    let value := digitsValue [first, second]
    if low ≤ value && value ≤ high then some value else none
  else none

/-- The digits of a fraction of a second, cut to microseconds. -/
def readMicroseconds (input : List Char) : Nat × List Char :=
  match input with
  | '.' :: rest =>
      let digits := rest.takeWhile Char.isDigit
      if digits.isEmpty then (0, input)
      else
        let six := digits.take 6
        (digitsValue (six ++ List.replicate (6 - six.length) '0'), rest.drop digits.length)
  | _ => (0, input)

def readTime? (input : List Char) : Option (TimeOfDay × List Char) :=
  match input with
  | a :: b :: ':' :: c :: d :: ':' :: e :: f :: rest => do
      let hour ← twoDigits? 0 23 a b
      let minute ← twoDigits? 0 59 c d
      let second ← twoDigits? 0 59 e f
      let (microsecond, last) := readMicroseconds rest
      some ({ hour, minute, second, microsecond }, last)
  | _ => none

def readOffset (input : List Char) : Option Int × List Char :=
  match input with
  | 'Z' :: rest => (some 0, rest)
  | 'z' :: rest => (some 0, rest)
  | sign :: a :: b :: ':' :: c :: d :: rest =>
      if sign == '+' || sign == '-' then
        match twoDigits? 0 23 a b, twoDigits? 0 59 c d with
        | some hours, some minutes =>
            (some (Binary64.signed (sign == '-') (60 * hours + minutes)), rest)
        | _, _ => (none, input)
      else (none, input)
  | _ => (none, input)

def readDate? (input : List Char) : Option (CalendarDate × List Char) :=
  match input with
  | y1 :: y2 :: y3 :: y4 :: '-' :: m1 :: m2 :: '-' :: d1 :: d2 :: rest => do
      let month ← twoDigits? 1 12 m1 m2
      let day ← twoDigits? 1 31 d1 d2
      if [y1, y2, y3, y4].all Char.isDigit then
        some ({ year := digitsValue [y1, y2, y3, y4], month, day }, rest)
      else none
  | _ => none

def readTimeAfterDate? (input : List Char) : Option (TimeOfDay × Option Int × List Char) :=
  match input with
  | separator :: rest =>
      if separator == 'T' || separator == 't' || separator == ' ' then
        (readTime? rest).map fun (time, afterTime) =>
          let (offset, last) := readOffset afterTime
          (time, offset, last)
      else none
  | [] => none

def readMoment? (input : List Char) : Option (Except ReadError (Toml × List Char)) :=
  match readDate? input with
  | some (date, afterDate) =>
      if !date.isValid then some (.error .malformed)
      else
        match readTimeAfterDate? afterDate with
        | some (time, offset, last) =>
            some (.ok (.moment (.dateTime date time offset), last))
        | none => some (.ok (.moment (.date date), afterDate))
  | none =>
      (readTime? input).map fun (time, last) => .ok (.moment (.time time), last)

/-- Reads a value that is neither an array nor a table. -/
def readScalar (input : List Char) : Except ReadError (Toml × List Char) :=
  match readText? input with
  | some reading => do
      let (body, last) ← reading
      return (.text (String.ofList body), last)
  | none =>
      match dropLead? "true".toList input, dropLead? "false".toList input with
      | some rest, _ => .ok (.boolean true, rest)
      | _, some rest => .ok (.boolean false, rest)
      | none, none =>
          match readMoment? input with
          | some reading => reading
          | none =>
              match readBased? input with
              | some reading => .ok reading
              | none =>
                  match readDecimalNumber? input with
                  | some reading => reading
                  | none =>
                      match readNumberWord? input with
                      | some reading => .ok reading
                      | none => .error .malformed

def replaceField (name : String) (value : Toml) (fields : List (String × Toml)) :
    List (String × Toml) :=
  fields.map fun field => if field.1 = name then (field.1, value) else field

/-- Changes the table that a key leads to.  Tables on the way are made when they
are not there; with `throughLists` a list of tables leads to its last one. -/
def changeTable (throughLists : Bool)
    (change : List (String × Toml) → Option (List (String × Toml))) :
    (key : List String) → List (String × Toml) → Option (List (String × Toml))
  | [], fields => change fields
  | part :: parts, fields =>
      let inner := changeTable throughLists change parts
      match lookup part fields with
      | none => (inner []).map fun nested => fields ++ [(part, .table nested)]
      | some (.table nested) =>
          (inner nested).map fun changed => replaceField part (.table changed) fields
      | some (.array items) =>
          if throughLists then
            match items.getLast? with
            | some (.table nested) =>
                (inner nested).map fun changed =>
                  replaceField part (.array (items.dropLast ++ [.table changed])) fields
            | _ => none
          else none
      | some _ => none

/-- Adds a value under a name that is not there yet. -/
def addField (name : String) (value : Toml) (fields : List (String × Toml)) :
    Option (List (String × Toml)) :=
  if (lookup name fields).isSome then none else some (fields ++ [(name, value)])

/-- Adds an empty table to the list of tables under a name. -/
def addTable (name : String) (fields : List (String × Toml)) : Option (List (String × Toml)) :=
  match lookup name fields with
  | none => some (fields ++ [(name, .array [.table []])])
  | some (.array items) =>
      some (replaceField name (.array (items ++ [.table []])) fields)
  | some _ => none

/-- What is known of a key. -/
inductive Mark where
  /-- The key was declared as a table. -/
  | declared
  /-- The key, and all below it, was written as a value. -/
  | frozen
  deriving DecidableEq, Repr

abbrev Marks := List (List String × Mark)

def Marks.isDeclared (marks : Marks) (key : List String) : Bool :=
  marks.contains (key, .declared)

/-- Whether a key, or one above it, is frozen. -/
def Marks.isFrozen (marks : Marks) (key : List String) : Bool :=
  marks.any fun mark => mark.2 == .frozen && mark.1.isPrefixOf key

/-- Forgets the marks of a key and of those below it. -/
def Marks.forget (marks : Marks) (key : List String) : Marks :=
  marks.filter fun mark => !key.isPrefixOf mark.1

/-- Whether a value is an array or a table. -/
def isContainer : Toml → Bool
  | .array _ => true
  | .table _ => true
  | _ => false

def addPair (fields : List (String × Toml)) (marks : Marks) (key : List String) (value : Toml) :
    Except ReadError (List (String × Toml) × Marks) :=
  if marks.isFrozen key then .error .malformed
  else
    match changeTable false (addField (key.getLastD "") value) key.dropLast fields with
    | none => .error .malformed
    | some added =>
        .ok (added, if value.isContainer then marks ++ [(key, .frozen)] else marks)

mutual

def readValue : (fuel : Nat) → List Char → Except ReadError (Toml × List Char)
  | 0, _ => .error .malformed
  | fuel + 1, input =>
      match input with
      | '[' :: rest => do
          let (items, last) ← readItems fuel (← skipGaps (rest.length + 1) rest)
          return (.array items, last)
      | '\x7b' :: rest =>
          match skipSpaces rest with
          | '\x7d' :: last => .ok (.table [], last)
          | pairs => readPairs fuel [] [] pairs
      | _ => readScalar input

/-- Reads the items of an array up to its closing bracket. -/
def readItems : (fuel : Nat) → List Char → Except ReadError (List Toml × List Char)
  | 0, _ => .error .malformed
  | fuel + 1, input =>
      match input with
      | ']' :: last => .ok ([], last)
      | _ => do
          let (item, afterItem) ← readValue fuel input
          match ← skipGaps (afterItem.length + 1) afterItem with
          | ']' :: last => return ([item], last)
          | ',' :: rest =>
              let (items, last) ← readItems fuel (← skipGaps (rest.length + 1) rest)
              return (item :: items, last)
          | _ => .error .malformed

/-- Reads the pairs of an inline table up to its closing brace, after those
already read. -/
def readPairs : (fuel : Nat) → List (String × Toml) → Marks → List Char →
    Except ReadError (Toml × List Char)
  | 0, _, _, _ => .error .malformed
  | fuel + 1, fields, marks, input => do
      let (key, afterKey) ← readKey input
      match afterKey with
      | '=' :: rest =>
          let (value, afterValue) ← readValue fuel (skipSpaces rest)
          let (added, known) ← addPair fields marks key value
          match skipSpaces afterValue with
          | '\x7d' :: last => return (.table added, last)
          | ',' :: later => readPairs fuel added known (skipSpaces later)
          | _ => .error .malformed
      | _ => .error .malformed

end

/-- The state while reading a settings file. -/
structure Reader where
  root : List (String × Toml) := []
  /-- The key of the table to which pairs belong. -/
  header : List String := []
  marks : Marks := []
  /-- The tables opened by dotted keys, which count as declared from the next
  header on. -/
  opened : List (List String) := []

def readTableHeader (reader : Reader) (input : List Char) :
    Except ReadError (Reader × List Char) := do
  let (key, rest) ← readKey (skipSpaces input)
  if reader.marks.isDeclared key || reader.marks.isFrozen key then .error .malformed
  else
    match changeTable true some key reader.root, rest with
    | some root, ']' :: last =>
        return ({ reader with
          root, header := key, marks := reader.marks ++ [(key, .declared)] }, last)
    | _, _ => .error .malformed

def readListHeader (reader : Reader) (input : List Char) :
    Except ReadError (Reader × List Char) := do
  let (key, rest) ← readKey (skipSpaces input)
  if reader.marks.isFrozen key then .error .malformed
  else
    match changeTable true (addTable (key.getLastD "")) key.dropLast reader.root, rest with
    | some root, ']' :: ']' :: last =>
        return ({ reader with
          root, header := key, marks := reader.marks.forget key ++ [(key, .declared)] }, last)
    | _, _ => .error .malformed

/-- The keys of the tables that a dotted key opens below a header. -/
def openedKeys (header key : List String) : List (List String) :=
  (List.range (key.length - 1)).map fun index => header ++ key.take (index + 1)

/-- Adds a pair to the table of the header. -/
def Reader.add (reader : Reader) (key : List String) (value : Toml) :
    Except ReadError Reader :=
  let opened := openedKeys reader.header key
  let parent := reader.header ++ key.dropLast
  if opened.any reader.marks.isDeclared || reader.marks.isFrozen parent then .error .malformed
  else
    match changeTable true (addField (key.getLastD "") value) parent reader.root with
    | none => .error .malformed
    | some root =>
        let marks :=
          if value.isContainer then reader.marks ++ [(reader.header ++ key, .frozen)]
          else reader.marks
        .ok { reader with root, marks, opened := reader.opened ++ opened }

def readPair (reader : Reader) (input : List Char) : Except ReadError (Reader × List Char) := do
  let (key, afterKey) ← readKey input
  match afterKey with
  | '=' :: rest =>
      let (value, last) ← readValue (2 * rest.length + 2) (skipSpaces rest)
      return (← reader.add key value, last)
  | _ => .error .malformed

/-- Counts the tables opened by dotted keys as declared. -/
def Reader.settle (reader : Reader) : Reader :=
  { reader with
    marks := reader.marks ++ reader.opened.map fun key => (key, .declared)
    opened := [] }

/-- Reads the statement at the start of a line, if there is one. -/
def readStatement (reader : Reader) (input : List Char) : Except ReadError (Reader × List Char) :=
  match input with
  | '[' :: '[' :: rest => readListHeader reader.settle rest
  | '[' :: rest => readTableHeader reader.settle rest
  | '#' :: _ => .ok (reader, input)
  | '"' :: _ => readPair reader input
  | '\'' :: _ => readPair reader input
  | character :: _ => if isBareKey character then readPair reader input else .error .malformed
  | [] => .ok (reader, [])

/-- Reads the lines of a settings file; `fuel` bounds their number. -/
def readLines (reader : Reader) : (fuel : Nat) → List Char → Except ReadError Reader
  | 0, _ => .ok reader
  | fuel + 1, input =>
      match skipSpaces input with
      | [] => .ok reader
      | '\n' :: rest => readLines reader fuel rest
      | line => do
          let (next, afterStatement) ← readStatement reader line
          match ← skipComment (skipSpaces afterStatement) with
          | [] => return next
          | '\n' :: rest => readLines next fuel rest
          | _ => .error .malformed

/-- Turns each carriage return with a line feed into a line feed. -/
def unifyFeeds : List Char → List Char
  | [] => []
  | '\r' :: '\n' :: rest => '\n' :: unifyFeeds rest
  | character :: rest => character :: unifyFeeds rest

def read (text : List Char) : Except ReadError (List (String × Toml)) := do
  let input := unifyFeeds text
  return (← readLines {} (input.length + 1) input).root

end Toml

end Restyle
