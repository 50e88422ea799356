import Restyle.Text.Quoted

/-!
# Codes

The escapes of a document can give one half of a surrogate pair without the other.  Such
a surrogate is no character, so the texts of documents are made of codes: characters, and
surrogates that stand alone.
-/

namespace Restyle.Text

/-- A character, or a lone surrogate by its offset from the first one. -/
inductive Code where
  | character (value : Char)
  | surrogate (offset : Fin 0x800)
  deriving DecidableEq, Repr

namespace Code

/-- The code unit of a lone surrogate. -/
def unit (offset : Fin 0x800) : Nat := 0xD800 + offset.val

/-- The code of a code unit on its own. -/
def ofUnit (unit : Nat) : Code :=
  if lone : 0xD800 ≤ unit ∧ unit - 0xD800 < 0x800 then .surrogate ⟨unit - 0xD800, lone.2⟩
  else .character (Char.ofNat unit)

/-- Whether a code is a surrogate that starts a pair. -/
def isHigh : Code → Bool
  | .character _ => false
  | .surrogate offset => offset.val < 0x400

/-- Whether a code is a surrogate that ends a pair. -/
def isLow : Code → Bool
  | .character _ => false
  | .surrogate offset => 0x400 ≤ offset.val

/-- The character shown for a code: a surrogate has none and is shown as the replacement
character. -/
def shown : Code → Char
  | .character value => value
  | .surrogate _ => '\uFFFD'

end Code

/-- The codes of a text without surrogates. -/
def codes (text : List Char) : List Code := text.map .character

/-- The characters of a text, unless it has a surrogate. -/
def characters? : List Code → Option (List Char)
  | [] => some []
  | .character value :: rest => (characters? rest).map (value :: ·)
  | .surrogate _ :: _ => none

/-- Whether a text occurs in another. -/
def codesOccurIn (needle : List Code) : List Code → Bool
  | [] => needle.isEmpty
  | code :: rest => needle.isPrefixOf (code :: rest) || codesOccurIn needle rest

/-! ## Spelled names

The names of an object are strings, in which a surrogate is spelled by a mark and the
character of its offset.  A mark that stands for itself is doubled.
-/

def spellingMark : Char := '\uFFFF'

def Code.spelled : Code → List Char
  | .character value => if value = spellingMark then [spellingMark, value] else [value]
  | .surrogate offset => [spellingMark, Char.ofNat offset.val]

def spelling (text : List Code) : List Char := text.flatMap Code.spelled

/-- The codes that a name spells. -/
def codesOf : List Char → List Code
  | first :: second :: rest =>
      if first = spellingMark then
        (if small : second.toNat < 0x800 then .surrogate ⟨second.toNat, small⟩
          else .character second) :: codesOf rest
      else .character first :: codesOf (second :: rest)
  | rest => codes rest

/-! ## Quoted codes -/

def quotedCode (mark : Char) : Code → List Char
  | .character value => quotedCharacter mark value
  | .surrogate offset => escapedCode (Code.unit offset)

/-- A text between quotation marks. -/
def quotedCodes (text : List Code) : List Char :=
  let mark := quotationMark (text.map Code.shown)
  mark :: text.flatMap (quotedCode mark) ++ [mark]

end Restyle.Text
