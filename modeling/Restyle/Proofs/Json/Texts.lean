import Restyle.Json.Printer
import Restyle.Json.Reader
import Restyle.Proofs.Text.Codes

/-!
# Texts of documents read back

A character of a text is written as it is, with a backslash and a letter, or
by its code units.  `Escapes` says that the reader takes the written form of
every character off the front; both ways of escaping have this property, and
then a whole text between quotes reads back.
-/

namespace Restyle

namespace Json

open Text

/-- A way of writing characters that the reader undoes. -/
def Escapes (escape : Char → List Char) : Prop :=
  ∀ start character rest, rest ≠ [] →
    textPiece start (escape character ++ rest) = .ok (some (.character character), rest)

theorem hexValue?_hexDigit : ∀ value < 16, hexValue? (hexDigit value) = some value := by
  decide

theorem hex_four (unit : Nat) :
    hex 4 unit = [hexDigit (unit / 16 / 16 / 16 % 16), hexDigit (unit / 16 / 16 % 16),
      hexDigit (unit / 16 % 16), hexDigit (unit % 16)] := by
  simp [hex]

theorem codeEscape_hex {unit : Nat} (small : unit < 0x10000) {rest : List Char}
    (more : rest ≠ []) : codeEscape (hex 4 unit ++ rest) = .ok (unit, rest) := by
  obtain ⟨next, later, rfl⟩ := List.exists_cons_of_ne_nil more
  have known : codeUnit? (hexDigit (unit / 16 / 16 / 16 % 16)) (hexDigit (unit / 16 / 16 % 16))
      (hexDigit (unit / 16 % 16)) (hexDigit (unit % 16)) = some unit := by
    simp only [codeUnit?, hexValue?_hexDigit _ (Nat.mod_lt _ (by decide : 0 < 16)),
      Option.bind_eq_bind, Option.bind_some, Option.some.injEq]
    omega
  rw [hex_four]
  simp only [List.cons_append, List.nil_append, codeEscape, known]

theorem textPiece_unit {start rest : List Char} {unit : Nat} {code : Code} {last : List Char}
    (small : unit < 0x10000) (more : rest ≠ []) (read : unitCode unit rest = .ok (code, last)) :
    textPiece start (unitEscape unit ++ rest) = .ok (some code, last) := by
  have escaped := codeEscape_hex small more
  simp only [unitEscape, List.cons_append, textPiece, escaped, read]

theorem ofUnit_character {character : Char}
    (basic : character.toNat < 0xD800 ∨ 0xDFFF < character.toNat) :
    Code.ofUnit character.toNat = .character character := by
  rw [Code.ofUnit, dif_neg (by omega), Char.ofNat_toNat]

theorem ofUnit_unit (offset : Fin 0x800) : Code.ofUnit (Code.unit offset) = .surrogate offset := by
  rw [Code.ofUnit, dif_pos (by simp only [Code.unit]; omega)]
  simp [Code.unit]

theorem isHigh_ofUnit (unit : Nat) : (Code.ofUnit unit).isHigh = isHighSurrogate unit := by
  unfold Code.ofUnit isHighSurrogate
  split
  · show decide (unit - 0xD800 < 0x400) = _
    rw [Bool.eq_iff_iff]
    simp only [decide_eq_true_eq, Bool.and_eq_true]
    omega
  · simp only [Code.isHigh, Bool.false_eq, Bool.and_eq_false_iff, decide_eq_false_iff_not]
    omega

theorem isLow_ofUnit (unit : Nat) : (Code.ofUnit unit).isLow = isLowSurrogate unit := by
  unfold Code.ofUnit isLowSurrogate
  split
  · show decide (0x400 ≤ unit - 0xD800) = _
    rw [Bool.eq_iff_iff]
    simp only [decide_eq_true_eq, Bool.and_eq_true]
    omega
  · simp only [Code.isLow, Bool.false_eq, Bool.and_eq_false_iff, decide_eq_false_iff_not]
    omega

/-- Whether what follows a code is no second half of a pair that the code starts. -/
def FollowsApart (code : Code) (rest : List Char) : Prop :=
  code.isHigh = true → ∀ later, rest = '\\' :: 'u' :: later →
    ∃ unit last, codeEscape later = .ok (unit, last) ∧ isLowSurrogate unit = false

theorem unitCode_alone {unit : Nat} {rest : List Char}
    (apart : FollowsApart (Code.ofUnit unit) rest) :
    unitCode unit rest = .ok (Code.ofUnit unit, rest) := by
  rw [FollowsApart, isHigh_ofUnit] at apart
  unfold unitCode
  split
  · rename_i later
    split
    · rename_i paired
      simp only [Bool.and_eq_true] at paired
      obtain ⟨low, last, escaped, single⟩ := apart paired.1 later rfl
      simp only [escaped, single, Bool.false_eq_true, if_false]
    · rfl
  · rfl

/-- A character is read back from its code units. -/
theorem textPiece_codeEscapes (start : List Char) (character : Char) {rest : List Char}
    (more : rest ≠ []) :
    textPiece start (codeEscapes character ++ rest) = .ok (some (.character character), rest) := by
  have valid : character.toNat < 0xD800 ∨
      0xDFFF < character.toNat ∧ character.toNat < 0x110000 := character.valid
  unfold codeEscapes
  dsimp only
  by_cases basic : character.toNat < 0x10000
  · rw [if_pos basic]
    apply textPiece_unit basic more
    have itself : Code.ofUnit character.toNat = .character character :=
      ofUnit_character (valid.imp_right And.left)
    rw [← itself]
    apply unitCode_alone
    rw [itself]
    exact fun high => Bool.noConfusion high
  · rw [if_neg basic, List.append_assoc]
    apply textPiece_unit (by omega) (by simp [unitEscape])
    have high : isHighSurrogate (0xD800 + (character.toNat - 0x10000) / 0x400) = true := by
      simp [isHighSurrogate]
      omega
    have low : isLowSurrogate (0xDC00 + (character.toNat - 0x10000) % 0x400) = true := by
      simp [isLowSurrogate]
      omega
    have pair : pairCode (0xD800 + (character.toNat - 0x10000) / 0x400)
        (0xDC00 + (character.toNat - 0x10000) % 0x400) = .character character := by
      have number : 0x10000 + (0xD800 + (character.toNat - 0x10000) / 0x400 - 0xD800) * 0x400 +
          (0xDC00 + (character.toNat - 0x10000) % 0x400 - 0xDC00) = character.toNat := by
        omega
      rw [pairCode, number, Char.ofNat_toNat]
    have follows : ((hex 4 (0xDC00 + (character.toNat - 0x10000) % 0x400) ++ rest).drop
        4).isEmpty = false := by
      rw [hex_four]
      simpa using more
    have small : 0xDC00 + (character.toNat - 0x10000) % 0x400 < 0x10000 := by omega
    have read := codeEscape_hex small more
    simp only [unitEscape, List.cons_append, unitCode, high, follows, read, low, pair,
      Bool.not_false, Bool.and_self, if_true]

theorem textPiece_shortEscape {start rest escape : List Char} {character : Char}
    (short : shortEscape? character = some escape) :
    textPiece start (escape ++ rest) = .ok (some (.character character), rest) := by
  unfold shortEscape? at short
  repeat' split at short
  all_goals cases short
  all_goals rename_i same
  all_goals
    rw [beq_iff_eq.mp same]
    rfl

theorem textPiece_plain {start rest : List Char} {character : Char}
    (long : shortEscape? character = none) (printable : 0x20 ≤ character.toNat) :
    textPiece start (character :: rest) = .ok (some (.character character), rest) := by
  have notQuote : character ≠ '"' := by
    rintro rfl
    simp [shortEscape?] at long
  have notBackslash : character ≠ '\\' := by
    rintro rfl
    simp [shortEscape?] at long
  unfold textPiece
  split
  all_goals simp_all
  omega

theorem escapes_ascii : Escapes escapedAscii := by
  intro start character rest more
  unfold escapedAscii
  cases short : shortEscape? character with
  | some escape => exact textPiece_shortEscape short
  | none =>
      dsimp only
      split
      · rename_i plain
        simp only [Bool.and_eq_true, decide_eq_true_eq] at plain
        exact textPiece_plain short plain.1
      · exact textPiece_codeEscapes start character more

theorem escapes_control : Escapes escapedControl := by
  intro start character rest more
  unfold escapedControl
  cases short : shortEscape? character with
  | some escape => exact textPiece_shortEscape short
  | none =>
      dsimp only
      split
      · rename_i plain
        exact textPiece_plain short (by simpa using plain)
      · exact textPiece_codeEscapes start character more

/-! ## Whole texts -/

theorem followsApart_quote (code : Code) (rest : List Char) : FollowsApart code ('"' :: rest) := by
  rintro _ later ⟨⟩

theorem followsApart_of_piece {start rest last : List Char} {code next : Code}
    (read : textPiece start rest = .ok (some next, last))
    (apart : code.isHigh = true → next.isLow = false) : FollowsApart code rest := by
  rintro high later rfl
  cases escaped : codeEscape later with
  | error stop =>
      rw [textPiece, escaped] at read
      cases read
  | ok found =>
      obtain ⟨unit, more⟩ := found
      refine ⟨unit, more, rfl, ?_⟩
      cases low : isLowSurrogate unit with
      | false => rfl
      | true =>
          have single : isHighSurrogate unit = false := by
            simp only [isLowSurrogate, Bool.and_eq_true, decide_eq_true_eq] at low
            simp [isHighSurrogate]
            omega
          have alone : unitCode unit more = .ok (Code.ofUnit unit, more) := by
            apply unitCode_alone
            intro first
            rw [isHigh_ofUnit, single] at first
            cases first
          rw [textPiece, escaped] at read
          simp only [alone] at read
          cases read
          rw [← low, ← isLow_ofUnit]
          exact apart high

variable {escape : Char → List Char}

theorem textPiece_codeText (escapes : Escapes escape) (start : List Char) {code : Code}
    {rest : List Char} (more : rest ≠ []) (apart : FollowsApart code rest) :
    textPiece start (codeText escape code ++ rest) = .ok (some code, rest) := by
  cases code with
  | character value => exact escapes start value rest more
  | surrogate offset =>
      have small : Code.unit offset < 0x10000 := by
        rw [Code.unit]
        omega
      rw [← ofUnit_unit] at apart
      have read : textPiece start (unitEscape (Code.unit offset) ++ rest) = _ :=
        textPiece_unit small more (unitCode_alone apart)
      rwa [ofUnit_unit] at read

theorem followsApart_codes (escapes : Escapes escape) {code : Code} {text : List Code}
    (apart : IsApart (code :: text)) (rest : List Char) :
    FollowsApart code (text.flatMap (codeText escape) ++ '"' :: rest) := by
  induction text generalizing code with
  | nil => exact followsApart_quote code rest
  | cons next text induction =>
      have read := textPiece_codeText escapes [] (by simp) (induction apart.2)
      rw [List.flatMap_cons, List.append_assoc]
      exact followsApart_of_piece read apart.1

theorem IsApart.tail {code : Code} {text : List Code} (apart : IsApart (code :: text)) :
    IsApart text := by
  cases text with
  | nil => trivial
  | cons next text => exact apart.2

theorem textBody_codes (escapes : Escapes escape) (start rest : List Char) (known : List Code)
    {text : List Code} (apart : IsApart text) {fuel : Nat} (enough : text.length < fuel) :
    textBody start fuel known (text.flatMap (codeText escape) ++ '"' :: rest) =
      .ok (known.reverse ++ text, rest) := by
  induction text generalizing known fuel with
  | nil =>
      cases fuel with
      | zero => simp at enough
      | succ fuel => simp [textBody, textPiece]
  | cons code text induction =>
      cases fuel with
      | zero => simp at enough
      | succ fuel =>
          have piece := textPiece_codeText escapes start (by simp)
            (followsApart_codes escapes apart rest)
          rw [List.flatMap_cons, List.append_assoc, textBody, piece]
          dsimp only
          rw [induction (code :: known) (IsApart.tail apart) (by simpa using enough)]
          simp

theorem readText_codes (escapes : Escapes escape) {text : List Code} (apart : IsApart text)
    (rest : List Char) {fuel : Nat} (enough : text.length < fuel) :
    readText fuel (text.flatMap (codeText escape) ++ '"' :: rest) = .ok (text, rest) :=
  textBody_codes escapes _ rest [] apart enough

/-! ## What the reader gives -/

theorem textBody_known (start : List Char) (fuel : Nat) (known : List Code) (input : List Char) :
    textBody start fuel known input =
      (textBody start fuel [] input).map fun found => (known.reverse ++ found.1, found.2) := by
  induction fuel generalizing known input with
  | zero => rfl
  | succ fuel induction =>
      rw [textBody, textBody]
      split
      · rfl
      · simp [Except.map]
      · rename_i code rest piece
        rw [induction (code :: known), induction [code]]
        cases textBody start fuel [] rest <;> simp [Except.map]

/-- Only an escape gives a surrogate. -/
theorem escape_of_surrogate {start input rest : List Char} {offset : Fin 0x800}
    (read : textPiece start input = .ok (some (.surrogate offset), rest)) :
    ∃ later unit more, input = '\\' :: 'u' :: later ∧ codeEscape later = .ok (unit, more) ∧
      unitCode unit more = .ok (.surrogate offset, rest) := by
  unfold textPiece at read
  split at read
  · cases read
  · cases read
  · cases read
  · rename_i later
    split at read
    · cases read
    · rename_i unit more escaped
      split at read
      · cases read
      · rename_i code last alone
        cases read
        exact ⟨later, unit, more, rfl, escaped, alone⟩
  · split at read <;> cases read
  · split at read <;> cases read

/-- A surrogate is given by its code unit alone, and no second half of a pair follows one
that starts a pair. -/
theorem alone_of_surrogate {unit : Nat} {more rest : List Char} {offset : Fin 0x800}
    (read : unitCode unit more = .ok (.surrogate offset, rest)) :
    rest = more ∧ Code.ofUnit unit = .surrogate offset ∧
      (isHighSurrogate unit = true → ∀ later low last, more = '\\' :: 'u' :: later →
        codeEscape later = .ok (low, last) → isLowSurrogate low = false) := by
  unfold unitCode at read
  split at read
  · rename_i later
    split at read
    · split at read
      · cases read
      · rename_i low last escaped
        split at read
        · cases read
        · rename_i single
          rw [Except.ok.injEq, Prod.mk.injEq] at read
          refine ⟨read.2.symm, read.1, ?_⟩
          rintro _ _ _ _ ⟨⟩ again
          cases escaped.symm.trans again
          simpa using single
    · rename_i unpaired
      rw [Except.ok.injEq, Prod.mk.injEq] at read
      refine ⟨read.2.symm, read.1, ?_⟩
      rintro high _ _ _ ⟨⟩ escaped
      unfold codeEscape at escaped
      split at escaped
      · simp [high] at unpaired
      · cases escaped
  · rename_i other
    rw [Except.ok.injEq, Prod.mk.injEq] at read
    refine ⟨read.2.symm, read.1, ?_⟩
    rintro _ later _ _ rfl
    exact absurd rfl (other later)

theorem textPiece_apart {start other input rest last : List Char} {code next : Code}
    (first : textPiece start input = .ok (some code, rest))
    (second : textPiece other rest = .ok (some next, last)) (high : code.isHigh = true) :
    next.isLow = false := by
  cases code with
  | character value => cases high
  | surrogate offset =>
      cases next with
      | character value => rfl
      | surrogate following =>
          obtain ⟨_, unit, more, _, _, alone⟩ := escape_of_surrogate first
          obtain ⟨later, low, ends, same, escaped, ending⟩ := escape_of_surrogate second
          obtain ⟨rfl, isUnit, apart⟩ := alone_of_surrogate alone
          rw [← (alone_of_surrogate ending).2.1, isLow_ofUnit]
          refine apart ?_ later low ends same escaped
          rw [← isHigh_ofUnit, isUnit]
          exact high

theorem textBody_cases {start input rest : List Char} {fuel : Nat} {text : List Code}
    (read : textBody start fuel [] input = .ok (text, rest)) :
    text = [] ∨ ∃ less code more later, fuel = less + 1 ∧
      textPiece start input = .ok (some code, more) ∧
        textBody start less [] more = .ok (later, rest) ∧ text = code :: later := by
  cases fuel with
  | zero => cases read
  | succ fuel =>
      rw [textBody] at read
      split at read
      · cases read
      · cases read
        exact Or.inl rfl
      · rename_i code more piece
        rw [textBody_known] at read
        cases inner : textBody start fuel [] more with
        | error stop =>
            rw [inner] at read
            cases read
        | ok found =>
            rw [inner] at read
            cases read
            exact Or.inr ⟨fuel, code, more, found.1, rfl, piece, inner, rfl⟩

/-- No surrogates that the reader gives as lone ones are the halves of a pair. -/
theorem textBody_apart {start input rest : List Char} {fuel : Nat} {text : List Code}
    (read : textBody start fuel [] input = .ok (text, rest)) : IsApart text := by
  induction fuel generalizing input text with
  | zero => cases read
  | succ fuel induction =>
      obtain rfl | ⟨less, code, more, later, size, first, inner, rfl⟩ := textBody_cases read
      · trivial
      cases size
      have apart := induction inner
      obtain rfl | ⟨_, next, _, _, _, second, _, rfl⟩ := textBody_cases inner
      · trivial
      · exact ⟨textPiece_apart first second, apart⟩

end Json

end Restyle
