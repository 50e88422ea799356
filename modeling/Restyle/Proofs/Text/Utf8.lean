import Restyle.Text.Parts
import Restyle.Text.Utf8

/-!
# Text survives being written and read

Decoding gives back every text that was encoded, character by character.  A
text without carriage returns also survives the unification of its line ends.
-/

namespace Restyle.Text

variable {fuel following low high code : Nat} {rest later : List UInt8}

theorem decodeFrom_lead {lead : UInt8} (offset : Nat)
    (leads : continuation? lead.toNat = some (following, low, high))
    (continued : continueCharacter (leadBits lead.toNat following) 1 following low high rest =
      .ok (code, later)) :
    decodeFrom offset (fuel + 1) (lead :: rest) =
      match decodeFrom (offset + 1 + following) fuel later with
      | .error fault => .error fault
      | .ok text => .ok (Char.ofNat code :: text) := by
  cases decoded : decodeFrom (offset + 1 + following) fuel later with
  | error fault => simp only [decodeFrom, leads, continued, decoded]
  | ok text => simp only [decodeFrom, leads, continued, decoded]

theorem continueCharacter_byte {taken byte : Nat} (lower : low ≤ byte) (upper : byte ≤ high)
    (small : byte < 256) :
    continueCharacter code taken (following + 1) low high (UInt8.ofNat byte :: rest) =
      continueCharacter (code * 0x40 + byte % 0x40) (taken + 1) following 0x80 0xBF rest := by
  have size : (UInt8.ofNat byte).toNat = byte := by simp [small]
  simp [continueCharacter, size, lower, upper]

theorem continuation?_three {number : Nat} (lower : 0x7ff < number) (upper : number ≤ 0xffff)
    (valid : number < 0xD800 ∨ 0xDFFF < number) :
    ∃ low high, continuation? (number / 4096 + 0xe0) = some (2, low, high) ∧
      low ≤ number / 64 % 0x40 + 0x80 ∧ number / 64 % 0x40 + 0x80 ≤ high := by
  unfold continuation?
  rw [if_neg (by omega), if_neg (by omega), if_neg (by omega)]
  by_cases least : number / 4096 + 0xe0 = 0xE0
  · exact ⟨_, _, if_pos least, by omega, by omega⟩
  · rw [if_neg least]
    by_cases gap : number / 4096 + 0xe0 = 0xED
    · exact ⟨_, _, if_pos gap, by omega, by omega⟩
    · rw [if_neg gap]
      exact ⟨_, _, if_pos (by omega), by omega, by omega⟩

theorem continuation?_four {number : Nat} (lower : 0xffff < number) (upper : number < 0x110000) :
    ∃ low high, continuation? (number / 262144 + 0xf0) = some (3, low, high) ∧
      low ≤ number / 4096 % 0x40 + 0x80 ∧ number / 4096 % 0x40 + 0x80 ≤ high := by
  unfold continuation?
  rw [if_neg (by omega), if_neg (by omega), if_neg (by omega), if_neg (by omega),
    if_neg (by omega), if_neg (by omega)]
  by_cases least : number / 262144 + 0xf0 = 0xF0
  · exact ⟨_, _, if_pos least, by omega, by omega⟩
  · rw [if_neg least]
    by_cases inner : number / 262144 + 0xf0 < 0xF4
    · exact ⟨_, _, if_pos inner, by omega, by omega⟩
    · rw [if_neg inner]
      exact ⟨_, _, if_pos (by omega), by omega, by omega⟩

/-- Decoding takes the bytes of one character off the front. -/
theorem decodeFrom_encodeChar (character : Char) (offset : Nat) :
    decodeFrom offset (fuel + 1) (String.utf8EncodeChar character ++ rest) =
      match decodeFrom (offset + (String.utf8EncodeChar character).length) fuel rest with
      | .error fault => .error fault
      | .ok text => .ok (character :: text) := by
  have valid : character.val.toNat < 0xD800 ∨
      0xDFFF < character.val.toNat ∧ character.val.toNat < 0x110000 := character.valid
  have same : Char.ofNat character.val.toNat = character := Char.ofNat_toNat character
  unfold String.utf8EncodeChar
  dsimp only
  generalize character.val.toNat = number at valid same ⊢
  by_cases one : number ≤ 0x7f
  · have size : (UInt8.ofNat number).toNat = number := by simp; omega
    simp only [if_pos one, List.cons_append, List.nil_append, List.length_singleton]
    have leads : continuation? (UInt8.ofNat number).toNat = some (0, 0x80, 0xBF) := by
      rw [size, continuation?, if_pos (by omega)]
    rw [decodeFrom_lead offset leads rfl]
    simp only [leadBits, size, same, Nat.add_zero]
  · by_cases two : number ≤ 0x7ff
    · simp only [if_neg one, if_pos two, List.cons_append, List.nil_append, List.length_cons,
        List.length_nil]
      have size : (UInt8.ofNat (number / 64 % 0x20 + 0xc0)).toNat = number / 64 + 0xc0 := by
        simp
        omega
      have leads : continuation? (UInt8.ofNat (number / 64 % 0x20 + 0xc0)).toNat =
          some (1, 0x80, 0xBF) := by
        rw [size, continuation?, if_neg (by omega), if_neg (by omega), if_pos (by omega)]
      have continued : continueCharacter
          (leadBits (UInt8.ofNat (number / 64 % 0x20 + 0xc0)).toNat 1) 1 1 0x80 0xBF
            (UInt8.ofNat (number % 0x40 + 0x80) :: rest) = .ok (number, rest) := by
        rw [continueCharacter_byte (by omega) (by omega) (by omega), size]
        simp only [continueCharacter, leadBits, Except.ok.injEq, Prod.mk.injEq, and_true]
        omega
      rw [decodeFrom_lead offset leads continued, same]
    · by_cases three : number ≤ 0xffff
      · simp only [if_neg one, if_neg two, if_pos three, List.cons_append, List.nil_append,
          List.length_cons, List.length_nil]
        have size : (UInt8.ofNat (number / 4096 % 0x10 + 0xe0)).toNat = number / 4096 + 0xe0 := by
          simp
          omega
        obtain ⟨low, high, leads, lower, upper⟩ :=
          continuation?_three (by omega) three (by omega)
        rw [← size] at leads
        have continued : continueCharacter
            (leadBits (UInt8.ofNat (number / 4096 % 0x10 + 0xe0)).toNat 2) 1 2 low high
              (UInt8.ofNat (number / 64 % 0x40 + 0x80) ::
                UInt8.ofNat (number % 0x40 + 0x80) :: rest) = .ok (number, rest) := by
          rw [continueCharacter_byte lower upper (by omega),
            continueCharacter_byte (by omega) (by omega) (by omega), size]
          simp only [continueCharacter, leadBits, Except.ok.injEq, Prod.mk.injEq, and_true]
          omega
        rw [decodeFrom_lead offset leads continued, same]
      · simp only [if_neg one, if_neg two, if_neg three, List.cons_append, List.nil_append,
          List.length_cons, List.length_nil]
        have size : (UInt8.ofNat (number / 262144 % 0x08 + 0xf0)).toNat =
            number / 262144 + 0xf0 := by
          simp
          omega
        obtain ⟨low, high, leads, lower, upper⟩ :=
          @continuation?_four number (by omega) (by omega)
        rw [← size] at leads
        have continued : continueCharacter
            (leadBits (UInt8.ofNat (number / 262144 % 0x08 + 0xf0)).toNat 3) 1 3 low high
              (UInt8.ofNat (number / 4096 % 0x40 + 0x80) ::
                UInt8.ofNat (number / 64 % 0x40 + 0x80) ::
                  UInt8.ofNat (number % 0x40 + 0x80) :: rest) = .ok (number, rest) := by
          rw [continueCharacter_byte lower upper (by omega),
            continueCharacter_byte (by omega) (by omega) (by omega),
            continueCharacter_byte (by omega) (by omega) (by omega), size]
          simp only [continueCharacter, leadBits, Except.ok.injEq, Prod.mk.injEq, and_true]
          omega
        rw [decodeFrom_lead offset leads continued, same]

theorem decodeFrom_encode (text : List Char) (offset : Nat) (enough : text.length ≤ fuel) :
    decodeFrom offset fuel (encode text) = .ok text := by
  induction text generalizing offset fuel with
  | nil =>
      cases fuel with
      | zero => rfl
      | succ fuel => rfl
  | cons character text induction =>
      cases fuel with
      | zero => simp at enough
      | succ fuel =>
          have split : encode (character :: text) =
              String.utf8EncodeChar character ++ encode text := by
            simp [encode]
          rw [split, decodeFrom_encodeChar, induction _ (by simpa using enough)]

theorem length_le_length_encode (text : List Char) : text.length ≤ (encode text).length := by
  induction text with
  | nil => simp
  | cons character text induction =>
      have positive : 0 < (String.utf8EncodeChar character).length :=
        List.length_pos_iff.mpr String.utf8EncodeChar_ne_nil
      simp only [encode, List.flatMap_cons, List.length_append, List.length_cons] at induction ⊢
      omega

@[simp]
theorem decode_encode (text : List Char) : decode (encode text) = .ok text :=
  decodeFrom_encode text 0 (length_le_length_encode text)

theorem unifyBreaks_of_not_mem {text : List Char} (absent : '\r' ∉ text) :
    unifyBreaks text = text := by
  fun_induction unifyBreaks text with
  | case1 => rfl
  | case2 rest induction => simp at absent
  | case3 rest other induction => simp at absent
  | case4 character rest first second induction =>
      rw [induction (fun member => absent (List.mem_cons_of_mem _ member))]

end Restyle.Text
