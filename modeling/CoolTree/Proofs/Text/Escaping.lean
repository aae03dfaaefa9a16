import CoolTree.Proofs.Text.Separation
import CoolTree.Text.Label
import CoolTree.Text.Quoted
import Mathlib.Tactic.SplitIfs

/-!
# Reading escaped text

Labels and quoted text write their characters one by one, and each character in
one of three forms: as itself, by a letter behind a backslash, or by its number
behind a backslash.  The form tells the character, whatever follows, so both
kinds of text are read back, and neither of them holds a line feed.
-/

namespace CoolTree.Text

/-! ## Digits -/

theorem not_mem_decimal {letter : Char} (hletter : letter.isDigit = false) (number : Nat) :
    letter ∉ Nat.toDigits 10 number := by
  intro member
  have hdigit := Nat.isDigit_of_mem_toDigits (by decide) (by decide) member
  exact Bool.false_ne_true (hletter.symm.trans hdigit)

theorem digitChar_injective : ∀ left < 16, ∀ right < 16,
    Nat.digitChar left = Nat.digitChar right → left = right := by
  decide

theorem hexadecimal_injective {left right : Nat}
    (heq : Nat.toDigits 16 left = Nat.toDigits 16 right) : left = right := by
  induction left using Nat.strongRecOn generalizing right with
  | ind left ih =>
      by_cases hleft : left < 16
      · by_cases hright : right < 16
        · rw [Nat.toDigits_of_lt_base hleft, Nat.toDigits_of_lt_base hright] at heq
          exact digitChar_injective left hleft right hright (List.cons.inj heq).1
        · rw [Nat.toDigits_of_lt_base hleft, Nat.toDigits_of_base_le (by decide) (by omega)] at heq
          have hnone := (List.append_eq_singleton_iff.mp heq.symm)
          simp [Nat.toDigits_ne_nil] at hnone
      · by_cases hright : right < 16
        · rw [Nat.toDigits_of_lt_base hright, Nat.toDigits_of_base_le (by decide) (by omega)] at heq
          have hnone := (List.append_eq_singleton_iff.mp heq)
          simp [Nat.toDigits_ne_nil] at hnone
        · rw [Nat.toDigits_of_base_le (by decide) (Nat.le_of_not_lt hleft),
            Nat.toDigits_of_base_le (by decide) (Nat.le_of_not_lt hright)] at heq
          obtain ⟨hfront, hlast⟩ := List.append_inj' heq rfl
          have hquotient := ih (left / 16) (by omega) hfront
          have hremainder := digitChar_injective (left % 16) (Nat.mod_lt left (by decide))
            (right % 16) (Nat.mod_lt right (by decide)) (List.cons.inj hlast).1
          omega

/-- The digits of a number are digits of its base. -/
theorem exists_digit_of_mem_hexadecimal {number : Nat} {letter : Char}
    (member : letter ∈ Nat.toDigits 16 number) : ∃ digit < 16, letter = digit.digitChar := by
  induction number using Nat.strongRecOn with
  | ind number ih =>
      by_cases hnumber : number < 16
      · rw [Nat.toDigits_of_lt_base hnumber, List.mem_singleton] at member
        exact ⟨number, hnumber, member⟩
      · rw [Nat.toDigits_of_base_le (by decide) (Nat.le_of_not_lt hnumber), List.mem_append,
          List.mem_singleton] at member
        rcases member with hfront | hlast
        · exact ih (number / 16) (by omega) hfront
        · exact ⟨number % 16, Nat.mod_lt number (by decide), hlast⟩

theorem not_mem_hexadecimal {letter : Char} (hletter : ∀ digit < 16, Nat.digitChar digit ≠ letter)
    (number : Nat) : letter ∉ Nat.toDigits 16 number := by
  intro member
  obtain ⟨digit, hdigit, rfl⟩ := exists_digit_of_mem_hexadecimal member
  exact hletter digit hdigit rfl

/-! ## Escaped characters -/

/-- The character that a letter behind a backslash stands for. -/
def meaning? : Char → Option Char
  | '0' => some '\x00'
  | 't' => some '\t'
  | 'r' => some '\r'
  | 'n' => some '\n'
  | '\'' => some '\''
  | '"' => some '"'
  | '\\' => some '\\'
  | _ => none

/-- The forms in which escaped text writes a character. -/
inductive Escape (character : Char) : List Char → Prop
  | plain (hplain : character ≠ '\\' ∧ character ≠ '\n') : Escape character [character]
  | letter (name : Char) (hname : meaning? name = some character) :
      Escape character ['\\', name]
  | number : Escape character (numberedCharacter character)

namespace Escape

variable {character other : Char} {code : List Char}

/-- The code of a character tells the character, whatever follows. -/
theorem eq_of_append_eq {otherCode rest otherRest : List Char} (hcode : Escape character code)
    (hother : Escape other otherCode) (heq : code ++ rest = otherCode ++ otherRest) :
    character = other := by
  cases hcode with
  | plain hplain =>
      cases hother with
      | plain _ => exact (List.cons.inj heq).1
      | letter _ _ => exact absurd (List.cons.inj heq).1 hplain.1
      | number => exact absurd (List.cons.inj heq).1 hplain.1
  | letter name hname =>
      cases hother with
      | plain hplain => exact absurd (List.cons.inj heq).1.symm hplain.1
      | letter otherName hotherName =>
          obtain rfl : name = otherName := (List.cons.inj (List.cons.inj heq).2).1
          exact Option.some.inj (hname.symm.trans hotherName)
      | number =>
          obtain rfl : name = 'u' := (List.cons.inj (List.cons.inj heq).2).1
          simp [meaning?] at hname
  | number =>
      cases hother with
      | plain hplain => exact absurd (List.cons.inj heq).1.symm hplain.1
      | letter name hname =>
          obtain rfl : 'u' = name := (List.cons.inj (List.cons.inj heq).2).1
          simp [meaning?] at hname
      | number =>
          simp only [numberedCharacter, List.append_assoc, List.append_cancel_left_eq] at heq
          have hbrace : ∀ digit < 16, Nat.digitChar digit ≠ '\x7d' := by decide
          obtain ⟨hdigits, _⟩ := eq_of_append_mark_eq (not_mem_hexadecimal hbrace character.toNat)
            (not_mem_hexadecimal hbrace other.toNat) heq
          exact Char.toNat_inj.mp (hexadecimal_injective hdigits)

theorem ne_nil (hcode : Escape character code) : code ≠ [] := by
  cases hcode <;> simp [numberedCharacter]

/-- No line feed is written. -/
theorem lineFeed_not_mem (hcode : Escape character code) : '\n' ∉ code := by
  cases hcode with
  | plain hplain => simpa using hplain.2.symm
  | letter name hname =>
      have hfeed : name ≠ '\n' := by
        rintro rfl
        simp [meaning?] at hname
      simpa using hfeed.symm
  | number =>
      have hfeed : ∀ digit < 16, Nat.digitChar digit ≠ '\n' := by decide
      simp [numberedCharacter, not_mem_hexadecimal hfeed character.toNat]

end Escape

theorem escape_labelCharacter (character : Char) : Escape character (labelCharacter character) := by
  unfold labelCharacter
  split_ifs with htab hreturn hfeed hquote hprintable
  · exact htab ▸ .letter 't' rfl
  · exact hreturn ▸ .letter 'r' rfl
  · exact hfeed ▸ .letter 'n' rfl
  · rcases hquote with rfl | rfl | rfl <;> exact .letter _ rfl
  · exact .plain ⟨fun hslash => hquote (Or.inr (Or.inr hslash)), hfeed⟩
  · exact .number

theorem escape_quotedCharacter (character : Char) :
    Escape character (quotedCharacter character) := by
  unfold quotedCharacter
  split_ifs with hnull htab hreturn hfeed hquote hslash
  · exact hnull ▸ .letter '0' rfl
  · exact htab ▸ .letter 't' rfl
  · exact hreturn ▸ .letter 'r' rfl
  · exact hfeed ▸ .letter 'n' rfl
  · exact hquote ▸ .letter '"' rfl
  · exact hslash ▸ .letter '\\' rfl
  · exact .number
  · exact .plain ⟨hslash, hfeed⟩

/-! ## Escaped text -/

section Codes

variable {code : Char → List Char} (hcode : ∀ character, Escape character (code character))
include hcode

theorem eq_of_escaped_eq {left right : String}
    (heq : left.toList.flatMap code = right.toList.flatMap code) : left = right := by
  have htells : TellsApart (fun _ => True) code := by
    intro left right leftRest rightRest _ _ heq
    exact (hcode left).eq_of_append_eq (hcode right) heq
  apply String.toList_inj.mp
  exact htells.eq_of_flatMap_eq (fun character => (hcode character).ne_nil)
    (fun _ _ => trivial) (fun _ _ => trivial) heq

theorem lineFeed_not_mem_escaped (text : String) : '\n' ∉ text.toList.flatMap code := by
  intro member
  obtain ⟨character, _, hfeed⟩ := List.mem_flatMap.mp member
  exact (hcode character).lineFeed_not_mem hfeed

end Codes

theorem escapedLabel_injective : Function.Injective escapedLabel := by
  intro left right heq
  exact eq_of_escaped_eq escape_labelCharacter (String.ofList_inj.mp heq)

theorem lineFeed_not_mem_escapedLabel (text : String) : '\n' ∉ (escapedLabel text).toList := by
  rw [escapedLabel, String.toList_ofList]
  exact lineFeed_not_mem_escaped escape_labelCharacter text

theorem quoted_injective : Function.Injective quoted := by
  intro left right heq
  have hcodes := (List.cons.inj (String.ofList_inj.mp heq)).2
  exact eq_of_escaped_eq escape_quotedCharacter (List.append_cancel_right hcodes)

theorem lineFeed_not_mem_quoted (text : String) : '\n' ∉ (quoted text).toList := by
  have hcodes := lineFeed_not_mem_escaped escape_quotedCharacter text
  simp [quoted, hcodes]

end CoolTree.Text
