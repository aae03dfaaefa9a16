import CoolTree.Proofs.Text.BareQuotes

/-!
# Quoted text read back

A reader goes over quoted text letter by letter and remembers only what it is in
the middle of: nothing, a backslash whose meaning is still to come, or the number
of a character.  It gives back the text that was quoted.  On the way between the
two double quotes it meets no third one that is bare, and no control character.
-/

namespace CoolTree.Text

/-! ## The reader -/

def digitValue? (letter : Char) : Option Nat :=
  (List.range 16).find? fun digit => digit.digitChar = letter

/-- What a reader of quoted text is in the middle of. -/
inductive Begun where
  | nothing
  /-- A backslash has been read. -/
  | escape
  /-- A backslash and the letter that announces a number have been read. -/
  | numbered
  /-- The digits read so far make a number. -/
  | digits (number : Nat)
deriving DecidableEq, Inhabited

/-- The characters that the letters up to the closing double quote stand for.
Nothing may follow this quote. -/
def unescape? : Begun → List Char → Option (List Char)
  | _, [] => none
  | .nothing, letter :: rest =>
      if letter = '\\' then unescape? .escape rest
      else if letter = '"' then if rest.isEmpty then some [] else none
      else (unescape? .nothing rest).map (letter :: ·)
  | .escape, letter :: rest =>
      if letter = 'u' then unescape? .numbered rest
      else (meaning? letter).bind fun character =>
        (unescape? .nothing rest).map (character :: ·)
  | .numbered, letter :: rest =>
      if letter = '\x7b' then unescape? (.digits 0) rest else none
  | .digits number, letter :: rest =>
      if letter = '\x7d' then
        if number.isValidChar then (unescape? .nothing rest).map (Char.ofNat number :: ·) else none
      else (digitValue? letter).bind fun digit => unescape? (.digits (16 * number + digit)) rest

def unquoted? (text : String) : Option String :=
  match text.toList with
  | [] => none
  | opening :: letters =>
      if opening = '"' then (unescape? .nothing letters).map String.ofList else none

theorem digitValue?_digitChar : ∀ digit < 16, digitValue? digit.digitChar = some digit := by
  decide

/-- The digits of a number are read as this number. -/
theorem unescape?_digits (number : Nat) (rest : List Char) :
    unescape? (.digits 0) (Nat.toDigits 16 number ++ rest) = unescape? (.digits number) rest := by
  have hbrace : ∀ digit < 16, Nat.digitChar digit ≠ '\x7d' := by decide
  induction number using Nat.strongRecOn generalizing rest with
  | ind number ih =>
      by_cases hnumber : number < 16
      · rw [Nat.toDigits_of_lt_base hnumber, List.singleton_append, unescape?,
          if_neg (hbrace number hnumber), digitValue?_digitChar number hnumber, Option.bind_some,
          Nat.mul_zero, Nat.zero_add]
      · have hless : number / 16 < number := by omega
        have hlast : number % 16 < 16 := Nat.mod_lt number (by decide)
        rw [Nat.toDigits_of_base_le (by decide) (Nat.le_of_not_lt hnumber), List.append_assoc,
          ih (number / 16) hless, List.singleton_append, unescape?, if_neg (hbrace _ hlast),
          digitValue?_digitChar _ hlast, Option.bind_some, Nat.div_add_mod]

/-- The code of a character is read as the character, unless it is a double quote
that stands for itself. -/
theorem unescape?_code {character : Char} {code : List Char} (hcode : Escape character code)
    (hquote : code ≠ ['"']) (rest : List Char) :
    unescape? .nothing (code ++ rest) = (unescape? .nothing rest).map (character :: ·) := by
  cases hcode with
  | plain hplain =>
      have hself : character ≠ '"' := fun hself => hquote (hself ▸ rfl)
      rw [List.singleton_append, unescape?, if_neg hplain.1, if_neg hself]
  | letter name hname =>
      have hnumber : name ≠ 'u' := by
        rintro rfl
        simp [meaning?] at hname
      rw [List.cons_append, List.singleton_append, unescape?, if_pos rfl, unescape?,
        if_neg hnumber, hname, Option.bind_some]
  | number =>
      have hvalid : character.toNat.isValidChar := character.valid
      have hshape : numberedCharacter character ++ rest =
          '\\' :: 'u' :: '\x7b' :: (Nat.toDigits 16 character.toNat ++ '\x7d' :: rest) := by
        simp [numberedCharacter]
      rw [hshape, unescape?, if_pos rfl, unescape?, if_pos rfl, unescape?, if_pos rfl,
        unescape?_digits, unescape?, if_pos rfl, if_pos hvalid, Char.ofNat_toNat]

theorem quotedCharacter_ne_quote (character : Char) : quotedCharacter character ≠ ['"'] := by
  unfold quotedCharacter
  split_ifs with hnull htab hreturn hfeed hmark hslash
  any_goals decide
  · simp [numberedCharacter]
  · intro hself
    exact hmark (List.singleton_inj.mp hself)

theorem unescape?_escaped (characters : List Char) :
    unescape? .nothing (characters.flatMap quotedCharacter ++ ['"']) = some characters := by
  induction characters with
  | nil => rfl
  | cons character rest ih =>
      rw [List.flatMap_cons, List.append_assoc, unescape?_code (escape_quotedCharacter character)
        (quotedCharacter_ne_quote character), ih, Option.map_some]

/-- Quoted text is read back, whatever stands in it. -/
theorem unquoted?_quoted (text : String) : unquoted? (quoted text) = some text := by
  rw [unquoted?, quoted, String.toList_ofList]
  dsimp only [List.cons_append]
  rw [if_pos rfl, unescape?_escaped, Option.map_some, String.ofList_toList]

/-! ## What stands in quoted text -/

theorem sealed_escaped (text : String) : Sealed (text.toList.flatMap quotedCharacter) := by
  apply sealed_flatMap
  intro character _
  exact (escape_quotedCharacter character).isSealed (quotedCharacter_ne_quote character)

/-- Of the double quotes in quoted text only the first and the last are bare. -/
theorem isBareQuote_quoted (text : String) (position : Nat) :
    IsBareQuote (quoted text).toList position ↔
      position = 0 ∨ position + 1 = (quoted text).toList.length := by
  have hquoted : (quoted text).toList =
      [] ++ '"' :: (text.toList.flatMap quotedCharacter ++ '"' :: []) := by
    rw [quoted, String.toList_ofList]
    rfl
  rw [hquoted, isBareQuote_around sealed_nil (sealed_escaped text) sealed_nil]
  simp only [List.nil_append, List.length_nil, List.length_cons, List.length_append]
  omega

def IsControl (character : Char) : Prop :=
  character.toNat < 0x20 ∨ (0x7f ≤ character.toNat ∧ character.toNat < 0xa0)

instance (character : Char) : Decidable (IsControl character) :=
  inferInstanceAs (Decidable (_ ∨ _))

theorem not_isControl_of_isPrintable {character : Char} (hprintable : IsPrintable character) :
    ¬ IsControl character := by
  rw [IsPrintable] at hprintable
  rw [IsControl]
  omega

/-- Quoted text does not let a control character stand for itself. -/
theorem not_isControl_of_plain {character : Char}
    (hnamed : character.toNat ≠ 0 ∧ character.toNat ≠ 9 ∧ character.toNat ≠ 10 ∧
      character.toNat ≠ 13)
    (hshown : isNonPrinting character = false) : ¬ IsControl character := by
  -- The first four ranges of the table reach up to the end of the controls.
  have htable : nonPrintingRanges =
      (0x1, 0x8) :: (0xb, 0xc) :: (0xe, 0x1f) :: (0x7f, 0xa0) :: nonPrintingRanges.drop 4 := rfl
  rw [isNonPrinting, htable] at hshown
  intro hcontrol
  rw [IsControl] at hcontrol
  simp only [coveredBy] at hshown
  split_ifs at hshown
  any_goals rw [decide_eq_false_iff_not] at hshown
  all_goals omega

theorem not_isControl_of_mem_quotedCharacter {character letter : Char}
    (member : letter ∈ quotedCharacter character) : ¬ IsControl letter := by
  have hpair : ∀ name, IsPrintable name → letter ∈ ['\\', name] → ¬ IsControl letter := by
    intro name hname hletter
    apply not_isControl_of_isPrintable
    rcases List.mem_cons.mp hletter with rfl | hname'
    · decide
    · exact List.mem_singleton.mp hname' ▸ hname
  unfold quotedCharacter at member
  split_ifs at member with hnull htab hreturn hfeed hmark hslash hnumbered
  iterate 6 exact hpair _ (by decide) member
  · exact not_isControl_of_isPrintable (isPrintable_of_mem_numberedCharacter member)
  · obtain rfl := List.mem_singleton.mp member
    have hnamed : ∀ other : Char, letter ≠ other → letter.toNat ≠ other.toNat :=
      fun _ hne heq => hne (Char.toNat_inj.mp heq)
    exact not_isControl_of_plain ⟨hnamed _ hnull, hnamed _ htab, hnamed _ hfeed, hnamed _ hreturn⟩
      (Bool.eq_false_iff.mpr hnumbered)

/-- No control character stands in quoted text. -/
theorem not_isControl_of_mem_quoted {text : String} {letter : Char}
    (member : letter ∈ (quoted text).toList) : ¬ IsControl letter := by
  have hquote : ¬ IsControl '"' := by decide
  rw [quoted, String.toList_ofList, List.mem_append, List.mem_cons, List.mem_flatMap,
    List.mem_singleton] at member
  rcases member with (rfl | ⟨character, _, hletter⟩) | rfl
  · exact hquote
  · exact not_isControl_of_mem_quotedCharacter hletter
  · exact hquote

end CoolTree.Text
