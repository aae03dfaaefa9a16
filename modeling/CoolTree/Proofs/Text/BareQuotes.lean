import CoolTree.Proofs.Text.Escaping

/-!
# Quotes behind backslashes

A reader of quoted text takes a double quote for the end of the text unless an odd
run of backslashes stands right before it.  Such a quote is bare.  Escaped text
holds no bare quote, wherever it stands, as long as no backslash before it is left
over: every backslash that it writes is one of a pair or is followed by a letter,
and so none is left over behind it either.
-/

namespace CoolTree.Text

/-! ## Bare quotes -/

/-- The length of the run of backslashes that some letters end with. -/
def trailingBackslashes (letters : List Char) : Nat :=
  (letters.reverse.takeWhile (· = '\\')).length

/-- A double quote stands at the position, and no odd run of backslashes right
before it. -/
def IsBareQuote (letters : List Char) (position : Nat) : Prop :=
  letters[position]? = some '"' ∧ trailingBackslashes (letters.take position) % 2 = 0

@[simp]
theorem trailingBackslashes_nil : trailingBackslashes [] = 0 := rfl

@[simp]
theorem trailingBackslashes_append_backslash (letters : List Char) :
    trailingBackslashes (letters ++ ['\\']) = trailingBackslashes letters + 1 := by
  simp [trailingBackslashes]

theorem trailingBackslashes_append_singleton {letter : Char} (hletter : letter ≠ '\\')
    (letters : List Char) : trailingBackslashes (letters ++ [letter]) = 0 := by
  simp [trailingBackslashes, hletter]

@[simp]
theorem not_isBareQuote_nil (position : Nat) : ¬ IsBareQuote [] position := by
  simp [IsBareQuote]

/-- What is written behind some letters does not change which quotes are bare in them. -/
theorem isBareQuote_append_singleton {letters : List Char} {letter : Char} {position : Nat} :
    IsBareQuote (letters ++ [letter]) position ↔
      IsBareQuote letters position ∨
        (position = letters.length ∧ letter = '"' ∧ trailingBackslashes letters % 2 = 0) := by
  -- The position is inside the letters, at the one behind them, or beyond it.
  rcases Nat.lt_trichotomy position letters.length with hless | rfl | hgreater
  · rw [IsBareQuote, IsBareQuote, List.getElem?_append_left hless,
      List.take_append_of_le_length (Nat.le_of_lt hless)]
    have hne : position ≠ letters.length := Nat.ne_of_lt hless
    simp [hne]
  · simp [IsBareQuote]
  · have hnone : letters[position]? = none := List.getElem?_eq_none (Nat.le_of_lt hgreater)
    have hbehind : (letters ++ [letter])[position]? = none := by
      apply List.getElem?_eq_none
      rwa [List.length_append, List.length_singleton]
    have hne : position ≠ letters.length := Nat.ne_of_gt hgreater
    simp [IsBareQuote, hnone, hbehind, hne]

/-- Written behind letters that leave no backslash over, the code holds no bare quote
and leaves none over. -/
def Sealed (code : List Char) : Prop :=
  ∀ letters, trailingBackslashes letters % 2 = 0 →
    trailingBackslashes (letters ++ code) % 2 = 0 ∧
      ∀ position, IsBareQuote (letters ++ code) position ↔ IsBareQuote letters position

theorem sealed_nil : Sealed [] := by
  intro letters heven
  simp [heven]

theorem Sealed.append {left right : List Char} (hleft : Sealed left) (hright : Sealed right) :
    Sealed (left ++ right) := by
  intro letters heven
  obtain ⟨hbetween, hfirst⟩ := hleft letters heven
  obtain ⟨hbehind, hsecond⟩ := hright (letters ++ left) hbetween
  rw [← List.append_assoc]
  exact ⟨hbehind, fun position => (hsecond position).trans (hfirst position)⟩

/-- A letter that is neither a backslash nor a double quote. -/
theorem sealed_singleton {letter : Char} (hslash : letter ≠ '\\') (hquote : letter ≠ '"') :
    Sealed [letter] := by
  intro letters heven
  constructor
  · rw [trailingBackslashes_append_singleton hslash]
  · intro position
    rw [isBareQuote_append_singleton]
    simp [hquote]

/-- A backslash and the letter behind it, which may be a backslash or a double quote. -/
theorem sealed_pair (letter : Char) : Sealed ['\\', letter] := by
  intro letters heven
  have hodd : ¬ trailingBackslashes (letters ++ ['\\']) % 2 = 0 := by
    rw [trailingBackslashes_append_backslash]
    omega
  rw [List.append_cons]
  constructor
  · by_cases hletter : letter = '\\'
    · rw [hletter, trailingBackslashes_append_backslash, trailingBackslashes_append_backslash]
      omega
    · rw [trailingBackslashes_append_singleton hletter]
  · intro position
    have hslash : '\\' ≠ '"' := by decide
    simp only [isBareQuote_append_singleton, hodd, hslash, and_false, false_and, or_false]

theorem sealed_flatMap {Symbol : Type} {code : Symbol → List Char} {symbols : List Symbol}
    (hcode : ∀ symbol ∈ symbols, Sealed (code symbol)) : Sealed (symbols.flatMap code) := by
  induction symbols with
  | nil => exact sealed_nil
  | cons symbol rest ih =>
      rw [List.forall_mem_cons] at hcode
      rw [List.flatMap_cons]
      exact hcode.1.append (ih hcode.2)

theorem sealed_of_plain {letters : List Char} (hslash : '\\' ∉ letters) (hquote : '"' ∉ letters) :
    Sealed letters := by
  have hletters : letters.flatMap (fun letter => [letter]) = letters := by simp
  rw [← hletters]
  apply sealed_flatMap
  intro letter member
  apply sealed_singleton
  · rintro rfl
    exact hslash member
  · rintro rfl
    exact hquote member

/-! ## Escaped text -/

theorem sealed_numberedCharacter (character : Char) : Sealed (numberedCharacter character) := by
  have hslash : ∀ digit < 16, Nat.digitChar digit ≠ '\\' := by decide
  have hquote : ∀ digit < 16, Nat.digitChar digit ≠ '"' := by decide
  have hnumber : Sealed ('\x7b' :: (Nat.toDigits 16 character.toNat ++ ['\x7d'])) := by
    apply sealed_of_plain
    · simp [not_mem_hexadecimal hslash]
    · simp [not_mem_hexadecimal hquote]
  simpa [numberedCharacter] using (sealed_pair 'u').append hnumber

/-- An escaped character is sealed, unless it is a double quote that stands for itself. -/
theorem Escape.isSealed {character : Char} {code : List Char} (hcode : Escape character code)
    (hquote : code ≠ ['"']) : Sealed code := by
  cases hcode with
  | plain hplain => exact sealed_singleton hplain.1 fun hself => hquote (hself ▸ rfl)
  | letter name hname => exact sealed_pair name
  | number => exact sealed_numberedCharacter character

theorem labelCharacter_ne_quote (character : Char) : labelCharacter character ≠ ['"'] := by
  unfold labelCharacter
  split_ifs with htab hreturn hfeed hmark hprintable
  any_goals decide
  · simp
  · rintro hself
    exact hmark (Or.inr (Or.inl (List.singleton_inj.mp hself)))
  · simp [numberedCharacter]

theorem sealed_escapedLabel (text : String) : Sealed (escapedLabel text).toList := by
  rw [escapedLabel, String.toList_ofList]
  apply sealed_flatMap
  intro character _
  exact (escape_labelCharacter character).isSealed (labelCharacter_ne_quote character)

/-- Of the double quotes in a line only the two around its sealed middle are bare, when
what stands on either side is sealed as well. -/
theorem isBareQuote_around {front middle back : List Char} (hfront : Sealed front)
    (hmiddle : Sealed middle) (hback : Sealed back) (position : Nat) :
    IsBareQuote (front ++ '"' :: (middle ++ '"' :: back)) position ↔
      position = front.length ∨ position = front.length + 1 + middle.length := by
  obtain ⟨hopening, hnone⟩ := hfront [] rfl
  rw [List.nil_append] at hopening hnone
  have hquote : ('"' : Char) ≠ '\\' := by decide
  have hbehind := trailingBackslashes_append_singleton hquote front
  obtain ⟨hclosing, hinside⟩ := hmiddle (front ++ ['"']) (by rw [hbehind])
  have hend := trailingBackslashes_append_singleton hquote (front ++ ['"'] ++ middle)
  obtain ⟨-, hrest⟩ := hback (front ++ ['"'] ++ middle ++ ['"']) (by rw [hend])
  have hline : front ++ '"' :: (middle ++ '"' :: back) =
      front ++ ['"'] ++ middle ++ ['"'] ++ back := by simp
  rw [hline, hrest, isBareQuote_append_singleton, hinside, isBareQuote_append_singleton, hnone]
  simp only [hopening, hclosing, not_isBareQuote_nil, false_or, and_true, List.length_append,
    List.length_singleton]

/-- Of the double quotes in a line only the two around a label are bare, when no
other stands in the line. -/
theorem isBareQuote_around_label {front back : List Char} (hfront : Sealed front)
    (hback : Sealed back) (text : String) (position : Nat) :
    IsBareQuote (front ++ '"' :: ((escapedLabel text).toList ++ '"' :: back)) position ↔
      position = front.length ∨
        position = front.length + 1 + (escapedLabel text).toList.length :=
  isBareQuote_around hfront (sealed_escapedLabel text) hback position

/-! ## Printable letters -/

def IsPrintable (character : Char) : Prop :=
  0x20 ≤ character.toNat ∧ character.toNat ≤ 0x7e

instance (character : Char) : Decidable (IsPrintable character) :=
  inferInstanceAs (Decidable (_ ∧ _))

theorem isPrintable_of_mem {letters : List Char} {letter : Char} (member : letter ∈ letters)
    (hall : (letters.all fun letter => decide (IsPrintable letter)) = true) :
    IsPrintable letter :=
  of_decide_eq_true (List.all_eq_true.mp hall letter member)

theorem isPrintable_of_mem_decimal {letter : Char} {number : Nat}
    (member : letter ∈ Nat.toDigits 10 number) : IsPrintable letter := by
  have hdigit := Nat.isDigit_of_mem_toDigits (by decide) (by decide) member
  simp only [Char.isDigit, ge_iff_le, Bool.and_eq_true, decide_eq_true_eq,
    UInt32.le_iff_toNat_le] at hdigit
  change 48 ≤ letter.toNat ∧ letter.toNat ≤ 57 at hdigit
  rw [IsPrintable]
  omega

theorem isPrintable_of_mem_numberedCharacter {character letter : Char}
    (member : letter ∈ numberedCharacter character) : IsPrintable letter := by
  have hdigits : ∀ digit < 16, IsPrintable (Nat.digitChar digit) := by decide
  simp only [numberedCharacter, List.mem_append] at member
  rcases member with (hopening | hnumber) | hclosing
  · exact isPrintable_of_mem hopening (by decide)
  · obtain ⟨digit, hdigit, rfl⟩ := exists_digit_of_mem_hexadecimal hnumber
    exact hdigits digit hdigit
  · exact isPrintable_of_mem hclosing (by decide)

theorem isPrintable_of_mem_labelCharacter {character letter : Char}
    (member : letter ∈ labelCharacter character) : IsPrintable letter := by
  unfold labelCharacter at member
  split_ifs at member with htab hreturn hfeed hmark hprintable
  · exact isPrintable_of_mem member (by decide)
  · exact isPrintable_of_mem member (by decide)
  · exact isPrintable_of_mem member (by decide)
  · have hself : IsPrintable character := by
      rcases hmark with rfl | rfl | rfl <;> decide
    rcases List.mem_cons.mp member with rfl | hletter
    · decide
    · exact List.mem_singleton.mp hletter ▸ hself
  · exact List.mem_singleton.mp member ▸ hprintable
  · exact isPrintable_of_mem_numberedCharacter member

theorem isPrintable_of_mem_escapedLabel {text : String} {letter : Char}
    (member : letter ∈ (escapedLabel text).toList) : IsPrintable letter := by
  rw [escapedLabel, String.toList_ofList, List.mem_flatMap] at member
  obtain ⟨character, _, hletter⟩ := member
  exact isPrintable_of_mem_labelCharacter hletter

end CoolTree.Text
