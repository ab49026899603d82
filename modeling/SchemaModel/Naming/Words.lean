/-!
The words of a text: maximal runs of ASCII letters and digits, broken further where a capital
follows a small letter or a digit. Words are what generated names are made of.
-/
namespace SchemaModel.Naming

/-- Characters that a word may hold. -/
def isWordChar (c : Char) : Bool := c.isAlphanum

/-- Whether a new word begins between two neighbouring characters. -/
def isHump (c d : Char) : Bool := (c.isLower || c.isDigit) && d.isUpper

/-- Whether a word that ends with `c` goes on with the text that follows. -/
def continues (c : Char) : List Char → Bool
  | [] => false
  | d :: _ => isWordChar d && !isHump c d

/-- Puts a character in front of the first word. -/
def extend (c : Char) : List (List Char) → List (List Char)
  | [] => [[c]]
  | w :: ws => (c :: w) :: ws

/-- The words of a text, in order. -/
def words : List Char → List (List Char)
  | [] => []
  | c :: cs =>
    if isWordChar c then
      if continues c cs then extend c (words cs) else [c] :: words cs
    else words cs

theorem words_cons_of_continues {c : Char} {cs : List Char} (hc : isWordChar c = true)
    (h : continues c cs = true) : words (c :: cs) = extend c (words cs) := by
  simp [words, hc, h]

/-- Nothing but the characters between words is lost. -/
theorem flatten_words (cs : List Char) : (words cs).flatten = cs.filter isWordChar := by
  induction cs with
  | nil => rfl
  | cons c cs ih =>
    simp only [words]
    by_cases hc : isWordChar c = true
    · by_cases h : continues c cs = true
      · cases hw : words cs with
        | nil => simp_all [extend]
        | cons w ws => simp_all [extend]
      · simp_all
    · simp_all

end SchemaModel.Naming
