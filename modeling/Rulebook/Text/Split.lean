/-!
# Splitting a text

A text is split at each separator into the parts between; their number is one
more than that of the separators.
-/

namespace Rulebook.Text

/-- The parts of a text between the separators in it. -/
def split (separator : Char) : List Char → List (List Char)
  | [] => [[]]
  | c :: rest =>
    let parts := split separator rest
    if c = separator then [] :: parts
    else (c :: parts.headD []) :: parts.tail

/-- The text in front of the first separator and the text behind it; without a
separator, the whole text and nothing. -/
def cut (separator : Char) (s : List Char) : List Char × List Char :=
  (s.takeWhile (· != separator), (s.dropWhile (· != separator)).drop 1)

theorem split_ne_nil (separator : Char) (s : List Char) :
    split separator s ≠ [] := by
  cases s with
  | nil => simp [split]
  | cons c rest =>
    unfold split
    split <;> simp

end Rulebook.Text
