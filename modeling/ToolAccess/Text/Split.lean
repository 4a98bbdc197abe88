/-!
# Cutting texts into pieces

The pieces of a text that stand between occurrences of a character. There is one piece more than
there are occurrences, and joining the pieces by the character gives the text back.
-/

namespace ToolAccess.Text

/-- The pieces between the occurrences of a character. -/
def pieces (separator : Char) : List Char → List (List Char)
  | [] => [[]]
  | c :: cs =>
    if c = separator then [] :: pieces separator cs
    else
      match pieces separator cs with
      | [] => [[c]]
      | piece :: rest => (c :: piece) :: rest

theorem pieces_ne_nil (separator : Char) (cs : List Char) : pieces separator cs ≠ [] := by
  cases cs with
  | nil => simp [pieces]
  | cons c cs =>
    rw [pieces]
    split
    · simp
    · split <;> simp

/-- The pieces of a string. -/
def piecesOf (separator : Char) (s : String) : List String :=
  (pieces separator s.toList).map String.ofList

end ToolAccess.Text
