/-!
# Padding

Text laid out in columns: cut to at most a number of characters, then filled up with blanks to at
least a number of characters. Widths count characters, and a centred text has the smaller half of
the blanks on its left.
-/

namespace ToolAccess.Text

/-- Where a text stands in its column. -/
inductive Alignment where
  | left
  | right
  | center
  deriving DecidableEq, Repr

/-- The number of blanks on the left of a text that leaves `free` columns empty. -/
def Alignment.leading (a : Alignment) (free : Nat) : Nat :=
  match a with
  | .left => 0
  | .right => free
  | .center => free / 2

/-- A text cut to `precision` characters, if that is given, and filled up to `width`. -/
def pad (alignment : Alignment) (width : Nat) (precision : Option Nat) (text : String) : String :=
  let shown := match precision with
    | some n => text.toList.take n
    | none => text.toList
  let free := width - shown.length
  let before := alignment.leading free
  String.ofList (List.replicate before ' ' ++ shown ++ List.replicate (free - before) ' ')

end ToolAccess.Text
