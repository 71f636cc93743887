/-!
# Padded text

Text filled up with spaces to the width of a column. Text that is longer stays as it is.
-/

namespace Schematic.Text

/-- The spaces that a text lacks of a width. -/
def padding (width : Nat) (text : String) : String :=
  String.ofList (List.replicate (width - text.length) ' ')

/-- A text at the left of its column. -/
def padRight (width : Nat) (text : String) : String := text ++ padding width text

/-- A text at the right of its column. -/
def padLeft (width : Nat) (text : String) : String := padding width text ++ text

end Schematic.Text
