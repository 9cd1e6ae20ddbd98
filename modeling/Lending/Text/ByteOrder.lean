/-!
# The order of texts by their UTF-8 bytes

`Text.bytes` is the view; two texts are compared as their byte lists are, shorter first when one
begins the other. Reports and label lists are sorted by this order, which no locale changes. It is
the order in which the keys of tags stand in an exposition text: of two keys the one whose first
different byte is smaller comes first, so that upper case stands before lower case, and ASCII before
everything else.
-/

namespace Lending.Text

/-- The UTF-8 bytes of a text. -/
def bytes (s : String) : List UInt8 := s.toUTF8.data.toList

/-- Whether `s` comes before `t` or is `t`. -/
def before (s t : String) : Bool := decide (bytes s ≤ bytes t)

/-- A list in the order of one text of each entry; entries with equal texts keep their order. -/
def sortOn {α : Type} (key : α → String) (xs : List α) : List α :=
  xs.mergeSort fun a b => before (key a) (key b)

end Lending.Text
