/-!
# Blank characters and line ends

The characters that count as blank, trimming, and the split of a text into lines.
Both work on lists of characters; the two functions on `String` only wrap them.
-/
namespace Admission.Text

/-- The blank characters: the ASCII blanks, the four separators U+001C to U+001F, and the blanks
of the Unicode space categories. -/
def isBlank (c : Char) : Bool :=
  let n := c.toNat
  (0x09 ≤ n && n ≤ 0x0d) || (0x1c ≤ n && n ≤ 0x20) || n == 0x85 || n == 0xa0 || n == 0x1680 ||
    (0x2000 ≤ n && n ≤ 0x200a) || n == 0x2028 || n == 0x2029 || n == 0x202f || n == 0x205f ||
    n == 0x3000

/-- The characters without the blanks at either end. -/
def trim (cs : List Char) : List Char :=
  ((cs.dropWhile isBlank).reverse.dropWhile isBlank).reverse

/-- The text without the blanks at either end. -/
def strip (s : String) : String := String.ofList (trim s.toList)

/-- The characters that end a line. -/
def isLineEnd (c : Char) : Bool :=
  let n := c.toNat
  (0x0a ≤ n && n ≤ 0x0d) || (0x1c ≤ n && n ≤ 0x1e) || n == 0x85 || n == 0x2028 || n == 0x2029

/-- The lines after `seen`, which holds the characters of the open line in reverse. A carriage
return with the line feed after it is one line end, and an empty last line is no line. -/
def linesFrom (seen : List Char) : List Char → List (List Char)
  | [] => if seen.isEmpty then [] else [seen.reverse]
  | '\r' :: '\n' :: rest => seen.reverse :: linesFrom [] rest
  | c :: rest =>
    if isLineEnd c then seen.reverse :: linesFrom [] rest else linesFrom (c :: seen) rest

def lines (s : String) : List String := (linesFrom [] s.toList).map String.ofList

end Admission.Text
