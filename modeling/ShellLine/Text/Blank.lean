import ShellLine.Text.Basic
import ShellLine.Text.CharRanges

/-! # White space

The characters with the property White_Space, and texts that hold nothing else. -/

namespace ShellLine.Text

def whiteSpace : CharRanges :=
  [(0x9, 0xd), (0x20, 0x20), (0x85, 0x85), (0xa0, 0xa0), (0x1680, 0x1680), (0x2000, 0x200a),
   (0x2028, 0x2029), (0x202f, 0x202f), (0x205f, 0x205f), (0x3000, 0x3000)]

def isWhiteSpace (c : Char) : Bool := whiteSpace.contains c

def trim (s : Text) : Text :=
  ((s.dropWhile isWhiteSpace).reverse.dropWhile isWhiteSpace).reverse

/-- Whether nothing but white space stands in the text. -/
def isWhite (s : Text) : Bool := s.all isWhiteSpace

end ShellLine.Text
