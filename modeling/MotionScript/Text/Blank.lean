/-!
# White space and letter case

Two notions of white space are in use.  Source text may be laid out with the five ASCII blanks;
names and times in definitions lose the white space of Unicode at both ends.  Names are compared
without regard to the case of ASCII letters.
-/

namespace MotionScript

/-- The blanks between tokens: space, tab, line feed, form feed and carriage return. -/
def isBlank (c : Char) : Bool :=
  c == ' ' || c == '\t' || c == '\n' || c == '\x0c' || c == '\r'

/-- The characters with the Unicode property White_Space. -/
def isWhiteSpace (c : Char) : Bool :=
  let code := c.toNat
  (0x9 ≤ code && code ≤ 0xD) || code == 0x20 || code == 0x85 || code == 0xA0 || code == 0x1680 ||
    (0x2000 ≤ code && code ≤ 0x200A) || code == 0x2028 || code == 0x2029 || code == 0x202F ||
    code == 0x205F || code == 0x3000

def trim (text : String) : String :=
  let dropped := text.toList.dropWhile isWhiteSpace
  String.ofList (dropped.reverse.dropWhile isWhiteSpace).reverse

def lowerCase (text : String) : String :=
  String.ofList (text.toList.map Char.toLower)

/-- Whether two texts are equal up to the case of ASCII letters. -/
def sameName (left right : String) : Bool :=
  lowerCase left == lowerCase right

end MotionScript
