/-!
White space: the characters with the Unicode property `White_Space`, and the trimming and word
splitting that rest on it.
-/

namespace Prose.Text

/-- The characters with the property `White_Space`, all 25 of them. -/
def isBlank (c : Char) : Bool :=
  let n := c.toNat
  (0x09 ≤ n && n ≤ 0x0D) || n == 0x20 || n == 0x85 || n == 0xA0 || n == 0x1680 ||
    (0x2000 ≤ n && n ≤ 0x200A) || n == 0x2028 || n == 0x2029 || n == 0x202F || n == 0x205F ||
    n == 0x3000

def isBlankText (cs : List Char) : Bool := cs.all isBlank

/-- A text without the white space it begins with. -/
def trimStart (cs : List Char) : List Char := cs.dropWhile isBlank

/-- A text without the characters of a class it ends with. -/
def dropEndWhile (p : Char → Bool) (cs : List Char) : List Char := (cs.reverse.dropWhile p).reverse

def trimEnd (cs : List Char) : List Char := dropEndWhile isBlank cs

def trim (cs : List Char) : List Char := trimEnd (trimStart cs)

/-- The first run of characters that are no white space, if there is one. -/
def firstWord? (cs : List Char) : Option (List Char) :=
  match trimStart cs with
  | [] => none
  | c :: rest => some ((c :: rest).takeWhile fun d => !isBlank d)

end Prose.Text
