import Prose.Text.Basic

/-!
Names of variables and parameters. A name keeps the spelling it was written with and is compared
without regard to the case of ASCII letters.
-/

namespace Prose

/-- A name as written, with the spelling by which names are compared. -/
structure Name where
  text : String
  key : String
  key_eq : key = Text.lowerString text

namespace Name

def ofString (text : String) : Name := ⟨text, Text.lowerString text, rfl⟩

instance : Inhabited Name := ⟨ofString ""⟩

/-- Whether two spellings name the same thing. -/
def same (m n : Name) : Bool := m.key == n.key

instance : BEq Name := ⟨same⟩

/-- Whether the name is the given word, in any case. -/
def isWord (n : Name) (word : String) : Bool := Text.sameLetters n.key word

end Name

end Prose
