/-!
# Blank characters

Two classes of blank characters: the Unicode property `White_Space`, by which the ends of a
statement are trimmed, and the six blanks of ASCII, which separate the words of a statement.
-/

namespace ProtoWorkspace.Text

/-- The characters with the Unicode property `White_Space`. -/
def isBlank (c : Char) : Bool :=
  let n := c.toNat
  (9 ≤ n && n ≤ 13) || n == 0x20 || n == 0x85 || n == 0xA0 || n == 0x1680 ||
    (0x2000 ≤ n && n ≤ 0x200A) || n == 0x2028 || n == 0x2029 || n == 0x202F || n == 0x205F ||
    n == 0x3000

/-- The blanks of ASCII: tab, line feed, vertical tab, form feed, carriage return and space. -/
def isAsciiBlank (c : Char) : Bool :=
  (9 ≤ c.toNat && c.toNat ≤ 13) || c.toNat == 0x20

theorem isBlank_of_isAsciiBlank {c : Char} (h : isAsciiBlank c = true) : isBlank c = true := by
  simp only [isAsciiBlank, Bool.or_eq_true] at h
  rcases h with h | h <;> simp [isBlank, h]

def trim (cs : List Char) : List Char :=
  ((cs.dropWhile isBlank).reverse.dropWhile isBlank).reverse

end ProtoWorkspace.Text
