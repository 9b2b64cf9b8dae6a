import ImportSuffix.Text.Utf8

/-!
# Blank characters

The Unicode property White_Space.  It is wider than the ASCII class of
`Char.isWhitespace`, and leaves out the zero-width characters U+180E, U+200B and
U+FEFF.
-/

namespace ImportSuffix

/-- The ranges of the Unicode property White_Space, both ends included. -/
def blankRanges : List (Nat × Nat) :=
  [(0x9, 0xd), (0x20, 0x20), (0x85, 0x85), (0xa0, 0xa0), (0x1680, 0x1680), (0x2000, 0x200a),
    (0x2028, 0x2029), (0x202f, 0x202f), (0x205f, 0x205f), (0x3000, 0x3000)]

def isBlank (c : Char) : Bool :=
  blankRanges.any fun range => range.1 ≤ c.toNat && c.toNat ≤ range.2

end ImportSuffix
