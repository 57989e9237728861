/-!
# Blank characters

Blanks separate lexemes and are trimmed from both ends of an entry.  They are
the characters with the Unicode property `White_Space`, a larger class than the
six ASCII characters of `Char.isWhitespace`.
-/

namespace InfixCalculator.Text

/-- The Unicode property `White_Space`. -/
def isBlank (c : Char) : Bool :=
  let n := c.toNat
  (0x09 ≤ n && n ≤ 0x0d) || n == 0x20 || n == 0x85 || n == 0xa0 || n == 0x1680 ||
    (0x2000 ≤ n && n ≤ 0x200a) || n == 0x2028 || n == 0x2029 || n == 0x202f ||
    n == 0x205f || n == 0x3000

/-- A list without the longest tail whose elements all satisfy `p`. -/
def dropEndWhile (p : α → Bool) (l : List α) : List α :=
  (l.reverse.dropWhile p).reverse

def trim (text : String) : String :=
  .ofList (dropEndWhile isBlank (text.toList.dropWhile isBlank))

theorem dropEndWhile_concat_of_pos {p : α → Bool} {a : α} (l : List α) (h : p a = true) :
    dropEndWhile p (l ++ [a]) = dropEndWhile p l := by
  simp [dropEndWhile, h]

theorem dropEndWhile_concat_of_neg {p : α → Bool} {a : α} (l : List α) (h : p a = false) :
    dropEndWhile p (l ++ [a]) = l ++ [a] := by
  simp [dropEndWhile, h]

end InfixCalculator.Text
