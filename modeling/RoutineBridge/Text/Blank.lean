/-!
# White space

Which characters are blank, and trimming. The class is the Unicode property White_Space, so a
no-break space is trimmed as well as a tab.
-/

namespace RoutineBridge.Text

/-- The characters with the property White_Space. -/
def isBlank (c : Char) : Bool :=
  let n := c.toNat
  (9 ≤ n && n ≤ 13) || n == 32 || n == 0x85 || n == 0xA0 || n == 0x1680 ||
    (0x2000 ≤ n && n ≤ 0x200A) || n == 0x2028 || n == 0x2029 || n == 0x202F || n == 0x205F ||
    n == 0x3000

def trimStart (cs : List Char) : List Char := cs.dropWhile isBlank

def trimEnd (cs : List Char) : List Char := (cs.reverse.dropWhile isBlank).reverse

def trim (cs : List Char) : List Char := trimEnd (trimStart cs)

/-- Nothing but blanks, or nothing at all. -/
def isBlankText (cs : List Char) : Bool := cs.all isBlank

/-- A string without the blanks at either end. -/
def trimmed (s : String) : String := String.ofList (trim s.toList)

end RoutineBridge.Text
