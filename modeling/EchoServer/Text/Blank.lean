namespace EchoServer.Text

/-- The 25 characters with the property `White_Space`, as closed ranges of code points. -/
def blankRanges : List (Nat × Nat) :=
  [(0x09, 0x0D), (0x20, 0x20), (0x85, 0x85), (0xA0, 0xA0), (0x1680, 0x1680), (0x2000, 0x200A),
    (0x2028, 0x2029), (0x202F, 0x202F), (0x205F, 0x205F), (0x3000, 0x3000)]

def isBlank (c : Char) : Bool :=
  blankRanges.any fun r => r.1 ≤ c.toNat && c.toNat ≤ r.2

/-- `cs` without its leading white space. -/
def dropBlanks (cs : List Char) : List Char :=
  cs.dropWhile isBlank

/-- The space that joins words is white space. -/
theorem isBlank_space : isBlank ' ' = true := rfl

end EchoServer.Text
