namespace EchoServer.Text

/-- The count that a text spells, however large. -/
def countOf? (text : String) : Option Nat :=
  let ds := match text.toList with
    | '+' :: ds => ds
    | ds => ds
  if !ds.isEmpty && ds.all Char.isDigit then some (Nat.ofDigitChars 10 ds 0) else none

end EchoServer.Text
