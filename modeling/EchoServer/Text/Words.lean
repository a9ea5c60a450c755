import EchoServer.Text.Blank

/-! A text is read from its end. The state is the run that touches the left edge of what was read,
and the words to the right of that run. -/
namespace EchoServer.Text

/-- `run` put before `words`, unless it is empty. -/
def flushRun (run : List Char) (words : List (List Char)) : List (List Char) :=
  if run.isEmpty then words else run :: words

/-- Reads one more character to the left: white space ends the run, anything else extends it. -/
def cutStep (c : Char) (state : List Char × List (List Char)) : List Char × List (List Char) :=
  if isBlank c then ([], flushRun state.1 state.2) else (c :: state.1, state.2)

/-- The maximal runs of characters that are not white space. -/
def runs (cs : List Char) : List (List Char) :=
  let state := cs.foldr cutStep ([], [])
  flushRun state.1 state.2

def words (text : String) : List String :=
  (runs text.toList).map String.ofList

/-- `items` in one text, with a single space between neighbours. -/
def joinWords (items : List String) : String :=
  " ".intercalate items

@[simp] theorem runs_nil : runs [] = [] := rfl

/-- Leading white space is no part of a word. -/
theorem runs_cons_blank {c : Char} (h : isBlank c = true) (cs : List Char) :
    runs (c :: cs) = runs cs := by
  simp [runs, cutStep, h, flushRun]

end EchoServer.Text
