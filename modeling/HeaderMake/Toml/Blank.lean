import HeaderMake.Text

/-!
# Blanks, comments and line ends

What may stand between the parts of a document.  Blanks are spaces and tabs; a line ends
with a line feed, with or without a carriage return before it; a comment runs from its
mark to the end of the line and holds no control character but the tab.
-/

namespace HeaderMake
namespace Toml

/-- Spaces and tabs. -/
def isBlank (c : Char) : Bool :=
  c == ' ' || c == '\t'

/-- The characters that stand for themselves in comments and strings: all but the control
characters, of which only the tab is allowed. -/
def isPlain (c : Char) : Bool :=
  c == '\t' || (' ' ≤ c && c != '\x7f')

/-- The text after the blanks at its beginning. -/
def skipBlanks (text : Text) : Text :=
  text.dropWhile isBlank

/-- The text after blanks, comments and line ends, which may fill the space between
statements and inside brackets.  An ill-formed comment makes the whole text ill-formed. -/
def skipFiller? (insideComment : Bool) : Text → Option Text
  | [] => some []
  | '\n' :: rest => skipFiller? false rest
  | '\r' :: '\n' :: rest => skipFiller? false rest
  | c :: rest =>
    if insideComment then
      if isPlain c then skipFiller? true rest else none
    else if isBlank c then skipFiller? false rest
    else if c = '#' then skipFiller? true rest
    else some (c :: rest)

/-- The text after a line end, which the end of the document counts as too. -/
def lineEnd? : Text → Option Text
  | [] => some []
  | '\n' :: rest => some rest
  | '\r' :: '\n' :: rest => some rest
  | _ => none

/-- The text after the end of a statement: blanks, a comment or none, and a line end. -/
def statementEnd? (text : Text) : Option Text :=
  match skipBlanks text with
  | '#' :: comment => lineEnd? (comment.dropWhile isPlain)
  | rest => lineEnd? rest

end Toml
end HeaderMake
