import HeaderMake.Path
import HeaderMake.Text.Utf8

/-!
# Include directives

Only the quoted form of an include is followed, and only in its plainest spelling: the
directive, one blank, and a payload between two quotes, anywhere on a line.  Nothing is
preprocessed, so a directive counts also inside a comment or a disabled branch.
-/

namespace HeaderMake

/-- What stands before the payload of a quoted include. -/
def includeDirective : Text :=
  "#include \"".toList

/-- The payload of the first quoted include on a line.  A directive whose quote is never
closed has no payload, and neither has anything after it on that line. -/
def quotedInclude? (line : Text) : Option Text := do
  let (_, afterDirective) ← Text.cutAt? includeDirective line
  let (payload, _) ← Text.cutAt? ['"'] afterDirective
  return payload

/-- The payloads of the quoted includes in a file, line by line. -/
def includePayloads (content : Bytes) : List Text :=
  (Utf8.decodeLossy content).lines.filterMap quotedInclude?

/-- The paths that a file includes, in the order of its lines.  A payload is taken from
the directory of the file. -/
def includedPaths (path : Path) (content : Bytes) : List Path :=
  (includePayloads content).map fun payload => Path.collapseParent (path.directory ++ payload)

end HeaderMake
