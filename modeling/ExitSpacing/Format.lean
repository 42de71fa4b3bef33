import ExitSpacing.Spacing.Rendering

/-! Formatting one unit. A source without insertions is returned as it is, and is
not rendered. -/
namespace ExitSpacing

/-- What formatting a unit gave: its bytes, which are the source's own when nothing
was modified, and the change log in source order. -/
structure Formatted where
  unit : String
  content : Bytes
  modified : Bool := false
  changes : List Change := []
  deriving DecidableEq, Repr

def Formatted.details (r : Formatted) : String := Change.logText r.changes

def format (parser : Parser) (rule : BlockRule) (unit : String) (source : Bytes) :
    Except Trouble Formatted := do
  let document ← (Document.parse parser unit source).mapError .failure
  let (marked, log) := document.apply rule
  let changes ← log.mapError .pass
  if marked.modified then
    let content ← (marked.render parser).mapError .failure
    return ⟨unit, content, true, changes⟩
  else return ⟨unit, source, false, []⟩

end ExitSpacing
