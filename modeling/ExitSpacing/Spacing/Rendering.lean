import ExitSpacing.Failure

/-! Rendering: each marker becomes one edit of the source, in the gap between its
predecessor and its target, and the edits are made from the end backwards. -/
namespace ExitSpacing
open Bytes

structure Edit where
  start : Nat
  stop : Nat
  text : Bytes
  deriving DecidableEq, Repr

namespace Edit

def apply (s : Bytes) (e : Edit) : Bytes := s.take e.start ++ e.text ++ s.drop e.stop

def lineEnding (source : Bytes) (lineStart : Nat) : Bytes :=
  let crlf := [carriageReturn, lineFeed]
  if cut source (lineStart - 2) lineStart == crlf then crlf else [lineFeed]

/-- A target with only blanks before it on its line gets an empty line above that
line. Any other is moved to a line of its own, indented as the line it stood on,
and the separators before it are dropped. -/
def ofMarker (source : Bytes) (m : Marker) : Edit :=
  let first := lineStart source m.target.startByte
  let ending := lineEnding source first
  if allBlank (cut source first m.target.startByte) then ⟨first, first, ending⟩
  else
    let kept := trimEnd isSeparator (cut source m.predecessor.endByte m.target.startByte)
    let indent := (source.drop first).takeWhile isIndent
    ⟨m.predecessor.endByte, m.target.startByte, kept ++ ending ++ ending ++ indent⟩

/-- Later edits first; edits that start together keep their order. -/
def fromEnd (edits : List Edit) : List Edit := edits.mergeSort fun a b => decide (b.start ≤ a.start)

end Edit

namespace Document

def markers (d : Document) : List Marker := d.blocks.flatMap Block.markers
def edits (d : Document) : List Edit := d.markers.map (Edit.ofMarker d.source)

def text (d : Document) : Bytes := (Edit.fromEnd d.edits).foldl Edit.apply d.source

def render (parser : Parser) (d : Document) : Except Failure Bytes :=
  let tree := parser d.text
  if tree.hasError then
    let f := tree.firstError
    .error (.unrenderable d.unit s!"rendered source no longer parses at {f.line}:{f.column}: {f.message}")
  else .ok d.text

def parse (parser : Parser) (unit : String) (source : Bytes) : Except Failure Document :=
  let tree := parser source
  if tree.hasError then
    let f := tree.firstError
    .error (.malformed unit f.line f.column f.message)
  else .ok ⟨unit, source, tree.blocks⟩

end Document
end ExitSpacing
