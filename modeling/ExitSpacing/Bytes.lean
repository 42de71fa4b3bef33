/-! Byte sequences: the blank classes of source text, cutting by offsets and
finding the line that an offset stands on. Cuts clamp and never fail. -/
namespace ExitSpacing

abbrev Bytes := List UInt8

namespace Bytes

def lineFeed : UInt8 := 10
def carriageReturn : UInt8 := 13
def space : UInt8 := 32
def tab : UInt8 := 9
def semicolon : UInt8 := 59

def ofString (s : String) : Bytes := s.toUTF8.toList

def isBlank (b : UInt8) : Bool := (9 ≤ b && b ≤ 13) || b == 32

def isIndent (b : UInt8) : Bool := b == space || b == tab

/-- What may end the gap after a statement and is dropped when a line is broken there. -/
def isSeparator (b : UInt8) : Bool := isIndent b || b == semicolon

def cut (s : Bytes) (start stop : Nat) : Bytes := (s.drop start).take (stop - start)

theorem cutLength (s : Bytes) (start stop : Nat) :
    (cut s start stop).length = min (stop - start) (s.length - start) := by simp [cut]

theorem cutAppend {start middle stop : Nat} (s : Bytes) (h : start ≤ middle) (k : middle ≤ stop) :
    cut s start middle ++ cut s middle stop = cut s start stop := by
  have split : stop - start = (middle - start) + (stop - middle) := by omega
  have shift : s.drop middle = (s.drop start).drop (middle - start) := by
    rw [List.drop_drop]; congr 1; omega
  simp only [cut, split, shift, List.take_add]

theorem takeCut (s : Bytes) {start stop : Nat} (le : start ≤ stop) : s.take start ++ cut s start stop = s.take stop := by
  have whole := cutAppend s (Nat.zero_le start) le
  simpa only [cut, List.drop_zero, Nat.sub_zero] using whole

theorem cutDrop (s : Bytes) {start stop : Nat} (le : start ≤ stop) : cut s start stop ++ s.drop stop = s.drop start := by
  have whole := List.take_append_drop (stop - start) (s.drop start)
  rwa [List.drop_drop, Nat.add_sub_cancel' le] at whole

def trimEnd (p : UInt8 → Bool) (s : Bytes) : Bytes := (s.reverse.dropWhile p).reverse

theorem trimEndAppend (p : UInt8 → Bool) (s : Bytes) :
    trimEnd p s ++ (s.reverse.takeWhile p).reverse = s := by
  rw [trimEnd, ← List.reverse_append, List.takeWhile_append_dropWhile, List.reverse_reverse]

def allBlank (s : Bytes) : Bool := s.all isBlank

/-- Where the line that holds `offset` begins: after the last line feed before it. -/
def lineStart (s : Bytes) (offset : Nat) : Nat :=
  let before := s.take offset
  before.length - (before.reverse.takeWhile (· != lineFeed)).length

theorem lineStartLe (s : Bytes) (offset : Nat) : lineStart s offset ≤ offset := by
  simp only [lineStart, List.length_take]; omega

def startsWith (s lead : Bytes) : Bool := lead.isPrefixOf s

def lineFeeds (s : Bytes) : Nat := s.count lineFeed

end Bytes
end ExitSpacing
