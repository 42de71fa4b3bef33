import ExitSpacing.Command.Outcome
import ExitSpacing.Proofs.Refreshing
import Mathlib.Data.List.Forall2

/-! One formatted text, three ways out. What is written in place and what goes to standard
output for standard input are the formatted bytes; what is printed for a file is these bytes
read as text, which is the same exactly when they are UTF-8. -/
namespace ExitSpacing

namespace Utf8

def Fits (ranges : List (UInt8 × UInt8)) (tail : Bytes) : Prop :=
  List.Forall₂ (fun range b => range.1 ≤ b ∧ b ≤ range.2) ranges tail

theorem Fits.matched {ranges : List (UInt8 × UInt8)} {tail : Bytes} (fits : Fits ranges tail) (rest : Bytes) :
    matched ranges (tail ++ rest) = ranges.length := by
  induction fits with
  | nil => simp [Utf8.matched]
  | cons within _ ih => simp [Utf8.matched, within, ih]

theorem Fits.piece {lead : UInt8} {ranges : List (UInt8 × UInt8)} {tail : Bytes} (fits : Fits ranges tail)
    (leads : tails lead = some ranges) (rest : Bytes) :
    piece lead (tail ++ rest) = (some (Char.ofNat (value lead tail)), tail.length) := by
  have length := fits.length_eq
  simp only [Utf8.piece, leads, fits.matched, if_true, length, List.take_left]

theorem leadsNone : ∀ n < 0x80, tails (UInt8.ofNat n) = some [] := by decide +kernel

theorem leadsOne : ∀ n < 0xE0, 0xC2 ≤ n → tails (UInt8.ofNat n) = some [(0x80, 0xBF)] := by decide +kernel

theorem leadsTwo : ∀ n < 0xF0, 0xE0 ≤ n → tails (UInt8.ofNat n) =
    some [(if n = 0xE0 then 0xA0 else 0x80, if n = 0xED then 0x9F else 0xBF), (0x80, 0xBF)] := by
  decide +kernel

theorem leadsThree : ∀ n < 0xF5, 0xF0 ≤ n → tails (UInt8.ofNat n) =
    some [(if n = 0xF0 then 0x90 else 0x80, if n = 0xF4 then 0x8F else 0xBF), (0x80, 0xBF), (0x80, 0xBF)] := by
  decide +kernel

theorem inRange {low high : UInt8} {n : Nat} (above : low.toNat ≤ n) (below : n ≤ high.toNat) :
    low ≤ UInt8.ofNat n ∧ UInt8.ofNat n ≤ high := by
  have small : n < 256 := Nat.lt_of_le_of_lt below high.toNat_lt
  rw [UInt8.le_iff_toNat_le, UInt8.le_iff_toNat_le, UInt8.toNat_ofNat', Nat.mod_eq_of_lt small]
  exact ⟨above, below⟩

theorem follows (n : Nat) : (0x80 : UInt8) ≤ UInt8.ofNat (n % 64 + 128) ∧ UInt8.ofNat (n % 64 + 128) ≤ 0xBF :=
  inRange (by simp) (by simp; omega)

theorem byteNat {n : Nat} (small : n < 256) : (UInt8.ofNat n).toNat = n := by
  rw [UInt8.toNat_ofNat', Nat.mod_eq_of_lt small]

theorem encoded (c : Char) : ∃ lead tail ranges, String.utf8EncodeChar c = lead :: tail ∧ tails lead = some ranges ∧
    Fits ranges tail ∧ value lead tail = c.toNat := by
  -- The values that no lead byte lets through are those that fewer bytes do for and those that are no characters.
  have valid : c.toNat < 0xD800 ∨ 0xDFFF < c.toNat ∧ c.toNat < 0x110000 := c.valid
  simp only [String.utf8EncodeChar, show c.val.toNat = c.toNat from rfl]
  generalize c.toNat = v at valid ⊢
  split
  · rename_i one
    refine ⟨_, _, _, rfl, leadsNone v (by omega), .nil, ?_⟩
    simp only [value, List.length_nil, List.foldl_nil, byteNat (show v < 256 by omega)]
  split
  · rename_i one two
    refine ⟨_, _, _, rfl, leadsOne _ (by omega) (by omega), .cons (follows v) .nil, ?_⟩
    simp only [value, List.length_cons, List.length_nil, List.foldl_cons, List.foldl_nil,
      byteNat (show v / 64 % 32 + 192 < 256 by omega), byteNat (show v % 64 + 128 < 256 by omega)]
    omega
  split
  · rename_i one two three
    refine ⟨_, _, _, rfl, leadsTwo _ (by omega) (by omega), .cons ?_ (.cons (follows v) .nil), ?_⟩
    · dsimp only
      refine inRange ?_ ?_ <;> split <;> simp <;> omega
    · simp only [value, List.length_cons, List.length_nil, List.foldl_cons, List.foldl_nil,
        byteNat (show v / 4096 % 16 + 224 < 256 by omega), byteNat (show v / 64 % 64 + 128 < 256 by omega),
        byteNat (show v % 64 + 128 < 256 by omega)]
      omega
  · rename_i one two three
    refine ⟨_, _, _, rfl, leadsThree _ (by omega) (by omega),
      .cons ?_ (.cons (follows (v / 64)) (.cons (follows v) .nil)), ?_⟩
    · dsimp only
      refine inRange ?_ ?_ <;> split <;> simp <;> omega
    · simp only [value, List.length_cons, List.length_nil, List.foldl_cons, List.foldl_nil,
        byteNat (show v / 262144 % 8 + 240 < 256 by omega), byteNat (show v / 4096 % 64 + 128 < 256 by omega),
        byteNat (show v / 64 % 64 + 128 < 256 by omega), byteNat (show v % 64 + 128 < 256 by omega)]
      omega

theorem lossyEncoded (text : List Char) : lossy (text.flatMap String.utf8EncodeChar) = text := by
  induction text with
  | nil => rw [List.flatMap_nil, lossy]
  | cons c text ih =>
    obtain ⟨lead, tail, ranges, bytes, leads, fits, whole⟩ := encoded c
    rw [List.flatMap_cons, bytes, List.cons_append, lossy, fits.piece leads, List.drop_left, ih, whole]
    simp

theorem loopDrops (b : ByteArray) (i : Nat) (done : List UInt8) :
    ByteArray.toList.loop b i done = done.reverse ++ b.data.toList.drop i := by
  fun_induction ByteArray.toList.loop b i done with
  | case1 i done inside ih =>
    rw [ih, List.reverse_cons, List.append_assoc, List.singleton_append]
    have within : i < b.data.toList.length := inside
    have got : b.get! i = b.data.toList[i] := getElem!_pos b.data i within
    rw [List.drop_eq_getElem_cons within, got]
  | case2 i done outside =>
    rw [List.drop_eq_nil_of_le (Nat.le_of_not_lt outside), List.append_nil]

theorem ofStringChars (text : String) : Bytes.ofString text = text.toList.flatMap String.utf8EncodeChar := by
  have bytes : text.toByteArray = text.toList.utf8Encode := by
    rw [← String.toByteArray_ofList, String.ofList_toList]
  rw [Bytes.ofString, String.toUTF8, ByteArray.toList, loopDrops, List.reverse_nil, List.nil_append, List.drop_zero, bytes,
    List.utf8Encode, List.data_toByteArray]

theorem ofStringAppend (a b : String) : Bytes.ofString (a ++ b) = Bytes.ofString a ++ Bytes.ofString b := by
  rw [ofStringChars, ofStringChars, ofStringChars, String.toList_append, List.flatMap_append]

def WellFormed (s : Bytes) : Prop := ∃ text, Bytes.ofString text = s

theorem decodesBack (s : Bytes) : Bytes.ofString (decodeLossy s) = s ↔ WellFormed s := by
  refine ⟨fun same => ⟨_, same⟩, ?_⟩
  rintro ⟨text, rfl⟩
  rw [decodeLossy, ofStringChars text, lossyEncoded, String.ofList_toList, ofStringChars]

end Utf8

open Command

def heading (unit : String) : String := s!"// {unit} - formatted:\n"

/-- A formatted unit written in place, sent to standard output for standard input, or printed:
the bytes are the same, unless they are printed and are not UTF-8. -/
theorem modesDeliver (s : Surroundings) {printing writing piping : Settings} {rule : BlockRule}
    (rules : printing.toBlockRule = rule ∧ writing.toBlockRule = rule ∧ piping.toBlockRule = rule)
    (prints : printing.write = false ∧ printing.dryRun = false) (writes : writing.write = true ∧ writing.dryRun = false)
    (faults : Faults) {store : Store} (unique : store.Unique) {unit : String} {source : Bytes}
    (read : store.read unit = .ok source) {x : Formatted} (formats : format s.parser rule unit source = .ok x)
    (modified : x.modified = true) :
    (∃ text, (x.report printing faults store).printed = [heading unit ++ text ++ "\n"] ∧
      Bytes.ofString (heading unit ++ text ++ "\n") =
        Bytes.ofString (heading unit) ++ Bytes.ofString text ++ [Bytes.lineFeed] ∧
      (Bytes.ofString text = x.content ↔ Utf8.WellFormed x.content)) ∧
    ((x.report writing faults store).result = .ok () →
      (x.report writing faults store).store.read unit = .ok x.content) ∧
    (formatInput s piping source).code = .done ∧ (formatInput s piping source).out = x.content := by
  have own : x.unit = unit := by
    obtain ⟨y, made, own, -⟩ | ⟨f, failed, -⟩ := formatCases s.parser rule unit source
    · cases formats.symm.trans made
      exact own
    · cases formats.symm.trans failed
  -- Standard input is formatted under a name of its own: only the bytes of the two results agree.
  have piped : ∃ y, format s.parser piping.toBlockRule inputUnit source = .ok y ∧ y.content = x.content := by
    have bytes := formatBytes s.parser rule inputUnit unit source
    rw [formats, ← rules.2.2] at bytes
    cases again : format s.parser piping.toBlockRule inputUnit source with
    | ok y => rw [again] at bytes; exact ⟨y, rfl, Option.some.inj bytes⟩
    | error => rw [again] at bytes; cases bytes
  refine ⟨⟨Utf8.decodeLossy x.content, ?_, ?_, Utf8.decodesBack x.content⟩, fun done => ?_, ?_⟩
  · have unwritten : x.isWritten printing = false := by simp [Formatted.isWritten, prints]
    simp [Formatted.report, unwritten, Formatted.notice, modified, prints, own, heading, toString]
  · rw [Utf8.ofStringAppend, Utf8.ofStringAppend]
    congr 1
    decide +kernel
  · have written : x.isWritten writing = true := by simp [Formatted.isWritten, modified, writes]
    obtain ⟨-, located, store'⟩ | ⟨failed, -⟩ | ⟨failed, -, -⟩ :=
      Formatted.reportWritten faults unique (own ▸ Store.readHolds read) written
    · rw [store']
      rw [own] at located
      refine Store.readAnew read (Store.locateShape (Store.rewriteBlank _) unit) fun location place => ?_
      cases located.symm.trans place
      exact Store.rewriteThere ..
    · rw [done] at failed; cases failed
    · rw [done] at failed; cases failed
  · obtain ⟨y, again, content⟩ := piped
    simp [formatInput, again, content]

open Batch in
theorem exitDelivered : ∃ x text, format Go.parse {} "d/a.go" exitSource = .ok x ∧
    (x.report {} [] (linkedStore exitSource)).printed = [heading "d/a.go" ++ text ++ "\n"] ∧
    Bytes.ofString text = exitSpaced ∧
    (x.report writing.settings [] (linkedStore exitSource)).store.read "d/a.go" = .ok exitSpaced ∧
    (formatInput { parser := Go.parse, store := {} } {} exitSource).out = exitSpaced := by
  obtain ⟨x, formats, unit, content, modified⟩ := exitFormats "d/a.go"
  have written := (writesLinked exitSource (.inl unit) modified).1
  have text : Utf8.WellFormed exitSpaced := ⟨_, rfl⟩
  obtain ⟨⟨printed, prints, -, exact⟩, writes, -, pipes⟩ :=
    @modesDeliver { parser := Go.parse, store := {} } {} writing.settings {} {} ⟨rfl, rfl, rfl⟩ ⟨rfl, rfl⟩ ⟨rfl, rfl⟩ []
      _ (linkedWellFormed exitSource).unique _ _ (linkedFiles exitSource).2.2.2.1 x formats modified
  rw [content] at exact writes pipes
  exact ⟨x, printed, formats, prints, exact.mpr text, writes written, pipes⟩

def latinSource : Bytes := Bytes.ofString "func f() \x7b\n\ta() // " ++ 0xFF :: Bytes.ofString "\n\treturn\n\x7d\n"

def latinSpaced : Bytes := Bytes.ofString "func f() \x7b\n\ta() // " ++ 0xFF :: Bytes.ofString "\n\n\treturn\n\x7d\n"

def latinBlocks : List Block :=
  [⟨"block", [.statement ⟨⟨0, 0⟩, "expression_statement", .plain, 2, 2, 2, 12, 15⟩,
    .statement ⟨⟨0, 1⟩, "return_statement", .returning, 3, 3, 2, 22, 28⟩]⟩]

theorem latinFormats (path : String) : ∃ x, format Go.parse {} path latinSource = .ok x ∧ x.unit = path ∧
    x.content = latinSpaced ∧ x.modified = true := by
  have accepted : (Go.parse latinSource).hasError = false ∧ (Go.parse latinSpaced).hasError = false := by decide +kernel
  have blocks : (Go.parse latinSource).blocks = latinBlocks := by decide +kernel
  have asked : ((gapsOf latinBlocks).filter (Block.asks {})).map (gapEdit latinSource) = [⟨21, 21, [Bytes.lineFeed]⟩] := by
    decide +kernel
  exact Batch.formatsAs path accepted blocks asked (by decide +kernel) (by decide +kernel)

/-- What is printed of a comment that is not UTF-8 is not what is written and piped. -/
theorem latinGarbled : ∃ x, format Go.parse {} "a.go" latinSource = .ok x ∧ x.content = latinSpaced ∧
    (x.report {} [] {}).printed = [heading "a.go" ++ Utf8.decodeLossy latinSpaced ++ "\n"] ∧
    Bytes.ofString (Utf8.decodeLossy latinSpaced) ≠ latinSpaced ∧
    (formatInput { parser := Go.parse, store := {} } {} latinSource).out = latinSpaced := by
  obtain ⟨x, formats, unit, content, modified⟩ := latinFormats "a.go"
  obtain ⟨y, again, -, same, -⟩ := latinFormats inputUnit
  have garbled : Bytes.ofString (Utf8.decodeLossy latinSpaced) ≠ latinSpaced := by decide +kernel
  refine ⟨x, formats, content, ?_, garbled, by simp [formatInput, again, same]⟩
  have unwritten : x.isWritten {} = false := by simp [Formatted.isWritten]
  simp [Formatted.report, unwritten, Formatted.notice, modified, unit, content, heading, toString]

end ExitSpacing
