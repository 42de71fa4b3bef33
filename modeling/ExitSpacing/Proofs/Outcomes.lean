import ExitSpacing.Proofs.History
import ExitSpacing.Proofs.Passes
import ExitSpacing.Proofs.Rendering

/-! What can come of a unit, and the failures each call ends in. -/
namespace ExitSpacing

namespace Failure

inductive OfFormatting (unit : String) : Failure → Prop where
  | malformed {line column message} : OfFormatting unit (.malformed unit line column message)
  | unrenderable {message} : OfFormatting unit (.unrenderable unit message)

inductive OfAccess (unit operation : String) : Failure → Prop where
  | inaccessible {errno} : OfAccess unit operation (.inaccessible unit operation (.system errno none))

/-- The failures of one unit alone: the walk and the paths behind it are not touched. -/
def isOfUnit : Failure → Bool
  | malformed .. | unrenderable .. => true
  | inaccessible _ operation _ => operation != "stat"
  | _ => false

def Names (unit : String) (f : Failure) : Prop := ∃ rest, f.text = unit ++ ":" ++ rest

def unit? : Failure → Option String
  | malformed unit .. | unrenderable unit _ | inaccessible unit .. => some unit
  | _ => none

theorem unitNamed {unit : String} {f : Failure} (about : f.unit? = some unit) : f.Names unit := by
  cases f with
  | malformed _ line column message =>
    cases about
    exact ⟨s!"{line}:{column}: {message}", by simp [text, toString, String.append_assoc]⟩
  | unrenderable _ message =>
    cases about
    have colon : ": render: " = ":" ++ " render: " := by decide
    exact ⟨s!" render: {message}", by simp only [text, toString, String.append_assoc, colon]⟩
  | inaccessible _ operation cause =>
    cases about
    have colon : ": " = ":" ++ " " := by decide
    refine ⟨s!" {operation}: {cause.short}", ?_⟩
    simp only [text, toString, String.append_assoc]
    rw [colon]
    simp only [String.append_assoc]
  | _ => cases about

theorem OfFormatting.unit {unit : String} {f : Failure} (of : f.OfFormatting unit) : f.unit? = some unit := by
  cases of <;> rfl

theorem OfFormatting.names {unit : String} {f : Failure} (of : f.OfFormatting unit) : f.Names unit := unitNamed of.unit

theorem OfAccess.unit {unit operation : String} {f : Failure} (of : f.OfAccess unit operation) : f.unit? = some unit := by
  cases of
  rfl

end Failure

theorem formatCases (parser : Parser) (rule : BlockRule) (unit : String) (source : Bytes) :
    (∃ x, format parser rule unit source = .ok x ∧ x.unit = unit ∧ (x.modified = false → x.content = source)) ∨
      ∃ f, format parser rule unit source = .error (.failure f) ∧ f.OfFormatting unit := by
  cases parsed : (parser source).hasError with
  | true =>
    simp only [format, Document.parse, parsed, if_true, Except.mapError, bind, Except.bind]
    exact .inr ⟨_, rfl, .malformed⟩
  | false =>
    obtain ⟨log, ran, -⟩ := Document.applyFresh (treeFresh unit source (parser source)) rule
    simp only [format, Document.parse, parsed, Bool.false_eq_true, if_false, Except.mapError, bind, Except.bind, ran]
    generalize Document.markedBy _ _ = marked at ran ⊢
    have unitKept : marked.unit = unit := by
      have := congrArg (·.1.unit) ran
      simpa [Document.apply] using this.symm
    split
    · cases reparsed : (parser marked.text).hasError with
      | true =>
        simp only [Document.render, reparsed, if_true, unitKept]
        exact .inr ⟨_, rfl, .unrenderable⟩
      | false =>
        refine .inl ⟨⟨unit, marked.text, true, log⟩, ?_, rfl, by simp⟩
        simp only [Document.render, reparsed, Bool.false_eq_true, if_false]
        rfl
    · exact .inl ⟨_, rfl, rfl, fun _ => rfl⟩

theorem formatBytes (parser : Parser) (rule : BlockRule) (unit other : String) (source : Bytes) :
    (format parser rule unit source).toOption.map Formatted.content =
      (format parser rule other source).toOption.map Formatted.content := by
  cases parsed : (parser source).hasError with
  | true => simp only [format, Document.parse, parsed, if_true, Except.mapError, bind, Except.bind, Except.toOption]
  | false =>
    obtain ⟨log, ran, -⟩ := Document.applyFresh (treeFresh unit source (parser source)) rule
    obtain ⟨more, again, -⟩ := Document.applyFresh (treeFresh other source (parser source)) rule
    simp only [format, Document.parse, parsed, Bool.false_eq_true, if_false, Except.mapError, bind, Except.bind, ran, again]
    have same : (Document.markedBy ⟨unit, source, (parser source).blocks⟩ fun b => b.due rule).text =
        (Document.markedBy ⟨other, source, (parser source).blocks⟩ fun b => b.due rule).text := rfl
    have modified : (Document.markedBy ⟨unit, source, (parser source).blocks⟩ fun b => b.due rule).modified =
        (Document.markedBy ⟨other, source, (parser source).blocks⟩ fun b => b.due rule).modified := rfl
    rw [← modified]
    cases (Document.markedBy ⟨unit, source, (parser source).blocks⟩ fun b => b.due rule).modified with
    | false => rfl
    | true =>
      simp only [Document.render, ← same, if_true]
      generalize (Document.markedBy ⟨unit, source, (parser source).blocks⟩ fun b => b.due rule).text = text
      cases (parser text).hasError <;> rfl

end ExitSpacing
