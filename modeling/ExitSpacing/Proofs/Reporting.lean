import ExitSpacing.Proofs.Writing

/-! Reporting a result, in one step: what it prints, what it does to the store and how it
can fail. -/
namespace ExitSpacing

namespace Store

def Holds (s : Store) (path : String) : Prop :=
  ∃ there mode content, s.locate path = .ok there ∧ s.find? there = some (.file mode content)

theorem Holds.shape {s t : Store} {path : String} (holds : s.Holds path) (same : s.blank = t.blank) : t.Holds path := by
  obtain ⟨there, mode, content, located, found⟩ := holds
  rw [locateShape same] at located
  have blanks := t.blankFind there
  rw [← same, blankFind, found] at blanks
  cases item : t.find? there with
  | none => rw [item] at blanks; cases blanks
  | some item' =>
    rw [item] at blanks
    cases item' with
    | file mode content => exact ⟨there, mode, content, located, item⟩
    | link | directory => cases blanks

theorem Unique.shape {s t : Store} (unique : s.Unique) (same : s.blank = t.blank) : t.Unique := by
  unfold Unique at unique ⊢
  rwa [← keysShape same]

theorem readFinds {s : Store} {path : String} {source : Bytes} (ok : s.read path = .ok source) :
    ∃ there mode, s.locate path = .ok there ∧ s.find? there = some (.file mode source) := by
  simp only [read, stat, bind, Except.bind] at ok
  cases located : s.locate path with
  | error => rw [located] at ok; cases ok
  | ok there =>
    rw [located] at ok
    simp only at ok
    cases found : s.itemAt there with
    | error => rw [found] at ok; cases ok
    | ok item =>
      rw [found] at ok
      cases item with
      | file mode content =>
        simp only at ok
        split at ok <;> cases ok
        exact ⟨there, mode, rfl, itemAtOk found⟩
      | link | directory => cases ok

theorem readHolds {s : Store} {path : String} {source : Bytes} (ok : s.read path = .ok source) : s.Holds path := by
  obtain ⟨there, mode, located, found⟩ := readFinds ok
  exact ⟨there, mode, source, located, found⟩

theorem readAnew {s t : Store} {path : String} {source content : Bytes} (ok : s.read path = .ok source)
    (located : t.locate path = s.locate path)
    (anew : ∀ location, s.locate path = .ok location →
      t.find? location = (s.find? location).map (withContent content)) :
    t.read path = .ok content := by
  obtain ⟨there, mode, place, found⟩ := readFinds ok
  have exchanged := anew there place
  rw [found] at exchanged
  simp only [read, stat, bind, Except.bind, located, place, itemAt, found] at ok ⊢
  simp only [exchanged, Option.map_some, withContent]
  split at ok
  · rename_i readable
    simp only [readable, if_true]
  · cases ok

end Store

namespace Formatted

theorem reportFails {x : Formatted} {settings : Settings} {faults : Faults} {store : Store} {f : Failure}
    (failed : (x.report settings faults store).result = .error (.failure f)) : f.OfAccess x.unit "write" := by
  unfold Formatted.report at failed
  split at failed
  · obtain ⟨result, ends⟩ := InPlace.Write.runEnds faults (.begin store x.unit x.content)
    simp only [InPlace.Write.result, ends] at failed
    rw [failed] at ends
    obtain ⟨_, same, access⟩ | ⟨other, -⟩ := (InPlace.Write.runFair faults store x.unit x.content).failure _ ends
    · cases same
      exact access
    · exact absurd rfl (other f)
  · cases failed

theorem reportShape (x : Formatted) (settings : Settings) (faults : Faults) {s t : Store} (same : s.blank = t.blank) :
    (x.report settings faults s).result = (x.report settings faults t).result := by
  simp only [report]
  split
  · exact InPlace.Write.resultShape faults same x.unit x.content x.content
  · rfl

theorem reportUnwritten {x : Formatted} {settings : Settings} (faults : Faults) (s : Store)
    (unwritten : x.isWritten settings = false) :
    (x.report settings faults s).result = .ok () ∧ (x.report settings faults s).store = s := by
  simp [report, unwritten]

inductive Reports (x : Formatted) (faults : Faults) (s : Store) (report : Report) : Prop where
  | writes {there} (done : report.result = .ok ()) (located : s.locate x.unit = .ok there)
      (written : report.store = s.rewrite there x.content)
  | fails {f} (failed : report.result = .error (.failure f))
      (kept : (∀ path, faults.find? .unlink path = none) → report.store = s)
  | escapes {trouble} (failed : report.result = .error trouble) (other : ∀ f, trouble ≠ .failure f)
      (cause : ¬ faults.Caught ∨ Path.hasNull x.unit = true)

theorem reportWritten {x : Formatted} {settings : Settings} (faults : Faults) {s : Store} (unique : s.Unique)
    (holds : s.Holds x.unit) (written : x.isWritten settings = true) : x.Reports faults s (x.report settings faults s) := by
  obtain ⟨there, _, _, located, -⟩ := holds
  cases plain : Path.hasNull x.unit with
  | true =>
    have begun : (InPlace.Write.begin s x.unit x.content).stage = .finished (.error .nullByte) := by
      simp [InPlace.Write.begin, plain]
    have failed : (x.report settings faults s).result = .error .nullByte := by
      simp [report, written, InPlace.Write.runRests faults begun, InPlace.Write.result, begun]
    exact .escapes failed (by simp) (.inr plain)
  | false =>
    simp only [report, written, if_true]
    obtain ⟨done, kept⟩ | ⟨f, failed, -, kept⟩ | ⟨trouble, failed, other, faulty⟩ :=
      InPlace.Write.runOutcome faults unique located plain x.content
    · exact .writes done located kept
    · exact .fails failed kept
    · exact .escapes failed other (.inl faulty)

end Formatted
end ExitSpacing
