import ExitSpacing.Proofs.Foretelling
import ExitSpacing.Proofs.Replacing

/-! What a verbose run says of its writes. The line that calls a file formatted is printed before
the file is written, so it is there for every modified result, whatever comes of the write: the
file is replaced, or the failure of the write is collected, or the run ends in it. -/
namespace ExitSpacing

namespace Store

/-- The file that a path leads to has new bytes, in its own mode, and nothing else has changed. -/
def Replaces (s : Store) (path : String) (content : Bytes) (t : Store) : Prop :=
  ∃ there mode old, s.locate path = .ok there ∧ s.find? there = some (.file mode old) ∧
    t.find? there = some (.file mode content) ∧ ∀ location, location ≠ there → t.find? location = s.find? location

theorem rewriteReplaces {s : Store} {path : String} {content : Bytes} {there : Location} {mode : Nat} {old : Bytes}
    (located : s.locate path = .ok there) (held : s.find? there = some (.file mode old)) :
    s.Replaces path content (s.rewrite there content) :=
  ⟨there, mode, old, located, held, by rw [rewriteThere, held]; rfl, fun _ differ => rewriteFind s content differ⟩

end Store

inductive Fate where
  | replaced
  | failed (f : Failure)
  /-- What is no failure of the unit ended the run in it. -/
  | cut

def Fate.Meets (x : Formatted) (s t : Store) : Fate → Prop
  | .replaced => s.Replaces x.unit x.content t
  | .failed f => f.OfAccess x.unit "write" ∧ s.Keeps t
  | .cut => s.Keeps t

def Fate.ofResult : Except Trouble Unit → Fate
  | .ok () => .replaced
  | .error (.failure f) => .failed f
  | .error _ => .cut

theorem Fate.failedResult {result : Except Trouble Unit} {f : Failure} :
    Fate.ofResult result = .failed f ↔ result = .error (.failure f) := by
  match result with
  | .ok () | .error (.failure _) | .error (.system ..) | .error (.unexpected _) | .error .nullByte
  | .error (.pass _) => simp [Fate.ofResult]

namespace Formatted

def announcement (x : Formatted) : String := s!"{x.unit}: formatted\n{x.details}"

theorem reportMeets {x : Formatted} {settings : Settings} (faults : Faults) {s : Store} (unique : s.Unique)
    (holds : s.Holds x.unit) (written : x.isWritten settings = true) :
    (Fate.ofResult (x.report settings faults s).result).Meets x s (x.report settings faults s).store := by
  obtain ⟨there, mode, old, located, held⟩ := holds
  have same : (x.report settings faults s).result = ((InPlace.Write.begin s x.unit x.content).run faults).result ∧
      (x.report settings faults s).store = ((InPlace.Write.begin s x.unit x.content).run faults).store := by
    simp only [Formatted.report, written, if_true, and_self]
  obtain ⟨done, store⟩ | ⟨⟨trouble, failed⟩, left⟩ := writeLeaves faults unique located x.content
  · rw [same.1, same.2, done, store]
    exact Store.rewriteReplaces located held
  · have keeps : s.Keeps (x.report settings faults s).store := by
      rw [same.2]
      obtain kept | ⟨item, put⟩ := left
      · rw [kept]
        exact .refl
      · rw [put]
        exact Store.keepsPut (InPlace.tempFree s there) item
    have failed : (x.report settings faults s).result = .error trouble := same.1.trans failed
    rw [failed]
    cases trouble with
    | failure f => exact ⟨Formatted.reportFails failed, keeps⟩
    | _ => exact keeps

end Formatted

namespace Batch

section
variable {env : Conditions} {r next : Run} {w walk : Walk} {events : List Event} {failures : List Failure}

inductive Told (env : Conditions) (r : Run) (events : List Event) (next : Run) : Prop where
  | idle (same : next.store = r.store) (unreported : events.filterMap Event.reported? = [])
  | reports {x} (going : ¬ r.Escaped) (inHand : .report x ∈ r.duties) (reported : events.filterMap Event.reported? = [x])
      (store : next.store = (x.report env.settings env.faults r.store).store)
      (failed : ∀ f, (x.report env.settings env.faults r.store).result = .error (.failure f) ↔ .reported x (some f) ∈ events)
      (cut : Fate.ofResult (x.report env.settings env.faults r.store).result = .cut → next.Escaped)

theorem Accepts.told {r' : Run} {x : Formatted} {main : Main} (accepts : Accepts env r' x main events next)
    (going : ¬ r.Escaped) (inHand : .report x ∈ r.duties) (same : r'.store = r.store) : Told env r events next := by
  cases accepts with
  | reports fine =>
    rw [same] at fine
    exact .reports going inHand rfl (by rw [same]) (by simp [fine]) (by simp [fine, Fate.ofResult])
  | @fails log f failed =>
    rw [same] at failed
    exact .reports going inHand rfl (by rw [same]) (by simp [failed, eq_comm]) (by simp [failed, Fate.ofResult])
  | @escapes log trouble failed other =>
    rw [same] at failed
    exact .reports going inHand rfl (by rw [same]) (by simp [failed, other]) fun _ => ⟨_, rfl, other⟩

theorem Moves.told (moves : Moves env r events next) : Told env r events next := by
  cases moves with
  | cancels => exact .idle rfl rfl
  | walker here move => exact .idle rfl move.books.1
  | worker here employed move => exact .idle rfl move.books.1
  | main move =>
    have going : ¬ r.Escaped := fun ⟨trouble, ended, _⟩ => move.going _ ended
    cases move with
    | finishes here =>
      obtain ⟨log, finish⟩ := finishIs r
      rw [finish]
      exact .idle rfl rfl
    | applies here accepts => exact accepts.told going (by simp [Run.duties, here, Main.duties]) rfl
    | @receives rest w x queue events _ here walks first accepts =>
      have inHand : Duty.report x ∈ r.duties := by
        simp [Run.duties, walks, Walk.duties, first, Message.duty?]
      obtain ⟨same, unreported⟩ | ⟨-, inHand, reported, store, failed, cut⟩ := accepts.told going inHand rfl
      · exact .idle same unreported
      · exact .reports going inHand reported store (by simpa using failed) cut
    | _ => exact .idle rfl rfl

inductive Stages (s : Store) : List (Formatted × Fate) → Store → Prop where
  | start : Stages s [] s
  | write {fates t u x fate} (before : Stages s fates t) (meets : fate.Meets x t u) : Stages s (fates ++ [(x, fate)]) u

/-- What came of the written results of a run, in the order of their reports. -/
structure Fated (env : Conditions) (store : Store) (h : History) (r : Run) (fates : List (Formatted × Fate)) : Prop where
  stages : Stages store fates r.store
  reports : fates.map Prod.fst = h.reports.filter (·.isWritten env.settings)
  failed : ∀ x f, (x, .failed f) ∈ fates ↔ ∃ turn, (turn, .reported x (some f)) ∈ h
  cut : ∀ x, (x, .cut) ∈ fates → r.Escaped

theorem reportsAppend (h : History) (events : List Event) (turn : Nat) :
    (h ++ events.map (turn, ·) : History).reports = h.reports ++ events.filterMap Event.reported? := by
  simp [History.reports, List.filterMap_map]

theorem reportedNow {x : Formatted} {f : Failure} (mem : .reported x (some f) ∈ events) :
    x ∈ events.filterMap Event.reported? :=
  List.mem_filterMap.mpr ⟨_, mem, rfl⟩

section
variable {store : Store} {h : History} {fates : List (Formatted × Fate)}

theorem Fated.idle (fated : Fated env store h r fates) (moves : Moves env r events next) (same : next.store = r.store)
    (unwritten : (events.filterMap Event.reported?).filter (·.isWritten env.settings) = [])
    (unfailed : ∀ x f, .reported x (some f) ∉ events) : Fated env store (h ++ events.map (next.turn, ·)) next fates where
  stages := same ▸ fated.stages
  reports := by rw [reportsAppend, List.filter_append, unwritten, List.append_nil, fated.reports]
  failed x f := by simp [fated.failed, unfailed]
  cut x mem := (fated.cut x mem).move moves

theorem Fated.write (fated : Fated env store h r fates) (moves : Moves env r events next) {x : Formatted} {fate : Fate}
    (meets : fate.Meets x r.store next.store) (written : x.isWritten env.settings = true)
    (reported : events.filterMap Event.reported? = [x]) (failed : ∀ f, fate = .failed f ↔ .reported x (some f) ∈ events)
    (cut : fate = .cut → next.Escaped) :
    Fated env store (h ++ events.map (next.turn, ·)) next (fates ++ [(x, fate)]) where
  stages := .write fated.stages meets
  reports := by simp [reportsAppend, reported, written, fated.reports]
  failed y f := by
    have only : .reported y (some f) ∈ events ↔ y = x ∧ fate = .failed f := by
      refine ⟨fun mem => ?_, fun ⟨same, named⟩ => same ▸ (failed f).mp named⟩
      obtain rfl : y = x := by simpa [reported] using reportedNow mem
      exact ⟨rfl, (failed f).mpr mem⟩
    simp only [List.mem_append, List.mem_singleton, Prod.mk.injEq, fated.failed, List.mem_map, exists_or, ↓existsAndEq,
      and_true, only, eq_comm]
  cut y mem := by
    obtain old | new := List.mem_append.mp mem
    · exact (fated.cut y old).move moves
    · cases List.mem_singleton.mp new
      exact cut rfl

end
end

theorem Trace.fated {env : Conditions} {store : Store} {paths : List String} {canceled : Bool} {h : History} {r : Run}
    (trace : Trace env (Run.begin store paths canceled) h r) (unique : store.Unique) :
    ∃ fates, Fated env store h r fates := by
  induction trace with
  | start => exact ⟨[], .start, rfl, by simp, by simp⟩
  | @move h r next move before made ih =>
    obtain ⟨fates, fated⟩ := ih
    have moves := stepMoves made
    generalize r.events env move = events at moves ⊢
    obtain ⟨same, unreported⟩ | @⟨x, going, inHand, reported, store, failed, cut⟩ := moves.told
    · refine ⟨fates, fated.idle moves same (by rw [unreported]; rfl) fun x f mem => ?_⟩
      have inside := reportedNow mem
      rw [unreported] at inside
      cases inside
    · cases written : x.isWritten env.settings with
      | false =>
        obtain ⟨fine, kept⟩ := Formatted.reportUnwritten env.faults r.store written
        refine ⟨fates, fated.idle moves (store.trans kept) (by simp [reported, written]) fun y f mem => ?_⟩
        obtain rfl : y = x := by simpa [reported] using reportedNow mem
        rw [← failed, fine] at mem
        cases mem
      | true =>
        -- what is in hand was read from a file that is there still, so that its report meets a file
        have lasting := (before.lasting unique).resolve_left going
        have holds := lasting.inHand (before.sourced.resolve_left going) inHand
        have meets := Formatted.reportMeets env.faults lasting.lasts.unique holds written
        rw [← store] at meets
        refine ⟨_, fated.write moves meets written reported (fun f => ?_) cut⟩
        rw [← failed]
        exact Fate.failedResult

theorem Stages.meets {s t : Store} {fates : List (Formatted × Fate)} (stages : Stages s fates t) {x : Formatted}
    {fate : Fate} (mem : (x, fate) ∈ fates) : ∃ u v, fate.Meets x u v := by
  induction stages with
  | start => cases mem
  | write before meets ih =>
    obtain old | new := List.mem_append.mp mem
    · exact ih old
    · cases List.mem_singleton.mp new
      exact ⟨_, _, meets⟩

theorem accessOnce {f : Failure} {a b one two : String} (first : f.OfAccess a one) (second : f.OfAccess b two) :
    a = b ∧ one = two := by
  cases first
  cases second
  exact ⟨rfl, rfl⟩

theorem writeFailed {env : Conditions} {event : Event} {f : Failure} {unit : String} (fits : event.Fits env)
    (fails : event.failure? = some f) (access : f.OfAccess unit "write") :
    ∃ x, x.unit = unit ∧ event = .reported x (some f) := by
  cases event with
  | reported x failure =>
    cases fails
    exact ⟨x, (accessOnce fits access).1, rfl⟩
  | missing | unread =>
    cases fails
    exact absurd (accessOnce fits access).2 (by decide)
  | unlisted | broken | unhanded =>
    cases fails
    cases access
    simp [Event.Fits] at fits
  | formatted path source outcome =>
    cases outcome with
    | ok => cases fails
    | error g =>
      cases fails
      have failed : Run.outcome env path source = .error f := fits.symm
      cases access
      unfold Run.outcome Run.formatUnit at failed
      cases fault : env.faults.find? .format path with
      | some effect => cases effect <;> simp [fault, Effect.trouble] at failed
      | none =>
        obtain ⟨x, made, -⟩ | ⟨g, made, of⟩ := formatCases env.parser env.settings.toBlockRule path source
        · simp [fault, made] at failed
        · simp only [fault, made, Except.error.injEq] at failed
          subst failed
          cases of
  | checked canceled =>
    cases canceled <;> cases fails
    cases access
  | _ => cases fails

def Event.announced? (s : Settings) : Event → Option Formatted
  | .reported x _ => if x.notice s = some x.announcement then some x else none
  | _ => none

def History.announced (h : History) (s : Settings) : List Formatted := h.filterMap (·.2.announced? s)

section
variable {settings : Settings} (writes : settings.write = true) (aloud : settings.verbose = true)
  (wet : settings.dryRun = false)
include writes aloud wet

theorem noticeAnnounces (x : Formatted) : x.notice settings = some x.announcement ↔ x.isWritten settings = true := by
  cases modified : x.modified with
  | true => simp [Formatted.notice, Formatted.isWritten, Formatted.announcement, writes, aloud, wet, modified]
  | false =>
    have differ : s!"{x.unit}: no changes needed\n" ≠ x.announcement := by
      intro same
      have texts := congrArg String.toList same
      simp only [Formatted.announcement, toString, String.toList_append, List.append_assoc] at texts
      have tails := List.append_cancel_left texts
      simp at tails
    simp [Formatted.notice, Formatted.isWritten, aloud, modified, differ]

theorem announcedReports (h : History) : h.announced settings = h.reports.filter (·.isWritten settings) := by
  rw [History.announced, History.reports, List.filter_filterMap]
  refine List.filterMap_congr fun entry _ => ?_
  cases entry.2 with
  | reported x => simp [Event.announced?, Event.reported?, noticeAnnounces writes aloud wet, Option.filter]
  | _ => rfl

end

/-- A run that writes and prints says of every modified result that it is formatted, in the order of
the reports, and one by one they have come to this: the file was replaced by the formatted bytes and
nothing else was touched; or the write failed, all that was there is as it was, and the run holds the
failure that names the unit; or the write ended the run. No other failure of a write is collected. -/
theorem announcementsMeet {env : Conditions} {store : Store} {paths : List String} {canceled : Bool} {h : History}
    {r : Run} (unique : store.Unique) (writes : env.settings.write = true) (aloud : env.settings.verbose = true)
    (wet : env.settings.dryRun = false) (trace : Trace env (Run.begin store paths canceled) h r) :
    r.printed = h.printed env.settings ∧ ∃ fates,
      h.announced env.settings = fates.map Prod.fst ∧ Stages store fates r.store ∧
      (∀ x fate, (x, fate) ∈ fates → fate = .replaced ∨
        (∃ f ∈ r.failures, f.OfAccess x.unit "write" ∧ fate = .failed f) ∨ r.Escaped ∧ fate = .cut) ∧
      (∀ f ∈ r.failures, ∀ unit, f.OfAccess unit "write" → ∃ x, x.unit = unit ∧ (x, .failed f) ∈ fates) ∧
      ∀ result, r.main = .ended result → r.Escaped ∨ result = Run.verdict r.failures := by
  obtain ⟨fates, fated⟩ := trace.fated unique
  have ledger := trace.ledger
  refine ⟨ledger.printed, fates, ?_, fated.stages, fun x fate mem => ?ends, fun f mem unit access => ?names,
    fun result ended => ?verdict⟩
  · rw [announcedReports writes aloud wet, fated.reports]
  case ends =>
    cases fate with
    | replaced => exact .inl rfl
    | cut => exact .inr (.inr ⟨fated.cut x mem, rfl⟩)
    | failed f =>
      obtain ⟨_, _, access, -⟩ := fated.stages.meets mem
      obtain ⟨turn, reported⟩ := (fated.failed x f).mp mem
      refine .inr (.inl ⟨f, ?_, access, rfl⟩)
      rw [ledger.failures]
      exact List.mem_filterMap.mpr ⟨_, reported, rfl⟩
  case names =>
    rw [ledger.failures] at mem
    obtain ⟨⟨turn, event⟩, inside, fails⟩ := List.mem_filterMap.mp mem
    obtain ⟨x, unit, rfl⟩ := writeFailed (ledger.fits _ inside) fails access
    exact ⟨x, unit, (fated.failed x f).mpr ⟨turn, inside⟩⟩
  case verdict =>
    refine (trace.steady.ended result ended).symm.imp id fun checked => ?_
    exact Main.ended.inj (ended.symm.trans checked.ended)

def aloudUnder (faults : Faults) : Conditions := { writing with settings := writingAloud, faults }

theorem blockedReport {x : Formatted} (unit : x.unit = "a.go") (written : x.isWritten writingAloud = true) :
    (x.report writingAloud [blockedFirst] pairStore).result =
      .error (.failure (.inaccessible "a.go" "write" (.system .inputOutput none))) ∧
    (x.report writingAloud [blockedFirst] pairStore).store = pairStore := by
  have unfaulted (call : Call) (replaces : call ≠ .replace) (_ : call ≠ .unlink) := (blockedFinds call).2.1 replaces
  have quiet : x.isWritten writing.settings = true := written
  have blocked := (pairReports (.inl rfl) unfaulted unit quiet).2 _ (blockedFinds .replace).2.2
  rw [(blockedFinds .unlink).2.1 (by decide)] at blocked
  have same : x.report writingAloud [blockedFirst] pairStore =
      { x.report writing.settings [blockedFirst] pairStore with printed := (x.notice writingAloud).toList } := by
    simp only [Formatted.report, written, quiet, if_true]
  have removes : ∀ path, Faults.find? [blockedFirst] .unlink path = none := fun _ => rfl
  have holds : pairStore.Holds x.unit := unit ▸ ⟨_, _, _, pairPlaces.1, pairFinds.1⟩
  rw [same]
  refine ⟨blocked, ?_⟩
  obtain ⟨done, -⟩ | ⟨-, kept⟩ | ⟨failed, other, -⟩ :=
    Formatted.reportWritten [blockedFirst] pairWellFormed.unique holds quiet
  · rw [blocked] at done
    cases done
  · exact kept removes
  · rw [blocked] at failed
    cases failed
    exact absurd rfl (other _)

theorem blockedRun : ∃ h r, ∃ x : Formatted, x.unit = "a.go" ∧ x.content = exitSpaced ∧
    Trace (aloudUnder [blockedFirst]) (Run.begin pairStore ["a.go"] false) h r ∧ r.printed = [x.announcement] ∧
    r.store = pairStore ∧ r.failures = [.inaccessible "a.go" "write" (.system .inputOutput none)] ∧
    r.main = .ended (.error (.failure (.batch r.failures))) := by
  obtain ⟨x, made, unit, content, modified⟩ := exitFormats "a.go"
  have written : x.isWritten writingAloud = true := by simp [Formatted.isWritten, writingAloud, modified]
  have notice : x.notice writingAloud = some x.announcement := (noticeAnnounces rfl rfl rfl x).mpr written
  obtain ⟨failed, kept⟩ := blockedReport unit written
  have free (call : Call) (away : call ≠ .replace) := (blockedFinds call).2.1 away
  have formats : Run.formatUnit (aloudUnder [blockedFirst]) "a.go" exitSource = .ok x := by
    have rule : writingAloud.toBlockRule = {} := rfl
    have parser : writing.parser = Go.parse := rfl
    simp [aloudUnder, Run.formatUnit, free, rule, parser, made]
  have told : (x.report writingAloud [blockedFirst] pairStore).printed = [x.announcement] := by
    simp [Formatted.report, written, notice]
  obtain ⟨found, -, file, -, read, -⟩ := pairFiles
  have reads : Faults.guarded [blockedFirst] .read "a.go" (pairStore.read "a.go") = .ok exitSource := by
    simp [Faults.guarded, Except.mapError, free, read]
  have first : Phase (aloudUnder [blockedFirst]) (Run.begin pairStore ["a.go"] false) _ _ _ _ :=
    .formats rfl rfl pairPlain.1 file (free .stat (by decide)) found reads formats
  have done := (first.append (.rejects rfl failed)).append (.finishes rfl rfl)
  exact ⟨_, _, x, unit, content, done.trace, told, kept, rfl, rfl⟩

theorem blockedAnnounced : ∃ h r fates, ∃ x : Formatted, ∃ f,
    Trace (aloudUnder [blockedFirst]) (Run.begin pairStore ["a.go"] false) h r ∧
    h.announced writingAloud = fates.map Prod.fst ∧ Stages pairStore fates r.store ∧ x.unit = "a.go" ∧
    (x, .failed f) ∈ fates ∧ f ∈ r.failures := by
  obtain ⟨h, r, -, -, -, trace, -, -, failures, -⟩ := blockedRun
  obtain ⟨-, fates, announced, stages, -, named, -⟩ :=
    announcementsMeet pairWellFormed.unique (rfl : writingAloud.write = true) rfl rfl trace
  have collected := failures.symm ▸ List.mem_singleton_self (Failure.inaccessible "a.go" "write" (.system .inputOutput none))
  obtain ⟨x, unit, mem⟩ := named _ collected "a.go" .inaccessible
  exact ⟨h, r, fates, x, _, trace, announced, stages, unit, mem, collected⟩

/-- The line that calls the file formatted is printed, with its changes, and the file is as it was. -/
theorem announcedUnreplaced : ∃ h r, ∃ x : Formatted,
    Trace (aloudUnder [blockedFirst]) (Run.begin pairStore ["a.go"] false) h r ∧
    r.printed = ["a.go: formatted\n" ++ x.details] ∧ x.content = exitSpaced ∧ r.store.read "a.go" = .ok exitSource ∧
    exitSpaced ≠ exitSource ∧
    r.main = .ended (.error (.failure (.batch [.inaccessible "a.go" "write" (.system .inputOutput none)]))) := by
  obtain ⟨h, r, x, unit, content, trace, printed, store, failures, ended⟩ := blockedRun
  refine ⟨h, r, x, trace, ?_, content, store ▸ pairFiles.2.2.2.2.1, ?_, failures ▸ ended⟩
  · have line : "a.go" ++ ": formatted\n" = "a.go: formatted\n" := by decide
    rw [printed, Formatted.announcement, unit, ← line]
    rfl
  · exact fun same => absurd (congrArg List.length same) (by decide +kernel)

end Batch
end ExitSpacing
