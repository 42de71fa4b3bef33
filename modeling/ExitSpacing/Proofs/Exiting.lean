import ExitSpacing.Command.Outcome
import ExitSpacing.Proofs.Growing
import ExitSpacing.Proofs.Stopping

/-! The exit code tells what happened. Option values that make no settings are refused before
anything is read; standard input fails when it cannot be formatted; and a run over paths fails
when anything in it did, unless it was asked to stop before its final check. -/
namespace ExitSpacing

namespace Batch

namespace Event

def isFault : Event → Bool
  | .missing .. | .unlisted .. | .broken .. | .unread .. | .unhanded .. => true
  | .formatted _ _ (.error _) | .reported _ (some _) => true
  | _ => false

theorem faultFails {event : Event} (fault : event.isFault = true) : ∃ f, event.failure? = some f := by
  unfold isFault at fault
  split at fault <;> first | exact ⟨_, rfl⟩ | cases fault

theorem failsFault {event : Event} {f : Failure} (fails : event.failure? = some f) :
    event.isFault = true ∨ event = .checked true := by
  unfold failure? at fails
  split at fails <;> simp_all [isFault]

end Event

section
variable {env : Conditions} {r next : Run} {events : List Event}

theorem MainMove.asks (move : MainMove env r events next) : next.canceled = r.canceled ∧ .canceled ∉ events := by
  cases move with
  | finishes here =>
    obtain ⟨log, finish⟩ := finishIs r
    rw [finish]
    exact ⟨rfl, by simp⟩
  | applies here accepts => cases accepts <;> exact ⟨rfl, by simp⟩
  | receives here walk first accepts => cases accepts <;> exact ⟨rfl, by simp⟩
  | _ => exact ⟨rfl, by simp⟩

theorem Moves.asks (moves : Moves env r events next) :
    next.canceled = true ↔ r.canceled = true ∨ .canceled ∈ events := by
  cases moves with
  | cancels => simp
  | main move =>
    obtain ⟨same, silent⟩ := move.asks
    simp [same, silent]
  | walker here move => cases move <;> simp
  | worker here employed move => cases move <;> simp

theorem MainMove.concludes (move : MainMove env r events next) (checked : next.Checked) :
    events = [.checked r.canceled] := by
  have ended := checked.ended
  cases move with
  | finishes => rfl
  | escapes here other => exact absurd ⟨_, rfl, other⟩ checked.unescaped
  | applies here accepts | receives here walk first accepts =>
    cases accepts with
    | escapes failed other => exact absurd ⟨_, rfl, other⟩ checked.unescaped
    | _ => cases ended
  | notes here => cases here.symm.trans ended
  | _ => cases ended

theorem Moves.concludes (moves : Moves env r events next) (steady : r.Steady) (checked : next.Checked) :
    r.Checked ∧ events = [.canceled] ∨ (∀ result, r.main ≠ .ended result) ∧ events = [.checked r.canceled] := by
  have before {result : Except Trouble Unit} (ended : r.main = .ended result) : r.Checked :=
    (steady.ended result ended).resolve_right fun escaped => checked.unescaped (escaped.move moves)
  cases moves with
  | cancels => exact .inl ⟨before checked.ended, rfl⟩
  | main move => exact .inr ⟨move.going, move.concludes checked⟩
  | walker here move => cases checked.alone
  | worker here employed move => cases checked.alone

end

def Concludes (canceled : Bool) (h : History) (asked : Bool) : Prop :=
  ∃ before turn after, h = before ++ (turn, .checked asked) :: after ∧
    (∀ entry ∈ before ++ after, ∀ other, entry.2 ≠ .checked other) ∧
    (asked = true ↔ canceled = true ∨ ∃ turn, (turn, .canceled) ∈ before)

section
variable {env : Conditions} {store : Store} {paths : List String} {canceled : Bool} {h : History} {r : Run}

theorem Trace.concludes (trace : Trace env (Run.begin store paths canceled) h r) :
    ((∀ result, r.main ≠ .ended result) → (∀ entry ∈ h, ∀ other, entry.2 ≠ .checked other) ∧
      (r.canceled = true ↔ canceled = true ∨ ∃ turn, (turn, .canceled) ∈ h)) ∧
    (r.Checked → ∃ asked, Concludes canceled h asked) := by
  -- Until the main actor ends, the history says whether there was a request; from then on it has one check.
  induction trace with
  | start => exact ⟨fun _ => ⟨by simp, by simp [Run.begin]⟩, fun checked => by cases checked.ended⟩
  | @move h r next move before made ih =>
    have moves := stepMoves made
    refine ⟨fun going => ?_, fun checked => ?_⟩
    · obtain ⟨unchecked, asked⟩ := ih.1 fun result ended => going result (moves.ended ended)
      refine ⟨fun entry mem other check => ?_, ?_⟩
      · obtain old | new := List.mem_append.mp mem
        · exact unchecked entry old other check
        · obtain ⟨event, inside, rfl⟩ := List.mem_map.mp new
          change event = .checked other at check
          subst check
          obtain ⟨-, result, ended⟩ := moves.checks inside
          exact going result ended
      · rw [moves.asks, asked]
        simp [or_assoc, exists_or]
    · obtain ⟨earlier, events⟩ | ⟨going, events⟩ := moves.concludes before.steady checked
      · obtain ⟨asked, front, turn, after, rfl, once, told⟩ := ih.2 earlier
        refine ⟨asked, front, turn, after ++ [(next.turn, .canceled)], by rw [events]; simp, ?_, told⟩
        simp only [← List.append_assoc, List.forall_mem_append] at once ⊢
        exact ⟨once, by simp⟩
      · obtain ⟨unchecked, asked⟩ := ih.1 going
        exact ⟨r.canceled, h, next.turn, [], by rw [events]; rfl, by simpa using unchecked, asked⟩

theorem Trace.holdsStop (trace : Trace env (Run.begin store paths canceled) h r) {asked : Bool}
    (concludes : Concludes canceled h asked) : r.failures.any Failure.isCanceled = asked := by
  obtain ⟨before, turn, after, whole, once, -⟩ := concludes
  rw [Bool.eq_iff_iff, List.any_eq_true, trace.ledger.failures]
  refine ⟨?_, ?_⟩
  · rintro ⟨f, mem, stops⟩
    obtain ⟨entry, inside, fails⟩ := List.mem_filterMap.mp mem
    obtain plain | check := (trace.ledger.fits entry inside).uncanceled fails
    · rw [plain] at stops; cases stops
    · rw [whole] at inside
      obtain old | here | late := by simpa using inside
      · exact absurd check (once entry (List.mem_append_left _ old) true)
      · rw [here] at check
        cases check
        rfl
      · exact absurd check (once entry (List.mem_append_right _ late) true)
  · rintro rfl
    refine ⟨.stopped, List.mem_filterMap.mpr ⟨(turn, .checked true), ?_, rfl⟩, rfl⟩
    simp [whole]

theorem Trace.failsOn (trace : Trace env (Run.begin store paths canceled) h r) (concludes : Concludes canceled h false) :
    r.failures = [] ↔ h.any (·.2.isFault) = false := by
  obtain ⟨before, turn, after, whole, once, -⟩ := concludes
  rw [trace.ledger.failures, History.failures, List.filterMap_eq_nil_iff, List.any_eq_false]
  refine forall₂_congr fun entry mem => ⟨fun silent fault => ?_, fun fine => ?_⟩
  · obtain ⟨f, fails⟩ := Event.faultFails fault
    rw [silent] at fails
    cases fails
  · rw [Option.eq_none_iff_forall_ne_some]
    intro f fails
    obtain fault | check := Event.failsFault fails
    · exact fine fault
    · rw [whole] at mem
      obtain old | here | late := by simpa using mem
      · exact once entry (List.mem_append_left _ old) true check
      · rw [here] at check
        cases check
      · exact once entry (List.mem_append_right _ late) true check

end

end Batch

namespace Command

def Options.Invalid (o : Options) : Prop :=
  o.blockSize < 0 ∨ o.parallelism < 0 ∨ o.policy ∉ ["lines", "statements"]

structure Options.Gives (o : Options) (settings : Settings) : Prop where
  blockSize : settings.blockSize = o.blockSize
  policy : settings.policy.word = o.policy
  write : settings.write = o.write
  dryRun : settings.dryRun = o.dryRun
  verbose : settings.verbose = o.verbose
  parallelism : o.parallelism ≠ 0 → settings.parallelism = o.parallelism

section
variable (o : Options) (processors : Option Nat)

theorem optionFields : o.fields.lookup "block_size" = some (.integer o.blockSize) ∧
    o.fields.lookup "write" = some (.boolean o.write) ∧ o.fields.lookup "dry_run" = some (.boolean o.dryRun) ∧
    o.fields.lookup "verbose" = some (.boolean o.verbose) ∧
    o.fields.lookup "block_size_policy" = some (.text o.policy) ∧
    o.fields.lookup "parallelism" = if o.parallelism = 0 then none else some (.integer o.parallelism) := by
  refine ⟨rfl, rfl, rfl, rfl, rfl, ?_⟩
  by_cases zero : o.parallelism = 0 <;> simp [Options.fields, zero, List.lookup_cons]

theorem sizeCases : (∃ n : Nat, o.fields.optional "block_size" 1 Value.toNatural = .ok n ∧ n = o.blockSize) ∨
    ∃ issues, o.fields.optional "block_size" 1 Value.toNatural = .error issues ∧ o.blockSize < 0 := by
  simp only [Fields.optional, optionFields, Value.toNatural, Value.toInteger, bind, Except.bind]
  split
  · rename_i negative
    exact .inr ⟨_, rfl, negative⟩
  · exact .inl ⟨o.blockSize.toNat, rfl, by omega⟩

theorem parallelismCases :
    (∃ n, o.fields.optional "parallelism" (defaultParallelism processors) Value.toPositive = .ok n ∧
      ¬ o.parallelism < 0 ∧ (o.parallelism ≠ 0 → n.val = o.parallelism)) ∨
    ∃ issues, o.fields.optional "parallelism" (defaultParallelism processors) Value.toPositive = .error issues ∧
      o.parallelism < 0 := by
  simp only [Fields.optional, optionFields]
  by_cases zero : o.parallelism = 0
  · rw [if_pos zero]
    exact .inl ⟨_, rfl, by omega, fun other => absurd zero other⟩
  · rw [if_neg zero]
    simp only [Value.toPositive, Value.toInteger, bind, Except.bind]
    by_cases positive : 0 < o.parallelism
    · rw [dif_pos positive]
      exact .inl ⟨_, rfl, by omega, fun _ => by simp; omega⟩
    · rw [dif_neg positive]
      exact .inr ⟨_, rfl, by omega⟩

theorem policyCases : (∃ policy, o.fields.optional "block_size_policy" .lines SizePolicy.ofValue = .ok policy ∧
      policy.word = o.policy) ∨
    ∃ issues, o.fields.optional "block_size_policy" .lines SizePolicy.ofValue = .error issues ∧
      o.policy ∉ ["lines", "statements"] := by
  simp only [Fields.optional, optionFields, SizePolicy.ofValue]
  by_cases lines : o.policy = "lines"
  · exact .inl ⟨.lines, by rw [lines]; rfl, lines.symm⟩
  by_cases statements : o.policy = "statements"
  · exact .inl ⟨.statements, by rw [statements]; rfl, statements.symm⟩
  have other : SizePolicy.words.lookup o.policy = none := by
    simp [SizePolicy.words, List.lookup_cons, beq_eq_false_iff_ne.mpr lines, beq_eq_false_iff_ne.mpr statements]
  rw [other]
  exact .inr ⟨_, rfl, by simp [lines, statements]⟩

theorem flagFields : o.fields.optional "write" false Value.toFlag = .ok o.write ∧
    o.fields.optional "dry_run" false Value.toFlag = .ok o.dryRun ∧
    o.fields.optional "verbose" false Value.toFlag = .ok o.verbose := by
  simp [Fields.optional, optionFields, Value.toFlag, Except.mapError]

theorem settingsCases : (∃ settings, o.settings processors = .ok settings ∧ o.Gives settings ∧ ¬ o.Invalid) ∨
    ∃ issues, o.settings processors = .error issues ∧ o.Invalid := by
  obtain ⟨write, dryRun, verbose⟩ := flagFields o
  simp only [Options.settings, Settings.ofFields, write, dryRun, verbose]
  obtain ⟨n, sized, size⟩ | ⟨issues, sized, negative⟩ := sizeCases o
  · obtain ⟨p, paced, below, pace⟩ | ⟨issues, paced, negative⟩ := parallelismCases o processors
    · obtain ⟨policy, known, word⟩ | ⟨issues, unknown, other⟩ := policyCases o
      · rw [sized, paced, known]
        refine .inl ⟨_, rfl, ⟨size, word, rfl, rfl, rfl, pace⟩, ?_⟩
        rintro (negative | negative | other)
        · omega
        · exact below negative
        · rw [← word] at other
          cases policy <;> exact other (by decide)
      · rw [sized, paced, unknown]
        exact .inr ⟨_, rfl, .inr (.inr other)⟩
    · refine .inr ?_
      rw [sized, paced]
      obtain ⟨policy, known, -⟩ | ⟨more, unknown, -⟩ := policyCases o
      · rw [known]; exact ⟨_, rfl, .inr (.inl negative)⟩
      · rw [unknown]; exact ⟨_, rfl, .inr (.inl negative)⟩
  · refine .inr ?_
    rw [sized]
    obtain ⟨p, paced, -⟩ | ⟨more, paced, -⟩ := parallelismCases o processors <;>
    obtain ⟨policy, known, -⟩ | ⟨last, known, -⟩ := policyCases o <;>
    · rw [paced, known]
      exact ⟨_, rfl, .inl negative⟩

end

def shown (settings : Settings) (r : Batch.Run) : Outcome :=
  let (code, err, last) := closing r
  { code
    out := Bytes.ofString ("".intercalate r.printed)
    err
    log := (r.log ++ last).filter (·.isShown settings.verbose)
    store := r.store }

theorem textsMap (failures : List Failure) : Failure.texts failures = failures.map Failure.text := by
  induction failures with
  | nil => rw [Failure.texts, List.map_nil]
  | cons f failures ih => rw [Failure.texts, ih, List.map_cons]

/-- The code and the message of a run over paths, read off its history. -/
structure Tells (canceled : Bool) (h : Batch.History) (asked : Bool) (outcome : Outcome) : Prop where
  concludes : Batch.Concludes canceled h asked
  code : outcome.code = if asked then .canceled else if h.any (·.2.isFault) then .failed else .done
  message : outcome.err = if asked then "operation canceled\n" else if h.any (·.2.isFault)
    then "error: " ++ "\n".intercalate (h.failures.map Failure.text) ++ "\n" else ""

theorem closes {r : Batch.Run} (checked : r.Checked) : closing r =
    if r.failures.any Failure.isCanceled then (.canceled, "operation canceled\n", [])
    else if r.failures.isEmpty then (.done, "", [countLine r.results])
    else (.failed, "error: " ++ "\n".intercalate (r.failures.map Failure.text) ++ "\n", []) := by
  rw [closing, checked.ended, Batch.Run.verdict]
  cases none : r.failures with
  | nil => rfl
  | cons f failures =>
    simp only [List.isEmpty_cons, Bool.false_eq_true, if_false, Failure.holdsCancellation, failText, Failure.text,
      textsMap]
    rfl

theorem shownTells {env : Batch.Conditions} {store : Store} {paths : List String} {canceled : Bool} {h : Batch.History}
    {r : Batch.Run} (trace : Batch.Trace env (Batch.Run.begin store paths canceled) h r) (checked : r.Checked) :
    ∃ asked, Tells canceled h asked (shown env.settings r) := by
  obtain ⟨asked, concludes⟩ := trace.concludes.2 checked
  have stops := trace.holdsStop concludes
  refine ⟨asked, concludes, ?_, ?_⟩ <;> simp only [shown, closes checked, stops]
  all_goals
    cases asked with
    | true => rfl
    | false =>
      have fails := trace.failsOn concludes
      cases fault : h.any (·.2.isFault) with
      | false => simp [fails.mpr fault]
      | true =>
        have some : h.failures ≠ [] := by
          rw [← trace.ledger.failures, ne_eq, fails, fault]
          simp
        simp [some, trace.ledger.failures]

def Renders (parser : Parser) (rule : BlockRule) (unit : String) (source : Bytes) : Prop :=
  (parser source).hasError = false →
    (parser ((⟨unit, source, (parser source).blocks⟩ : Document).apply rule).1.text).hasError = false

structure InputTells (parser : Parser) (rule : BlockRule) (input : Bytes) (outcome : Outcome) : Prop where
  fails : ∀ trouble, format parser rule inputUnit input = .error trouble → outcome.code = .failed ∧ outcome.out = [] ∧
    ∃ f, trouble = .failure f ∧ outcome.err = "error: " ++ f.text ++ "\n"
  formats : ∀ x, format parser rule inputUnit input = .ok x → outcome.code = .done ∧ outcome.out = x.content
  parses : Renders parser rule inputUnit input →
    (outcome.code = .failed ↔ (parser input).hasError = true) ∧ (outcome.code = .done ↔ (parser input).hasError = false)

theorem inputTells (s : Surroundings) (settings : Settings) (input : Bytes) :
    InputTells s.parser settings.toBlockRule input (formatInput s settings input) ∧
      (formatInput s settings input).store = s.store := by
  have made : (∃ x, format s.parser settings.toBlockRule inputUnit input = .ok x) ∨
      ∃ f, format s.parser settings.toBlockRule inputUnit input = .error (.failure f) := by
    obtain ⟨x, made, -⟩ | ⟨f, failed, -⟩ := formatCases s.parser settings.toBlockRule inputUnit input
    · exact .inl ⟨x, made⟩
    · exact .inr ⟨f, failed⟩
  obtain ⟨x, made⟩ | ⟨f, failed⟩ := made
  · have accepted := formatAccepted made
    refine ⟨⟨?_, ?_, fun _ => ?_⟩, by simp [formatInput, made]⟩
    · intro trouble failed
      cases made.symm.trans failed
    · intro y same
      cases made.symm.trans same
      simp [formatInput, made]
    · simp [formatInput, made, accepted]
  · refine ⟨⟨?_, ?_, fun renders => ?_⟩, by simp [formatInput, failed]⟩
    · intro trouble same
      cases failed.symm.trans same
      refine ⟨by simp [formatInput, failed], by simp [formatInput, failed], f, rfl, ?_⟩
      simp [formatInput, failed, failText, toString]
    · intro x made
      cases failed.symm.trans made
    · have rejected : (s.parser input).hasError = true := by
        by_contra accepted
        rw [Bool.not_eq_true] at accepted
        obtain ⟨x, made, -⟩ := formatText settings.toBlockRule accepted (renders accepted)
        cases failed.symm.trans made
      simp [formatInput, failed, rejected]

theorem closingUsage (r : Batch.Run) : (closing r).1 ≠ .usage := by
  unfold closing
  split
  · exact nofun
  · split <;> exact nofun
  · exact nofun

theorem inputUsage (s : Surroundings) (settings : Settings) (input : Bytes) :
    (formatInput s settings input).code ≠ .usage := by
  unfold formatInput
  split <;> exact nofun

theorem planned (processors : Option Nat) (o : Options) :
    (∃ settings, Plan.ofOptions processors o =
        (if !o.paths.isEmpty then .paths settings o.paths else if settings.write
          then .stop .failed "" "error: -w flag is not supported when processing from stdin\n" else .input settings) ∧
        o.Gives settings ∧ ¬ o.Invalid) ∨
      ∃ err, Plan.ofOptions processors o = .stop .usage "" err ∧ o.Invalid := by
  simp only [Plan.ofOptions]
  obtain ⟨settings, read, gives, valid⟩ | ⟨issues, refused, invalid⟩ := settingsCases o processors
  · rw [read]
    exact .inl ⟨settings, rfl, gives, valid⟩
  · rw [refused]
    exact .inr ⟨_, rfl, invalid⟩

def Surroundings.conditions (s : Surroundings) (settings : Settings) : Batch.Conditions :=
  { settings, faults := s.faults, parser := s.parser }

/-- Option values are refused exactly when they are out of range, before anything is read. -/
structure Refuses (s : Surroundings) (o : Options) : Prop where
  stops : (∃ out err, Plan.ofOptions s.processors o = .stop .usage out err) ↔ o.Invalid
  code : ∀ input, ((Plan.ofOptions s.processors o).outcome s input).code = .usage ↔ o.Invalid
  untouched : o.Invalid → ∀ input, ((Plan.ofOptions s.processors o).outcome s input).store = s.store

/-- What a run over paths comes to, in every order of moves. The command itself takes one such
order, whatever its alarm. -/
structure PathsTell (s : Surroundings) (settings : Settings) (paths : List String) : Prop where
  shows : ∀ input, (Plan.paths settings paths).outcome s input =
    shown settings (Batch.run (s.conditions settings) s.store paths s.alarm s.notice)
  scheduled : ∃ h, Batch.Trace (s.conditions settings) (Batch.Run.begin s.store paths (s.alarm == .before)) h
    (Batch.run (s.conditions settings) s.store paths s.alarm s.notice)
  ends : s.faults.Caught → (∀ path ∈ paths, Path.hasNull path = false) → ∀ canceled h r,
    Batch.Trace (s.conditions settings) (Batch.Run.begin s.store paths canceled) h r →
      (∀ result, r.main = .ended result → r.Checked) ∧
        ∃ later last, Batch.Trace (s.conditions settings) r later last ∧ last.canceled = r.canceled ∧ last.Checked
  tells : ∀ canceled h r, Batch.Trace (s.conditions settings) (Batch.Run.begin s.store paths canceled) h r →
    r.Checked → ∃ asked, Tells canceled h asked (shown settings r)

/-- What comes of options that make settings. -/
structure Follows (s : Surroundings) (o : Options) (settings : Settings) : Prop where
  gives : o.Gives settings
  writes : o.paths = [] → o.write = true → Plan.ofOptions s.processors o =
    .stop .failed "" "error: -w flag is not supported when processing from stdin\n"
  reads : o.paths = [] → o.write = false → Plan.ofOptions s.processors o = .input settings
  input : ∀ input, InputTells s.parser settings.toBlockRule input ((Plan.input settings).outcome s input) ∧
    ((Plan.input settings).outcome s input).store = s.store
  walks : o.paths ≠ [] → Plan.ofOptions s.processors o = .paths settings o.paths
  paths : PathsTell s settings o.paths

/-- The exit code tells what happened, whatever the values of the options are, and however they
were given as arguments. -/
theorem exitTells (s : Surroundings) (o : Options) (wellFormed : s.store.WellFormed) :
    Refuses s o ∧ (¬ o.Invalid → ∃ settings, Follows s o settings) ∧
      ∀ arguments, Request.ofArguments arguments = some (.format o) →
        Plan.ofArguments s.processors s.release arguments = Plan.ofOptions s.processors o ∧
          ∀ input, run s arguments input = (Plan.ofOptions s.processors o).outcome s input := by
  have paths (settings : Settings) : PathsTell s settings o.paths := by
    refine ⟨fun input => rfl, Batch.scheduled .., fun caught plain canceled h r trace => ?_,
      fun canceled h r trace => shownTells trace⟩
    have finishes := trace.finishes caught wellFormed plain
    exact ⟨fun result ended => (finishes.ended result ended).1, finishes.ends⟩
  refine ⟨?refuses, ?follows, fun arguments request => ?reader⟩
  -- Valid options give one of three plans; invalid ones stop with the usage code before anything is read.
  case refuses =>
    obtain ⟨settings, planned, -, valid⟩ | ⟨err, stops, invalid⟩ := planned s.processors o
    · refine ⟨⟨?_, fun invalid => absurd invalid valid⟩, fun input => iff_of_false ?_ valid,
        fun invalid => absurd invalid valid⟩
      · rintro ⟨out, err, stops⟩
        rw [planned] at stops
        split at stops
        · cases stops
        · split at stops <;> cases stops
      · rw [planned]
        split
        · exact closingUsage _
        · split
          · exact nofun
          · exact inputUsage s settings input
    · refine ⟨⟨fun _ => invalid, fun _ => ⟨_, err, stops⟩⟩, fun input => ?_, fun _ input => ?_⟩
      · rw [stops]
        exact iff_of_true rfl invalid
      · rw [stops]
        rfl
  case follows =>
    intro valid
    obtain ⟨settings, planned, gives, -⟩ | ⟨-, -, invalid⟩ := planned s.processors o
    · refine ⟨settings, gives, fun none writes => ?_, fun none unwritten => ?_, inputTells s settings, fun some => ?_,
        paths settings⟩
      · simpa [none, gives.write, writes] using planned
      · simpa [none, gives.write, unwritten] using planned
      · simpa [some] using planned
    · exact absurd invalid valid
  case reader =>
    have plan : Plan.ofArguments s.processors s.release arguments = Plan.ofOptions s.processors o := by
      simp only [Plan.ofArguments, request]
    exact ⟨plan, fun input => by rw [run, plan]⟩

def linkedSurroundings (faults : Faults) : Surroundings :=
  { parser := Go.parse, store := Batch.linkedStore Batch.exitSource, faults }

def reportingOptions : Options := { dryRun := true, parallelism := 2, paths := ["d"] }

theorem Options.Gives.rule {o : Options} {settings : Settings} (gives : o.Gives settings) (size : o.blockSize = 1)
    (policy : o.policy = "lines") : settings.toBlockRule = {} := by
  obtain ⟨⟨blockSize, known⟩⟩ := settings
  obtain rfl : blockSize = 1 := Int.ofNat.inj (gives.blockSize.trans size)
  have word := gives.policy.trans policy
  cases known with
  | lines => rfl
  | statements => simp [SizePolicy.word] at word

theorem givesReporting {settings : Settings} (gives : reportingOptions.Gives settings) :
    settings = Batch.reporting.settings := by
  have pace := gives.parallelism (by decide)
  have rule := gives.rule rfl rfl
  obtain ⟨-, -, writes, dry, verbosely, -⟩ := gives
  obtain ⟨known, write, dryRun, verbose, parallelism, positive⟩ := settings
  obtain rfl : parallelism = 2 := Int.ofNat.inj pace
  simp_all [reportingOptions, Batch.reporting]

theorem exitTold :
    (∀ input, (run (linkedSurroundings []) ["--block-size=-1"] input).code = .usage) ∧
    ((run (linkedSurroundings []) [] Batch.exitSource).code = .done ∧
      (run (linkedSurroundings []) [] Batch.exitSource).out = Batch.exitSpaced) ∧
    (∃ h r asked, Batch.Trace Batch.reporting (Batch.Run.begin (Batch.linkedStore Batch.exitSource) ["d"] false) h r ∧
      Tells false h asked (shown Batch.reporting.settings r) ∧ (shown Batch.reporting.settings r).code = .done) ∧
    ∃ h r asked, Batch.Trace Batch.unreadable (Batch.Run.begin (Batch.linkedStore Batch.exitSource) ["d"] false) h r ∧
      Tells false h asked (shown Batch.reporting.settings r) := by
  have wellFormed := Batch.linkedWellFormed Batch.exitSource
  have negative : Request.ofArguments ["--block-size=-1"] = some (.format { blockSize := -1 }) := by decide +kernel
  have bare : Request.ofArguments [] = some (.format {}) := by decide +kernel
  have valid (o : Options) (small : 0 ≤ o.blockSize) (pace : 0 ≤ o.parallelism) (known : o.policy = "lines") :
      ¬ o.Invalid := by
    rintro (size | slow | other)
    · omega
    · omega
    · exact other (by simp [known])
  refine ⟨fun input => ?_, ?_, ?_, ?_⟩
  · obtain ⟨refuses, -, reader⟩ := exitTells (linkedSurroundings []) { blockSize := -1 } wellFormed
    rw [(reader _ negative).2]
    exact (refuses.code input).mpr (.inl (by decide))
  · obtain ⟨-, follows, reader⟩ := exitTells (linkedSurroundings []) {} wellFormed
    obtain ⟨settings, follows⟩ := follows (valid _ (by decide) (by decide) rfl)
    have rule : settings.toBlockRule = {} := follows.gives.rule rfl rfl
    obtain ⟨x, made, -, content, -⟩ := Batch.exitFormats inputUnit
    rw [← rule] at made
    obtain ⟨code, out⟩ := (follows.input Batch.exitSource).1.formats x made
    rw [(reader _ bare).2, follows.reads rfl rfl]
    exact ⟨code, out.trans content⟩
  · obtain ⟨-, follows, -⟩ := exitTells (linkedSurroundings []) reportingOptions wellFormed
    obtain ⟨settings, follows⟩ := follows (valid _ (by decide) (by decide) rfl)
    obtain rfl := givesReporting follows.gives
    obtain ⟨h, r, trace, checked, -, ended, -⟩ := Batch.reportsBoth
    obtain ⟨asked, tells⟩ := follows.paths.tells false h r trace checked
    exact ⟨h, r, asked, trace, tells, by simp [shown, closing, ended]⟩
  · obtain ⟨-, follows, -⟩ := exitTells (linkedSurroundings Batch.unreadable.faults) reportingOptions wellFormed
    obtain ⟨settings, follows⟩ := follows (valid _ (by decide) (by decide) rfl)
    obtain rfl := givesReporting follows.gives
    have caught : Batch.unreadable.faults.Caught := by
      simp [Faults.Caught, Batch.unreadable, Fault.isCaught, Fault.isContained]
    obtain ⟨-, h, r, trace, -, checked⟩ := follows.paths.ends caught (by decide +kernel) false _ _ .start
    obtain ⟨asked, tells⟩ := follows.paths.tells false h r trace checked
    exact ⟨h, r, asked, trace, tells⟩

end Command
end ExitSpacing
