import ExitSpacing.Proofs.Entering
import ExitSpacing.Proofs.Parallel

/-! What a run finds its files to be where only single units fail. No such failure stops a walk
or keeps the run from the paths behind, so each file is faced, and found to be what it is at the
start. -/
namespace ExitSpacing

def Fault.isOfUnit (fault : Fault) : Bool :=
  match fault.call, fault.effect with
  | .stat, .system _ => true
  | _, _ => fault.isOfFile

namespace Faults

/-- Only looking up, reading and writing of single units is made to fail. -/
def OfUnits (faults : Faults) : Prop := ∀ fault ∈ faults, fault.isOfUnit = true

theorem OfUnits.contained {faults : Faults} (ofUnits : faults.OfUnits) : faults.Contained := by
  intro fault mem
  have ofUnit := ofUnits fault mem
  obtain ⟨call, path, effect⟩ := fault
  cases call <;> cases effect <;> first | rfl | cases ofUnit

theorem OfUnits.walks {faults : Faults} (ofUnits : faults.OfUnits) {call : Call}
    (walking : call = .list ∨ call = .isFile ∨ call = .start) (path : String) : faults.find? call path = none := by
  by_contra some
  obtain ⟨effect, found⟩ := Option.ne_none_iff_exists'.mp some
  obtain ⟨fault, mem, called, -⟩ := foundFault found
  have ofUnit := ofUnits fault mem
  obtain rfl | rfl | rfl := walking <;> · rw [Fault.isOfUnit, Fault.isOfFile, called] at ofUnit; cases ofUnit

end Faults

namespace Store

section
variable {s : Store} {path : String}

theorem Apart.selfless {there : Location} (located : s.locate path = .ok there) : ¬ s.Apart path path :=
  fun apart => apart there located located

theorem unitOnce {units : List String} (apart : units.Pairwise s.Apart) (mem : path ∈ units) {there : Location}
    (located : s.locate path = .ok there) : units.filter (· == path) = [path] := by
  have alone := apart.filter (· == path)
  rw [List.filter_beq, List.pairwise_replicate] at alone
  have one := alone.resolve_right (Apart.selfless located)
  have some := List.count_pos_iff.mpr mem
  rw [List.filter_beq, show List.count path units = 1 by omega]
  rfl

theorem selectedAside {paths : List String} (apart : (paths.flatMap s.units).Pairwise s.Apart) {root : String}
    (listed : root ∈ paths) (directory : s.isDirectory root = true) (mem : path ∈ s.units root) : path ∉ paths := by
  intro again
  obtain ⟨⟨there, mode, content, located, -⟩, other⟩ := fileHolds (unitsFiles directory mem)
  have differ : root ≠ path := by
    rintro rfl
    rw [directory] at other
    cases other
  have alone : s.units path = [path] := by simp [units, other]
  have symm : Std.Symm fun a b => ∀ x ∈ s.units a, ∀ y ∈ s.units b, s.Apart x y :=
    ⟨fun a b apart x inA y inB => (apart y inB x inA).symm⟩
  exact Apart.selfless located
    ((List.pairwise_flatMap.mp apart).2.forall listed again differ path mem path (by simp [alone]))

end
end Store

namespace Batch

def Walker.pending : Walker → List String
  | .arrived path listing pending => (Visit.ofListing path listing).inner ++ pending
  | .list pending | .notify _ _ pending | .choose _ pending | .wait _ _ pending | .poll _ _ pending | .check _ _ pending
  | .read _ _ pending | .start _ _ _ pending | .prune _ _ _ pending => pending
  | .begin | .join _ | .closed => []

structure Walk.Rooted (s : Store) (paths : List String) (w : Walk) : Prop where
  listed : w.root ∈ paths
  directory : s.isDirectory w.root = true
  below : ∀ path ∈ w.walker.pending, s.Walks w.root path
  within : w.ahead s ⊆ s.units w.root

section
variable {env : Conditions} {s : Store} {paths : List String} {r next : Run} {w walk : Walk} {events : List Event}
  {failures : List Failure}

theorem Walk.Rooted.same (rooted : w.Rooted s paths) (walker : walk.walker = w.walker) (root : walk.root = w.root) :
    walk.Rooted s paths where
  listed := root ▸ rooted.listed
  directory := root ▸ rooted.directory
  below := walker ▸ root ▸ rooted.below
  within := by
    have ahead : walk.ahead s = w.ahead s := by simp only [Walk.ahead, walker, root]
    rw [ahead, root]
    exact rooted.within

theorem WalkerMove.root (move : WalkerMove env r w events failures walk) : walk.root = w.root := by
  cases move <;> rfl

theorem WorkerMove.root {i : Nat} {worker : Worker} (move : WorkerMove env w i worker events failures walk) :
    walk.root = w.root := by
  cases move <;> rfl

theorem WalkerMove.below (move : WalkerMove env r w events failures walk) (unique : s.Unique)
    (shape : r.store.blank = s.blank) (rooted : w.Rooted s paths) :
    ∀ path ∈ walk.walker.pending, s.Walks walk.root path := by
  rw [move.root]
  have below := rooted.below
  cases move with
  | begins here opened => exact List.forall_mem_singleton.mpr ⟨by simpa using opened, .root⟩
  | @lists path pending listing here listed =>
    rw [Store.listShape shape] at listed
    rw [here] at below
    obtain ⟨opened, entered⟩ := below path List.mem_cons_self
    refine List.forall_mem_append.mpr ⟨fun inner mem => ?_, fun other mem => below other (List.mem_cons_of_mem _ mem)⟩
    exact ⟨opened, Store.innerEntered unique entered (Faults.guardedOk listed).2 mem⟩
  | missesListing here =>
    rw [here] at below
    exact fun path mem => below path (List.mem_cons_of_mem _ mem)
  | _ => simp_all [Walk.goTo, Walk.leave, Walker.pending]

theorem WalkerMove.rooted (move : WalkerMove env r w events failures walk) (wellFormed : s.WellFormed)
    (shape : r.store.blank = s.blank) (goes : r.stops w = false) (unstopped : ∀ event ∈ events, event.stops = false)
    (rooted : w.Rooted s paths) : walk.Rooted s paths where
  listed := move.root ▸ rooted.listed
  directory := move.root ▸ rooted.directory
  below := move.below wellFormed.unique shape rooted
  within := by
    rw [move.root]
    have ahead := move.ahead wellFormed shape goes unstopped
    exact fun path mem => rooted.within (ahead ▸ List.mem_append_right _ mem)

theorem Moves.rooted (moves : Moves env r events next) (wellFormed : s.WellFormed) (shape : r.store.blank = s.blank)
    (calm : r.Calm) (within : r.main.paths ⊆ paths) (unstopped : ∀ event ∈ events, event.stops = false)
    (rooted : ∀ w, r.walk = some w → w.Rooted s paths) : ∀ w, next.walk = some w → w.Rooted s paths := by
  intro walk there
  cases moves with
  | cancels => exact rooted walk there
  | @walker w _ _ _ _ here move =>
    cases there
    have goes : r.stops w = false := by rw [Run.stops, calm.going, calm.walking _ here]; rfl
    exact move.rooted wellFormed shape goes unstopped (rooted _ here)
  | worker here employed move =>
    cases there
    exact (rooted _ here).same move.walker move.root
  | main move =>
    obtain ⟨begun, rest, here, found⟩ | ⟨w, here, walker, root⟩ := move.walker there
    · have directory := lookUpDirectory found
      rw [Store.isDirectoryShape shape] at directory
      refine ⟨within (by simp [here, Main.paths]), directory, by simp [begun, Walker.pending], ?_⟩
      simp [Walk.ahead, begun, Store.units, directory]
    · exact (rooted w here).same walker root

theorem unbroken (ofUnits : env.faults.OfUnits) (walker : Walker) : ¬ walker.Breakable env r := by
  intro breakable
  cases breakable with
  | list failed =>
    have fault := Faults.guardedUnexpected failed
    rw [ofUnits.walks (.inl rfl)] at fault
    cases fault
  | choose fault =>
    rw [ofUnits.walks (.inr (.inl rfl))] at fault
    cases fault
  | read failed other =>
    obtain ⟨f, rfl⟩ := readFailure ofUnits.contained.caught failed
    exact other f rfl
  | start fault =>
    rw [ofUnits.walks (.inr (.inr rfl))] at fault
    cases fault

theorem Moves.unstopped (moves : Moves env r events next) (ofUnits : env.faults.OfUnits) (shape : r.store.blank = s.blank)
    (opens : ∀ path ∈ paths, s.Opens path) (rooted : ∀ w, r.walk = some w → w.Rooted s paths)
    (going : next.canceled = false) (unescaped : ¬ next.Escaped) : ∀ event ∈ events, event.stops = false := by
  intro event mem
  have presumes := moves.presumes event mem
  cases event with
  | canceled =>
    rw [moves.canceling mem] at going
    cases going
  | escaped trouble => exact absurd (moves.escaping mem) unescaped
  | checked asked => exact (show asked = r.canceled from presumes).trans (moves.going going)
  | unhanded path f => exact absurd (ofUnits.walks (.inr (.inr rfl)) path) presumes
  | broken f =>
    obtain ⟨w, -, breakable⟩ := presumes
    exact absurd breakable (unbroken ofUnits _)
  | unlisted path f =>
    obtain ⟨w, pending, errno, here, there, failed⟩ := presumes
    have rooted := rooted w here
    obtain ⟨listing, listed⟩ := opens _ rooted.listed rooted.directory path
      (rooted.below path (by simp [there, Walker.pending]))
    rw [Faults.guarded, ofUnits.walks (.inl rfl), Store.listShape shape, listed] at failed
    cases failed
  | _ => rfl

end

section
variable {env : Conditions} {store : Store} {paths : List String} {h : History} {r : Run}

theorem Trace.unstopped (trace : Trace env (Run.begin store paths false) h r) (wellFormed : store.WellFormed)
    (ofUnits : env.faults.OfUnits) (plain : ∀ path ∈ paths, Path.hasNull path = false)
    (opens : ∀ path ∈ paths, store.Opens path) (going : r.canceled = false) :
    h.Unstopped ∧ ∀ w, r.walk = some w → w.Rooted store paths := by
  induction trace with
  | start => exact ⟨fun entry mem => absurd mem List.not_mem_nil, by simp [Run.begin]⟩
  | @move h r next move before made ih =>
    have moves := stepMoves made
    obtain ⟨unstopped, rooted⟩ := ih (moves.going going)
    have contained := ofUnits.contained
    have shape := before.keepsShape contained wellFormed plain
    have unescaped := ((before.move move made).contained contained wellFormed plain).1
    have now := moves.unstopped ofUnits shape opens rooted going unescaped
    refine ⟨fun entry mem => ?_, ?_⟩
    · obtain old | new := List.mem_append.mp mem
      · exact unstopped entry old
      · obtain ⟨event, inside, rfl⟩ := List.mem_map.mp new
        exact now event inside
    · have calm := (before.surveyed wellFormed (.inl contained.removes) unstopped).calm
      exact moves.rooted wellFormed shape calm (before.contained contained wellFormed plain).2 now rooted

end

namespace Conditions

def missing (env : Conditions) (s : Store) (path : String) : Option Failure :=
  match (Run.begin s [] false).lookUp env path with
  | .error (.failure f) => some f
  | _ => none

/-- What a run over a list finds a file of a store to be: it looks up what is on the list itself. -/
def faceOf (env : Conditions) (s : Store) (paths : List String) (path : String) : Except Failure Bytes :=
  match if path ∈ paths then env.missing s path else none with
  | some f => .error f
  | none => env.lookOf s path

end Conditions

section
variable {env : Conditions} {s : Store} {paths : List String} {r next : Run} {events : List Event}

theorem lookUpShape (shape : r.store.blank = s.blank) (path : String) :
    r.lookUp env path = (Run.begin s [] false).lookUp env path := by
  have there : (r.store.stat path).map Item.blank = (s.stat path).map Item.blank := by
    rw [← Store.blankStat, shape, Store.blankStat]
  simp only [Run.lookUp, Run.begin, Store.isDirectoryShape shape path]
  cases now : r.store.stat path <;> cases first : s.stat path <;> rw [now, first] at there <;>
    first | rfl | (cases there <;> rfl)

theorem Moves.inspected (moves : Moves env r events next) (shape : r.store.blank = s.blank)
    (inspected : ∀ path rest, r.main = .read path rest → env.missing s path = none) :
    ∀ path rest, next.main = .read path rest → env.missing s path = none := by
  intro path rest there
  cases moves with
  | cancels | walker | worker => exact inspected path rest there
  | main move =>
    cases move with
    | finishes here =>
      obtain ⟨log, finish⟩ := finishIs r
      rw [finish] at there
      cases there
    | looks here found =>
      cases there
      rw [lookUpShape shape] at found
      simp only [Conditions.missing, found]
    | applies here accepts => cases accepts <;> cases there
    | receives here walk first accepts => cases accepts <;> cases there
    | notes here => cases here.symm.trans there
    | _ => cases there

end

section
variable {env : Conditions} {store : Store} {paths : List String} {h : History} {r : Run}

theorem Trace.inspected (trace : Trace env (Run.begin store paths false) h r) (contained : env.faults.Contained)
    (wellFormed : store.WellFormed) (plain : ∀ path ∈ paths, Path.hasNull path = false) :
    ∀ path rest, r.main = .read path rest → env.missing store path = none := by
  induction trace with
  | start => exact fun path rest there => by cases there
  | move move before made ih => exact (stepMoves made).inspected (before.keepsShape contained wellFormed plain) ih

theorem Trace.lookedUp {next : Run} {events : List Event} (trace : Trace env (Run.begin store paths false) h r)
    (moves : Moves env r events next) (wellFormed : store.WellFormed) (ofUnits : env.faults.OfUnits)
    (plain : ∀ path ∈ paths, Path.hasNull path = false) (opens : ∀ path ∈ paths, store.Opens path)
    (apart : (paths.flatMap store.units).Pairwise store.Apart) (going : r.canceled = false) {event : Event}
    (mem : event ∈ events) {path : String} {found : Except Failure Bytes} (look : event.look? = some (path, found)) : (if path ∈ paths then env.missing store path else none) = none := by
  have listed {rest : List String} (here : r.main = .read path rest) :
      (if path ∈ paths then env.missing store path else none) = none := by
    rw [trace.inspected ofUnits.contained wellFormed plain path rest here, ite_self]
  -- A walk does not look its files up, but none of them is on the list itself.
  have selected {w : Walk} (here : r.walk = some w) (ahead : path ∈ w.ahead store) :
      (if path ∈ paths then env.missing store path else none) = none := by
    have rooted := (trace.unstopped wellFormed ofUnits plain opens going).2 w here
    exact if_neg (Store.selectedAside apart rooted.listed rooted.directory (rooted.within ahead))
  have presumes := moves.presumes event mem
  cases event with
  | handed =>
    cases look
    obtain ⟨w, files, pending, here, there⟩ := presumes
    exact selected here (by simp [Walk.ahead, there])
  | kept =>
    cases look
    obtain ⟨rest, here⟩ := presumes
    exact listed here
  | unread =>
    cases look
    obtain ⟨rest, here⟩ | ⟨w, files, pending, here, there⟩ := presumes
    · exact listed here
    · exact selected here (by simp [Walk.ahead, there])
  | _ => cases look

theorem Trace.foundFirst (trace : Trace env (Run.begin store paths false) h r) (wellFormed : store.WellFormed)
    (ofUnits : env.faults.OfUnits) (plain : ∀ path ∈ paths, Path.hasNull path = false)
    (opens : ∀ path ∈ paths, store.Opens path) (apart : (paths.flatMap store.units).Pairwise store.Apart)
    (going : r.canceled = false) :
    ∀ entry ∈ h, ∀ path found, entry.2.face? = some (path, found) → found = env.faceOf store paths path := by
  induction trace with
  | start => exact fun entry mem => absurd mem List.not_mem_nil
  | @move h r next move before made ih =>
    have moves := stepMoves made
    have contained := ofUnits.contained
    have whole := before.move move made
    intro entry mem path found face
    obtain old | new := List.mem_append.mp mem
    · exact ih (moves.going going) entry old path found face
    · obtain ⟨event, inside, rfl⟩ := List.mem_map.mp new
      have looks (look : event.look? = some (path, found)) : found = env.faceOf store paths path := by
        have unstopped := (whole.unstopped wellFormed ofUnits plain opens going).1
        have first := whole.looksFirst wellFormed contained.removes unstopped (.inr (Store.foremost apart path)) mem look
        rw [Conditions.faceOf, before.lookedUp moves wellFormed ofUnits plain opens apart (moves.going going) inside look]
        exact first
      cases event with
      | missing path f =>
        cases face
        obtain ⟨rest, here, failed⟩ := moves.presumes _ inside
        have listed : path ∈ paths := (before.contained contained wellFormed plain).2 (by simp [here, Main.paths])
        rw [lookUpShape (before.keepsShape contained wellFormed plain)] at failed
        simp only [Conditions.faceOf, if_pos listed, Conditions.missing, failed]
      | _ => exact looks face

/-- Where only single units fail, a run that was not asked to stop comes to what the files of its list come to. -/
theorem Trace.unitsDetermined (trace : Trace env (Run.begin store paths false) h r) (wellFormed : store.WellFormed)
    (ofUnits : env.faults.OfUnits) (plain : ∀ path ∈ paths, Path.hasNull path = false)
    (opens : ∀ path ∈ paths, store.Opens path) (apart : (paths.flatMap store.units).Pairwise store.Apart)
    (checked : r.Checked) (going : r.canceled = false) :
    Determined env store (env.faceOf store paths) (paths.flatMap store.units) h r := by
  have unstopped := (trace.unstopped wellFormed ofUnits plain opens going).1
  refine trace.determined wellFormed ofUnits.contained.removes unstopped checked ?_
  rintro ⟨path, found⟩ mem
  obtain ⟨entry, inside, face⟩ := List.mem_filterMap.mp mem
  exact trace.foundFirst wellFormed ofUnits plain opens apart going entry inside path found face

/-- Where nothing fails of any file, the run returns. -/
theorem Trace.fine (trace : Trace env (Run.begin store paths false) h r) (wellFormed : store.WellFormed)
    (ofUnits : env.faults.OfUnits) (plain : ∀ path ∈ paths, Path.hasNull path = false)
    (opens : ∀ path ∈ paths, store.Opens path) (apart : (paths.flatMap store.units).Pairwise store.Apart)
    (checked : r.Checked) (going : r.canceled = false)
    (fine : ∀ unit ∈ paths.flatMap store.units, env.failuresFor store unit (env.faceOf store paths unit) = []) :
    r.failures = [] ∧ r.main = .ended (.ok ()) := by
  have failures := (trace.unitsDetermined wellFormed ofUnits plain opens apart checked going).failures
  rw [List.flatMap_eq_nil_iff.mpr fine] at failures
  have none := failures.eq_nil
  exact ⟨none, checked.ended.trans (by rw [none]; rfl)⟩

end
end Batch
end ExitSpacing
