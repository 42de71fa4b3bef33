import ExitSpacing.Proofs.Entries
import Mathlib.Data.List.Induction

/-! Where a path leads. Following components link by link and resolving the real place of a
path come to the same location whenever the path can be followed at all: a link met again
while it is being resolved would make the way endless. -/
namespace ExitSpacing.Store

/-- Where the text of a link is taken from. -/
def restart (target : String) (here : Location) : Location := if Path.isAbsolute target then [] else here

/-- From `here`, these components lead to a location through so many links. -/
inductive Leads (s : Store) : Location → List String → Location → Nat → Prop where
  | done {here} : Leads s here [] here 0
  | turns {here c rest there links} (turn : Path.isTurn c = true) (leave : s.allow here c = .ok ())
      (goes : Leads s (descend here c) rest there links) : Leads s here (c :: rest) there links
  | enters {here c rest item there links} (name : Path.isTurn c = false) (held : s.entry here c = .ok item)
      (unlinked : item.isLink = false) (goes : Leads s (here ++ [c]) rest there links) :
      Leads s here (c :: rest) there links
  | crosses {here c rest target middle there inner links} (name : Path.isTurn c = false)
      (held : s.entry here c = .ok (.link target))
      (resolves : Leads s (restart target here) (Path.split target) middle inner)
      (goes : Leads s middle rest there links) : Leads s here (c :: rest) there (inner + 1 + links)

section
variable {s : Store}

theorem leadsOfFollow (links : Nat) (here : Location) (a b : List String) {there : Location}
    (ok : s.follow links here (a ++ b) = .ok there) :
    ∃ middle n, n ≤ links ∧ Leads s here a middle n ∧ s.follow (links - n) middle b = .ok there := by
  cases a with
  | nil => exact ⟨here, 0, Nat.zero_le _, .done, ok⟩
  | cons c a =>
    rw [List.cons_append, follow] at ok
    split at ok
    · rename_i turn
      split at ok
      · cases ok
      rename_i leave
      obtain ⟨middle, n, within, leads, onward⟩ := leadsOfFollow links (descend here c) a b ok
      exact ⟨middle, n, within, .turns turn leave leads, onward⟩
    rename_i name
    have name : Path.isTurn c = false := by simpa using name
    split at ok
    · cases ok
    · rename_i target held
      split at ok
      · cases ok
      · rename_i links
        -- A link's text is followed with all that is still to come behind it: cut it off there first.
        obtain ⟨middle, m, withinM, resolves, onward⟩ :=
          leadsOfFollow links (restart target here) (Path.split target) (a ++ b) ok
        obtain ⟨there, n, withinN, leads, onward⟩ := leadsOfFollow (links - m) middle a b onward
        refine ⟨there, m + 1 + n, by omega, .crosses name held resolves leads, ?_⟩
        rw [← onward]
        congr 1
        omega
    · rename_i item other held
      obtain ⟨middle, n, within, leads, onward⟩ := leadsOfFollow links (here ++ [c]) a b ok
      refine ⟨middle, n, within, .enters name held ?_ leads, onward⟩
      cases item with
      | link target => exact absurd rfl (other target)
      | file | directory => rfl
termination_by (links, (a ++ b).length)

theorem Leads.unique {here there other : Location} {components : List String} {m n : Nat}
    (one : Leads s here components there m) (two : Leads s here components other n) : there = other ∧ m = n := by
  induction one generalizing other n with
  | done => cases two; exact ⟨rfl, rfl⟩
  | turns turn leave goes ih =>
    cases two with
    | turns _ _ again => exact ih again
    | enters name | crosses name => rw [turn] at name; cases name
  | enters name held unlinked goes ih =>
    cases two with
    | turns turn => rw [name] at turn; cases turn
    | enters _ _ _ again => exact ih again
    | crosses _ linked =>
      cases held.symm.trans linked
      cases unlinked
  | crosses name held resolves goes ihResolves ih =>
    cases two with
    | turns turn => rw [name] at turn; cases turn
    | enters _ linked unlinked =>
      cases held.symm.trans linked
      cases unlinked
    | crosses _ linked resolves' again =>
      cases held.symm.trans linked
      obtain ⟨rfl, rfl⟩ := ihResolves resolves'
      obtain ⟨rfl, rfl⟩ := ih again
      exact ⟨rfl, rfl⟩

def Resolves (s : Store) (link found : Location) (links : Nat) : Prop :=
  ∃ here c target, link = here ++ [c] ∧ s.entry here c = .ok (.link target) ∧
    Leads s (restart target here) (Path.split target) found links

theorem Resolves.unique {link one two : Location} {m n : Nat} (first : s.Resolves link one m)
    (second : s.Resolves link two n) : one = two ∧ m = n := by
  obtain ⟨here, c, target, rfl, held, leads⟩ := first
  obtain ⟨here', c', target', same, again, leads'⟩ := second
  obtain ⟨rfl, last⟩ := List.append_inj' same rfl
  cases last
  cases held.symm.trans again
  exact leads.unique leads'

/-- A way leads to a location by name alone: up from the working directory, then down. -/
inductive Stands (s : Store) : Way → Location → Prop where
  | start (rooted : Bool) : Stands s { rooted } (Way.origin s { rooted })
  | up {way here} (stands : Stands s way here) (relative : way.rooted = false)
      (bare : ∀ name ∈ way.names, name = "..") : Stands s (way.enter "..") here.dropLast
  | down {way here c item} (stands : Stands s way here) (name : Path.isTurn c = false)
      (held : s.entry here c = .ok item) (unlinked : item.isLink = false) : Stands s (way.enter c) (here ++ [c])

theorem Stands.above {way : Way} {here : Location} (stands : s.Stands way here) (relative : way.rooted = false)
    (bare : ∀ name ∈ way.names, name = "..") : here <+: s.home.names := by
  induction stands with
  | start =>
    simp only at relative
    simp [Way.origin, relative]
  | up _ _ inner ih => exact (List.dropLast_prefix _).trans (ih relative inner)
  | down _ name =>
    exact absurd (bare _ (List.mem_append_right _ (List.mem_singleton_self _))) (nameNotUp name)

theorem Stands.follow {way : Way} {here : Location} (stands : s.Stands way here) (links : Nat) (rest : List String) :
    s.follow links (way.origin s) (way.names ++ rest) = s.follow links here rest := by
  induction stands generalizing rest with
  | start => rfl
  | up stands relative bare ih =>
    rw [Way.enter, List.append_assoc]
    exact (ih _).trans ((followTurn turnUp (chainAllow (stands.above relative bare) _)).trans (by rw [descendUp]; rfl))
  | down _ name held unlinked ih =>
    rw [Way.enter, List.append_assoc]
    exact (ih _).trans (followEntry name held unlinked)

theorem Stands.location {way : Way} {here : Location} (stands : s.Stands way here) : way.location s = here := by
  induction stands with
  | start => rfl
  | up _ _ _ ih =>
    rw [Way.location, Way.enter, List.foldl_append]
    exact (congrArg (descend · "..") ih).trans (descendUp _)
  | @down _ _ c _ _ name _ _ ih =>
    rw [Way.location, Way.enter, List.foldl_append]
    exact (congrArg (descend · c) ih).trans (descendName name)

theorem Stands.rise {way : Way} {here : Location} (stands : s.Stands way here) : s.Stands way.rise here.dropLast := by
  cases stands with
  | start rooted =>
    cases rooted with
    | true => exact .start true
    | false => exact .up (.start false) rfl (fun _ mem => nomatch mem)
  | up stands relative bare =>
    have bare : ∀ name ∈ (Way.enter ‹Way› "..").names, name = ".." := by
      intro name mem
      obtain mem | mem := List.mem_append.mp mem
      · exact bare name mem
      · exact List.mem_singleton.mp mem
    rw [Way.rise, Way.enter, List.getLast?_concat]
    exact .up (.up stands relative (fun name mem => bare name (List.mem_append_left _ mem))) relative bare
  | @down way _ c _ stands name =>
    have apart : (c == "..") = false := beq_eq_false_iff_ne.mpr (nameNotUp name)
    rw [Way.rise, Way.enter, List.getLast?_concat]
    simpa [apart] using stands

theorem Stands.peek {way : Way} {here : Location} (stands : s.Stands way here) {name : String} {item : Item}
    (held : s.entry here name = .ok item) : s.peek way name = some item := by
  have there := stands.follow 0 []
  rw [List.append_nil, Store.follow] at there
  rw [Store.peek, there]
  simp only [held, Except.toOption]

/-- The links met so far: those that are resolved came to the right place, and those that
are not yet cost at least as many links as the way still ahead. -/
structure Tracks (s : Store) (met : List (Way × Option Way)) (ahead : Nat) : Prop where
  known : ∀ link found, met.lookup link = some (some found) →
    ∃ place n, s.Resolves (link.location s) place n ∧ s.Stands found place
  unresolved : ∀ link, met.lookup link = some none → ∃ place n, s.Resolves (link.location s) place n ∧ ahead ≤ n

theorem Tracks.mono {met : List (Way × Option Way)} {ahead less : Nat} (tracks : s.Tracks met ahead)
    (le : less ≤ ahead) : s.Tracks met less where
  known := tracks.known
  unresolved link here := by
    obtain ⟨found, n, resolves, cost⟩ := tracks.unresolved link here
    exact ⟨found, n, resolves, Nat.le_trans le cost⟩

theorem Tracks.meet {met : List (Way × Option Way)} {ahead n : Nat} {link : Way} {place : Location}
    (tracks : s.Tracks met ahead) (resolves : s.Resolves (link.location s) place n) (costs : n ≤ ahead) :
    s.Tracks ((link, none) :: met) n := by
  refine ⟨fun other found known => ?_, fun other unresolved => ?_⟩
  · rw [List.lookup_cons] at known
    split at known
    · cases known
    · exact tracks.known other found known
  · rw [List.lookup_cons] at unresolved
    split at unresolved
    · rename_i same
      exact ⟨place, n, beq_iff_eq.mp same ▸ resolves, Nat.le_refl _⟩
    · exact (tracks.mono costs).unresolved other unresolved

theorem Tracks.resolve {met before : List (Way × Option Way)} {ahead n : Nat} {link found : Way} {place : Location}
    (tracks : s.Tracks met 0) (resolves : s.Resolves (link.location s) place n) (stands : s.Stands found place)
    (earlier : s.Tracks before ahead)
    (subset : ∀ other, met.lookup other = some none → other = link ∨ before.lookup other = some none) :
    s.Tracks ((link, some found) :: met) ahead := by
  refine ⟨fun other way known => ?_, fun other unresolved => ?_⟩
  · rw [List.lookup_cons] at known
    split at known
    · rename_i same
      cases known
      exact ⟨place, n, beq_iff_eq.mp same ▸ resolves, stands⟩
    · exact tracks.known other way known
  · rw [List.lookup_cons] at unresolved
    split at unresolved
    · cases unresolved
    · rename_i apart
      obtain rfl | old := subset other unresolved
      · simp at apart
      · exact earlier.unresolved other old

theorem Leads.real {here there : Location} {components : List String} {n : Nat}
    (leads : Leads s here components there n) : ∀ way links met rest, s.Stands way here → n ≤ links →
      s.Tracks met n → ∃ way' fewer met',
        s.realFrom links met way (components.map .component ++ rest) = s.realFrom fewer met' way' rest ∧
        s.Stands way' there ∧ links ≤ fewer + n ∧
        (∀ link, met'.lookup link = some none → met.lookup link = some none) ∧ s.Tracks met' 0 := by
  induction leads with
  | done => exact fun _ links met rest stands _ tracks => ⟨_, links, met, rfl, stands, Nat.le_refl _, fun _ => id, tracks⟩
  | @turns here c _ _ _ turn leave goes ih =>
    intro way links met rest stands enough tracks
    have next : s.Stands (if c == ".." then way.rise else way) (descend here c) := by
      rw [descendTurn turn]
      split
      · exact stands.rise
      · exact stands
    obtain ⟨way', fewer, met', real, found⟩ := ih _ links met rest next enough tracks
    refine ⟨way', fewer, met', ?_, found⟩
    rw [← real, List.map_cons, List.cons_append, realFrom, if_pos turn]
  | @enters here c _ item _ _ name held unlinked goes ih =>
    intro way links met rest stands enough tracks
    obtain ⟨way', fewer, met', real, found⟩ := ih _ links met rest (.down stands name held unlinked) enough tracks
    refine ⟨way', fewer, met', ?_, found⟩
    rw [← real, List.map_cons, List.cons_append, realFrom, if_neg (by simp [name]), stands.peek held]
    cases item with
    | link => cases unlinked
    | file | directory => rfl
  | @crosses here c tail target middle there inner _ name held resolves goes ihResolves ih =>
    intro way links met rest stands enough tracks
    have lies : (way.enter c).location s = here ++ [c] := by
      rw [Way.location, Way.enter, List.foldl_append]
      exact (congrArg (descend · c) stands.location).trans (descendName name)
    have resolved : s.Resolves ((way.enter c).location s) middle inner := ⟨here, c, target, lies, held, resolves⟩
    rw [List.map_cons, List.cons_append, realFrom, if_neg (by simp [name]), stands.peek held]
    simp only
    split
    · rename_i known
      -- Resolved before: it came to the same place.
      obtain ⟨place, m, again, stands⟩ := tracks.known _ _ known
      obtain ⟨rfl, -⟩ := resolved.unique again
      obtain ⟨way', fewer, met', real, there, room, found⟩ := ih _ links met rest stands (by omega) (tracks.mono (by omega))
      exact ⟨way', fewer, met', real, there, by omega, found⟩
    · rename_i looping
      -- Met while it is being resolved: the way still ahead would be longer than itself.
      obtain ⟨_, m, again, cost⟩ := tracks.unresolved _ looping
      obtain ⟨-, rfl⟩ := resolved.unique again
      omega
    · rename_i fresh
      -- New: its text is resolved up to the mark behind it, and then the rest from where that led.
      obtain ⟨links, rfl⟩ : ∃ fewer, links = fewer + 1 := ⟨links - 1, by omega⟩
      have begins : s.Stands (if Path.isAbsolute target then { rooted := true } else way) (restart target here) := by
        unfold restart
        split
        · exact .start true
        · exact stands
      obtain ⟨way₂, fewer₂, met₂, real, stands₂, room₂, subset, tracks₂⟩ := ihResolves _ links ((way.enter c, none) :: met)
        (.resolved (way.enter c) :: (tail.map .component ++ rest)) begins (by omega) (tracks.meet resolved (by omega))
      have open₂ (link : Way) (unresolved : met₂.lookup link = some none) :
          link = way.enter c ∨ met.lookup link = some none := by
        have old := subset link unresolved
        rw [List.lookup_cons] at old
        split at old
        · rename_i same
          exact .inl (beq_iff_eq.mp same)
        · exact .inr old
      obtain ⟨way₃, fewer₃, met₃, real₃, stands₃, room₃, subset₃, tracks₃⟩ :=
        ih _ fewer₂ _ rest stands₂ (by omega) (tracks₂.resolve resolved stands₂ (tracks.mono (by omega)) open₂)
      refine ⟨way₃, fewer₃, met₃, ?_, stands₃, by omega, fun link unresolved => ?_, tracks₃⟩
      · rw [← real₃]
        exact real.trans (by rw [realFrom])
      · have old := subset₃ link unresolved
        rw [List.lookup_cons] at old
        split at old
        · cases old
        · rename_i apart
          obtain rfl | older := open₂ link old
          · simp at apart
          · exact older

inductive Real (s : Store) : Location → Prop where
  | root : Real s []
  | inside {here c item} (real : Real s here) (name : Path.isTurn c = false) (held : s.entry here c = .ok item)
      (unlinked : item.isLink = false) : Real s (here ++ [c])

theorem Real.above {here : Location} (real : s.Real here) : s.Real here.dropLast := by
  cases real with
  | root => exact .root
  | inside real =>
    rw [List.dropLast_concat]
    exact real

theorem Real.found {here : Location} (real : s.Real here) : ∃ item, s.find? here = some item ∧ item.isLink = false := by
  cases real with
  | root => exact ⟨_, findRoot s, rfl⟩
  | inside _ _ held unlinked => exact ⟨_, (entryOk held).2.2, unlinked⟩

theorem chainReal {here : Location} (above : here <+: s.home.names) : s.Real here := by
  induction here using List.reverseRecOn with
  | nil => exact .root
  | append_singleton here name ih =>
    obtain ⟨entryName, held⟩ := chainEntry above
    exact .inside (ih ((List.prefix_append ..).trans above)) entryName held rfl

theorem originReal (s : Store) (path : String) : s.Real (s.origin path) := by
  unfold origin
  split
  · exact .root
  · exact chainReal (List.prefix_refl _)

theorem Leads.ends {here there : Location} {components : List String} {n : Nat}
    (leads : Leads s here components there n) (real : s.Real here) : s.Real there := by
  induction leads with
  | done => exact real
  | @turns _ c _ _ _ turn _ _ ih =>
    refine ih ?_
    rw [descendTurn turn]
    split
    · exact real.above
    · exact real
  | enters name held unlinked _ ih => exact ih (.inside real name held unlinked)
  | crosses _ _ _ _ ihResolves ih =>
    refine ih (ihResolves ?_)
    unfold restart
    split
    · exact .root
    · exact real

theorem Real.follow {here : Location} (real : s.Real here) (links : Nat) (rest : List String) :
    s.follow links [] (here ++ rest) = s.follow links here rest := by
  induction real generalizing rest with
  | root => rfl
  | inside _ name held unlinked ih =>
    rw [List.append_assoc, ih]
    exact followEntry name held unlinked

theorem locateLeads {path : String} {there : Location} (ok : s.locate path = .ok there) :
    ∃ n ≤ linkLimit, s.Leads (s.origin path) (Path.split path) there n := by
  unfold locate at ok
  split at ok
  · cases ok
  · split at ok
    · cases ok
    · rw [← List.append_nil (Path.split path)] at ok
      obtain ⟨middle, n, within, leads, last⟩ := leadsOfFollow linkLimit (s.origin path) (Path.split path) [] ok
      rw [Store.follow] at last
      cases last
      exact ⟨n, within, leads⟩

theorem locateReal {path : String} {there : Location} (ok : s.locate path = .ok there) : s.Real there := by
  obtain ⟨n, -, leads⟩ := locateLeads ok
  exact leads.ends (originReal s path)

theorem realPathLocated {path : String} {there : Location} (ok : s.locate path = .ok there) :
    s.realPath path = there := by
  obtain ⟨n, within, leads⟩ := locateLeads ok
  have enough : n ≤ ((s.items.countP fun entry => entry.2.isLink) + 1) * pathLimit := by
    have few : linkLimit ≤ pathLimit := by decide
    have all : pathLimit ≤ ((s.items.countP fun entry => entry.2.isLink) + 1) * pathLimit :=
      Nat.le_mul_of_pos_left _ (Nat.succ_pos _)
    omega
  obtain ⟨way, fewer, met, real, stands, -⟩ :=
    leads.real { rooted := Path.isAbsolute path } _ [] [] (.start _) enough ⟨by simp, by simp⟩
  rw [List.append_nil] at real
  rw [realPath, real, realFrom, stands.location]

theorem Real.reach {here : Location} (real : s.Real here) : s.reach here = .ok here := by
  have followed := real.follow linkLimit []
  rw [List.append_nil, Store.follow] at followed
  exact followed

theorem Real.place {here : Location} (real : s.Real here) : s.placeOf here = here := by
  have above := real.above.reach
  cases last : here.getLast? with
  | none => simp only [placeOf, above, last]
  | some name =>
    obtain ⟨front, rfl⟩ := List.getLast?_eq_some_iff.mp last
    rw [List.dropLast_concat] at above
    simp only [placeOf, List.dropLast_concat, List.getLast?_concat, above]

theorem followFront (links : Nat) (here : Location) (a b : List String) {there : Location}
    (ok : s.follow links here (a ++ b) = .ok there) :
    ∃ middle fewer, s.follow links here a = .ok middle ∧ s.follow fewer middle b = .ok there := by
  cases a with
  | nil => exact ⟨here, links, by rw [follow], ok⟩
  | cons c a =>
    rw [List.cons_append, follow] at ok
    rw [follow]
    split at ok
    · rename_i turn
      split at ok
      · cases ok
      rename_i leave
      simp only [if_pos turn]
      exact followFront links (descend here c) a b ok
    rename_i name
    split at ok
    · cases ok
    · rename_i target held
      simp only [if_neg name]
      split at ok
      · cases ok
      · rename_i links
        rw [← List.append_assoc] at ok
        exact followFront links (restart target here) (Path.split target ++ a) b ok
    · rename_i item other held
      simp only [if_neg name]
      cases item with
      | link target => exact absurd rfl (other target)
      | file | directory => exact followFront links (here ++ [c]) a b ok
termination_by (links, (a ++ b).length)

def Named (location : Location) : Prop := ∀ c ∈ location, Path.isTurn c = false

theorem originNamed (s : Store) (rooted : Bool) : Named (if rooted then [] else s.home.names) := by
  split
  · exact List.forall_mem_nil _
  · exact fun c mem => (entryName (s.home.entries c mem)).1

theorem Named.descend {here : Location} (named : Named here) (c : String) : Named (descend here c) := by
  unfold Store.descend
  split
  · rename_i name
    intro other mem
    obtain mem | mem := List.mem_append.mp mem
    · exact named other mem
    · rw [List.mem_singleton.mp mem]
      simpa using name
  · split
    · exact fun other mem => named other (List.dropLast_subset _ mem)
    · exact named

theorem Way.named (s : Store) (way : Way) : Named (way.location s) :=
  List.foldlRecOn way.names descend (originNamed s way.rooted) fun _ named c _ => named.descend c

theorem Named.base {here : Location} (named : Named here) (pending : List Pending) : Named (base here pending) := by
  unfold Store.base
  split
  · exact List.forall_mem_nil _
  · exact named

theorem Named.unresolved {here : Location} (named : Named here) (pending : List Pending) :
    Named (unresolved here pending) := by
  induction pending generalizing here with
  | nil => exact named
  | cons first rest ih =>
    cases first with
    | component c => exact ih (named.descend c)
    | resolved => exact ih (named.base rest)

theorem realFromNamed (s : Store) (links : Nat) (met : List (Way × Option Way)) (here : Way) (pending : List Pending) :
    Named (s.realFrom links met here pending) := by
  fun_induction s.realFrom links met here pending with
  | case1 => exact Way.named s _
  | case5 _ _ _ _ rest | case6 _ _ _ rest => exact ((Way.named s _).base rest).unresolved rest
  | _ => assumption

theorem realPathNamed (path : String) : Named (s.realPath path) := realFromNamed s _ _ _ _

theorem reachPlace {target there : Location} (named : Named target) (ok : s.reach target = .ok there)
    (unlinked : ∀ text, s.find? (s.placeOf target) ≠ some (.link text)) : s.placeOf target = there := by
  unfold reach at ok
  cases last : target.getLast? with
  | none =>
    rw [List.getLast?_eq_none_iff] at last
    subst last
    rw [follow] at ok
    cases ok
    simp [placeOf]
  | some name =>
    obtain ⟨front, rfl⟩ := List.getLast?_eq_some_iff.mp last
    -- What is in front of the last name is followed first; the last name is no link, so it stays there.
    obtain ⟨middle, fewer, ahead, step⟩ := followFront linkLimit [] front [name] ok
    have place : s.placeOf (front ++ [name]) = middle ++ [name] := by
      simp only [placeOf, List.dropLast_concat, List.getLast?_concat, reach, ahead]
    rw [place] at unlinked ⊢
    have entered := named name (List.mem_append_right _ (List.mem_singleton_self _))
    rw [follow, if_neg (by simp [entered])] at step
    split at step
    · cases step
    · rename_i text held
      exact absurd (entryOk held).2.2 (unlinked text)
    · rw [follow] at step
      exact Except.ok.inj step

end
end ExitSpacing.Store
