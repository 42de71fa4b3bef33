import ExitSpacing.Proofs.Writing

/-! Writing in place is all or nothing. Whichever of its calls fail with a system error, the
target holds at every moment all of its old bytes or all of the new ones, in its own mode, and
whatever else there was stays. The one way out of this is a real path that still ends in a link:
behind a loop of links no link is resolved, and then the link itself gives way. -/
namespace ExitSpacing.InPlace

structure Halfway (s : Store) (place : Location) (content : Bytes) (t : Store) : Prop where
  held : ∀ location item, s.find? location = some item → t.find? location = some item ∨
    location = place ∧ ∃ mode old, item = .file mode old ∧ t.find? location = some (.file mode content)
  added : ∃ temp, ∀ location, location ≠ temp → s.find? location = none → t.find? location = none

section
variable {s : Store} {place temp : Location} {content : Bytes}

theorem Halfway.untouched : Halfway s place content s where
  held _ _ held := .inl held
  added := ⟨[], fun _ _ gone => gone⟩

theorem Halfway.temporary (free : s.Free temp) (added : Item) : Halfway s place content (s.put temp added) where
  held _ _ held := .inl (putKeeps free added held)
  added := by
    refine ⟨temp, fun location apart gone => ?_⟩
    rw [Store.findPut _ free.aside, if_neg apart, gone]

theorem Halfway.replaced {mode : Nat} {old : Bytes} (there : s.find? place = some (.file mode old)) :
    Halfway s place content (s.rewrite place content) where
  held location item held := by
    by_cases here : location = place
    · rw [here, there] at held
      cases held
      exact .inr ⟨here, mode, old, rfl, by rw [here, Store.rewriteThere, there]; rfl⟩
    · exact .inl (by rw [Store.rewriteFind s content here, held])
  added := by
    refine ⟨[], fun location _ gone => ?_⟩
    have apart : location ≠ place := by
      rintro rfl
      rw [there] at gone
      cases gone
    rw [Store.rewriteFind s content apart, gone]

def Reported (faults : Faults) : Prop := ∀ fault ∈ faults, ∃ errno, fault.effect = .system errno

theorem Reported.expected {faults : Faults} (reported : Reported faults) (call : Call) (path message : String) :
    faults.find? call path ≠ some (.unexpected message) := by
  intro found
  obtain ⟨fault, mem, -, effect⟩ := Faults.foundFault found
  obtain ⟨errno, system⟩ := reported fault mem
  rw [system] at effect
  cases effect

namespace Write

variable {target : Location} {faults : Faults} {w : Write}

theorem Within.halfway (within : w.Within s target place content faults) : Halfway s place content w.store := by
  by_cases going : ∀ result, w.stage ≠ .finished result
  · obtain same | ⟨item, store⟩ := within.going going
    · rw [same]; exact .untouched
    · rw [store]; exact .temporary (tempFree s place) item
  · obtain ⟨result, here⟩ := not_forall_not.mp going
    have state := within.state
    rw [here] at state
    match result with
    | .ok () =>
      obtain ⟨mode, old, there, store⟩ := state
      rw [store]
      exact .replaced there
    | .error trouble =>
      obtain same | ⟨⟨item, store⟩, -⟩ := state
      · rw [same]; exact .untouched
      · rw [store]; exact .temporary (tempFree s place) item

theorem seenPlace {path : String} (unlinked : ∀ text, s.find? (s.placeOf (s.realPath path)) ≠ some (.link text))
    (there : Location) (item : Item) (reached : s.reach (s.realPath path) = .ok there)
    (found : s.find? there = some item) :
    s.find? (s.placeOf (s.realPath path)) = some item ∧ item.isLink = false := by
  have same := Store.reachPlace (Store.realPathNamed path) reached unlinked
  rw [same] at unlinked ⊢
  refine ⟨found, ?_⟩
  cases item with
  | link text => exact absurd found (unlinked text)
  | file | directory => rfl

theorem placeLocated {path : String} {there : Location} (located : s.locate path = .ok there) :
    s.placeOf (s.realPath path) = there := by
  rw [Store.realPathLocated located, (Store.locateReal located).place]

theorem afterSucc (faults : Faults) (w : Write) (n : Nat) : w.after faults (n + 1) = (w.after faults n).step faults := by
  simp only [after, List.range_succ, List.foldl_append, List.foldl_cons, List.foldl_nil]

structure Bare (s : Store) (w : Write) : Prop where
  kept : w.store = s
  early : match w.stage with
    | .start | .checked _ | .finished _ => True
    | _ => False

theorem Bare.advance {next : Write} (bare : Bare s w) (move : Advance faults w next)
    (unmade : ∀ mode temp, next.stage ≠ .created mode temp) : Bare s next := by
  obtain ⟨kept, early⟩ := bare
  cases move with
  | checks | refuses | escapes => exact ⟨kept, trivial⟩
  | creates => exact absurd rfl (unmade _ _)
  | rests => exact ⟨kept, early⟩
  | fills here | modes here | replaces here | withdraws here | gives here | sticks here =>
    rw [here] at early
    exact early.elim
  | falters here =>
    obtain ⟨_, here⟩ | ⟨_, here⟩ | here := here <;> rw [here] at early <;> exact early.elim

theorem bareAfter {path : String} (unmade : ∀ n mode temp, ((begin s path content).after faults n).stage ≠ .created mode temp)
    (n : Nat) : Bare s ((begin s path content).after faults n) := by
  induction n with
  | zero =>
    refine ⟨rfl, ?_⟩
    cases plain : Path.hasNull path <;> simp [after, begin, plain]
  | succ n ih =>
    have next := unmade (n + 1)
    rw [afterSucc] at next ⊢
    exact ih.advance (advance faults _) next

/-- Where the real path of a path does not end in a link, a write is all or nothing. -/
theorem allOrNothing (unique : s.Unique) (reported : Reported faults) {path : String}
    (unlinked : ∀ text, s.find? (s.placeOf (s.realPath path)) ≠ some (.link text)) (content : Bytes) :
    let place := s.placeOf (s.realPath path)
    let w := (begin s path content).run faults
    (∀ there, s.locate path = .ok there → place = there) ∧
    (∀ n, Halfway s place content ((begin s path content).after faults n).store) ∧
    (∃ result, w.stage = .finished result) ∧
    (w.result = .ok () → (∃ mode old, s.find? place = some (.file mode old) ∧
        w.store.find? place = some (.file mode content)) ∧
      ∀ location, location ≠ place → w.store.find? location = s.find? location) ∧
    ∀ trouble, w.result = .error trouble →
      (∀ location item, s.find? location = some item → w.store.find? location = some item) ∧
      (faults.find? .unlink (s.shown (s.realPath path)) = none ∨
        (∀ n mode temp, ((begin s path content).after faults n).stage ≠ .created mode temp) → w.store = s) := by
  intro place w
  have start := Within.begin s path content faults
  have within (n : Nat) : ((begin s path content).after faults n).Within s (s.realPath path) place content faults :=
    afterKeeps (fun within move => within.advance unique (seenPlace unlinked) move) start n
  obtain ⟨result, ends⟩ := runEnds faults (begin s path content)
  have state := (within stepLimit).state
  rw [show (begin s path content).after faults stepLimit = w from rfl, ends] at state
  refine ⟨fun there located => placeLocated located, fun n => (within n).halfway, ⟨result, ends⟩, ?_, ?_⟩
  · intro done
    simp only [w, Write.result, ends] at done
    subst done
    obtain ⟨mode, old, there, store⟩ := state
    refine ⟨⟨mode, old, there, ?_⟩, fun location apart => ?_⟩
    · rw [store, Store.rewriteThere, there]
      rfl
    · rw [store, Store.rewriteFind s content apart]
  · intro trouble failed
    simp only [w, Write.result, ends] at failed
    subst failed
    obtain same | ⟨⟨added, store⟩, stuck | ⟨call, message, -, found⟩⟩ := state
    · exact ⟨fun location item held => by rw [same, held], fun _ => same⟩
    · refine ⟨fun location item held => by rw [store, putKeeps (tempFree s place) added held], ?_⟩
      rintro (removes | unmade)
      · exact absurd removes stuck
      · exact (bareAfter unmade stepLimit).kept
    · exact absurd found (reported.expected call _ message)

end Write
end

def chainStore : Store where
  items := [(["work", "r.go"], .file 0o600 [1]), (["work", "l.go"], .link "/work/r.go"), (["work", "m.go"], .link "l.go")]
  home := .ofPath "/work"

theorem chainFinds : chainStore.find? ["work", "r.go"] = some (.file 0o600 [1]) ∧
    chainStore.find? ["work", "l.go"] = some (.link "/work/r.go") ∧
    chainStore.find? ["work", "m.go"] = some (.link "l.go") := by
  decide +kernel

theorem chainLocated : chainStore.locate "m.go" = .ok ["work", "r.go"] := by
  have root : chainStore.entry [] "work" = .ok (.directory Store.directoryMode) := by decide +kernel
  have first : chainStore.entry ["work"] "m.go" = .ok (.link "l.go") := by decide +kernel
  have second : chainStore.entry ["work"] "l.go" = .ok (.link "/work/r.go") := by decide +kernel
  have last : chainStore.entry ["work"] "r.go" = .ok (.file 0o600 [1]) := by decide +kernel
  have pieces : Path.split "m.go" = ["m.go"] ∧ Path.split "l.go" = ["l.go"] ∧
      Path.split "/work/r.go" = ["", "work", "r.go"] := by
    decide +kernel
  have rooted : Path.isAbsolute "l.go" = false ∧ Path.isAbsolute "/work/r.go" = true := by decide +kernel
  have named : Path.isTurn "m.go" = false ∧ Path.isTurn "l.go" = false ∧ Path.isTurn "work" = false ∧
      Path.isTurn "r.go" = false := by
    decide +kernel
  calc chainStore.locate "m.go"
    _ = chainStore.follow 40 ["work"] ["m.go"] := by
      rw [Store.locate, if_neg (by decide), if_neg (by decide +kernel), pieces.1]
      rfl
    _ = chainStore.follow 39 ["work"] ["l.go"] := by
      rw [Store.followLink named.1 first, rooted.1, pieces.2.1]
      rfl
    _ = chainStore.follow 38 [] ["", "work", "r.go"] := by
      rw [Store.followLink named.2.1 second, rooted.2, pieces.2.2]
      rfl
    _ = chainStore.follow 38 [] ["work", "r.go"] := by
      rw [Store.followTurn (by decide) (by decide +kernel)]
      rfl
    _ = .ok ["work", "r.go"] := by
      rw [Store.followEntry named.2.2.1 root rfl, List.nil_append, Store.followEntry named.2.2.2 last rfl, Store.follow]
      rfl

def blockedAll : Fault := ⟨.replace, none, .system .inputOutput⟩

def crampedAll : Faults := [⟨.createTemp, none, .system .denied⟩, ⟨.unlink, none, .system .denied⟩]

def chainWrite (faults : Faults) : Write := (Write.begin chainStore "m.go" [2]).run faults

theorem chainBegins : Write.begin chainStore "m.go" [2] =
      ⟨"m.go", [2], ["work", "r.go"], ["work", "r.go"], chainStore, .start, []⟩ := by
  have plain : Path.hasNull "m.go" = false := by decide +kernel
  simp [Write.begin, plain, Store.realPathLocated chainLocated, (Store.locateReal chainLocated).place]

/-- The write has come to the making of its temporary file, and fails there. -/
theorem chainCramped : ((Write.begin chainStore "m.go" [2]).after crampedAll 1).stage = .checked 0o600 ∧
    ((Write.begin chainStore "m.go" [2]).after crampedAll 2).stage =
      .finished (.error (.failure (.inaccessible "m.go" "write" (.system .denied none)))) := by
  have stat : (Write.begin chainStore "m.go" [2]).step crampedAll =
      ⟨"m.go", [2], ["work", "r.go"], ["work", "r.go"], chainStore, .checked 0o600, []⟩ := by
    simp [chainBegins, Write.step, (Store.locateReal chainLocated).reach, Store.itemAtFound chainFinds.1, Faults.guarded,
      Faults.find?, crampedAll, bind, Except.bind, Except.mapError, modeOf]
  have one : (Write.begin chainStore "m.go" [2]).after crampedAll 1 = _ := stat
  refine ⟨by rw [one], ?_⟩
  rw [Write.afterSucc, one]
  rfl

theorem chainAllOrNothing :
    ((chainWrite []).store.find? ["work", "r.go"] = some (.file 0o600 [2]) ∧
      (chainWrite []).store.find? ["work", "l.go"] = some (.link "/work/r.go") ∧
      (chainWrite []).store.find? ["work", "m.go"] = some (.link "l.go")) ∧
    ((chainWrite [blockedAll]).result ≠ .ok () ∧ (chainWrite [blockedAll]).store = chainStore) ∧
    (chainWrite crampedAll).result ≠ .ok () ∧ (chainWrite crampedAll).store = chainStore := by
  have unique : chainStore.Unique := by decide +kernel
  have plain : Path.hasNull "m.go" = false := by decide +kernel
  have place := Write.placeLocated chainLocated
  have held := chainFinds.1
  have unlinked (text : String) : chainStore.find? (chainStore.placeOf (chainStore.realPath "m.go")) ≠ some (.link text) := by
    simp [place, held]
  have roomy : room chainStore (tempFor chainStore ["work", "r.go"]) = .ok (tempFor chainStore ["work", "r.go"]) := by
    decide +kernel
  refine ⟨?_, ?_, ?_⟩
  · have reported : Reported [] := by simp [Reported]
    have done : (chainWrite []).result = .ok () := Write.runSucceeds plain chainLocated held roomy [2] fun _ => rfl
    obtain ⟨-, -, -, succeeds, -⟩ := Write.allOrNothing unique reported unlinked [2]
    obtain ⟨⟨mode, old, there, new⟩, others⟩ := succeeds done
    rw [place] at there new others
    cases held.symm.trans there
    exact ⟨new, (others _ (by decide)).trans chainFinds.2.1, (others _ (by decide)).trans chainFinds.2.2⟩
  · have reported : Reported [blockedAll] := by simp [Reported, blockedAll]
    have removes (path : String) : Faults.find? [blockedAll] .unlink path = none := rfl
    have failed : (chainWrite [blockedAll]).result =
        .error (.failure (.inaccessible "m.go" "write" (.system .inputOutput none))) := by
      have unfaulted (call : Call) (replaces : call ≠ .replace) (_ : call ≠ .unlink) :
          Faults.find? [blockedAll] call (chainStore.shown ["work", "r.go"]) = none := by
        simp [Faults.find?, blockedAll, replaces.symm]
      have blocked : Faults.find? [blockedAll] .replace (chainStore.shown ["work", "r.go"]) = some (.system .inputOutput) := rfl
      have ends := Write.runBlocked plain chainLocated held roomy [2] unfaulted blocked
      rw [removes] at ends
      exact ends
    obtain ⟨-, -, -, -, fails⟩ := Write.allOrNothing unique reported unlinked [2]
    exact ⟨by simp [failed], (fails _ failed).2 (.inl (removes _))⟩
  · have reported : Reported crampedAll := by simp [Reported, crampedAll]
    have ended (n : Nat) : (Write.begin chainStore "m.go" [2]).after crampedAll (n + 2) =
        (Write.begin chainStore "m.go" [2]).after crampedAll 2 := by
      induction n with
      | zero => rfl
      | succ n ih => rw [Write.afterSucc, ih, Write.step, chainCramped.2]
    have failed : (chainWrite crampedAll).result =
        .error (.failure (.inaccessible "m.go" "write" (.system .denied none))) := by
      have last : chainWrite crampedAll = _ := ended 4
      rw [last, Write.result, chainCramped.2]
    have unmade (n : Nat) (mode : Nat) (temp : Location) :
        ((Write.begin chainStore "m.go" [2]).after crampedAll n).stage ≠ .created mode temp := by
      obtain _ | _ | n := n
      · simp [Write.after, chainBegins]
      · simp [chainCramped.1]
      · simp [ended, chainCramped.2]
    obtain ⟨-, -, -, -, fails⟩ := Write.allOrNothing unique reported unlinked [2]
    exact ⟨by simp [failed], (fails _ failed).2 (.inr unmade)⟩

def loopStore : Store where
  items := [(["r.go"], .file 0o600 [1]), (["o"], .link "o"), (["m.go"], .link "r.go")]

theorem loopFinds : loopStore.find? ["r.go"] = some (.file 0o600 [1]) ∧ loopStore.find? ["o"] = some (.link "o") ∧
    loopStore.find? ["m.go"] = some (.link "r.go") := by
  decide +kernel

theorem loopBegins : Write.begin loopStore "o/../m.go" [2] =
      ⟨"o/../m.go", [2], ["m.go"], ["m.go"], loopStore, .start, []⟩ ∧ loopStore.reach ["m.go"] = .ok ["r.go"] := by
  have named : Path.isTurn "o" = false ∧ Path.isTurn "m.go" = false ∧ Path.isTurn "r.go" = false := by decide +kernel
  have loop : loopStore.entry [] "o" = .ok (.link "o") := by decide +kernel
  have link : loopStore.entry [] "m.go" = .ok (.link "r.go") := by decide +kernel
  have file : loopStore.entry [] "r.go" = .ok (.file 0o600 [1]) := by decide +kernel
  have relative : Path.isAbsolute "o/../m.go" = false ∧ Path.isAbsolute "o" = false ∧ Path.isAbsolute "r.go" = false := by
    decide +kernel
  have pieces : Path.split "o/../m.go" = ["o", "..", "m.go"] ∧ Path.split "o" = ["o"] ∧ Path.split "r.go" = ["r.go"] := by
    decide +kernel
  have plain : Path.hasNull "o/../m.go" = false := by decide +kernel
  have links : loopStore.items.countP (fun entry => entry.2.isLink) = 2 := rfl
  have seen : loopStore.peek { rooted := false } "o" = some (.link "o") := (Store.Stands.start false).peek loop
  -- The loop is met again below itself: what stands behind it is taken as it is.
  have left : Store.unresolved (Store.base ((Store.Way.enter { rooted := false } "o").location loopStore)
      [.resolved (Store.Way.enter { rooted := false } "o"), .component "..", .component "m.go"])
      [.resolved (Store.Way.enter { rooted := false } "o"), .component "..", .component "m.go"] = ["m.go"] := by
    decide +kernel
  have real : loopStore.realPath "o/../m.go" = ["m.go"] := by
    simp [Store.realPath, Store.realFrom, links, relative, pieces, named, seen, Store.pathLimit, left]
  have place : loopStore.placeOf ["m.go"] = ["m.go"] := by
    simp [Store.placeOf, Store.reach, Store.follow]
  refine ⟨by simp [Write.begin, real, place, plain], ?_⟩
  rw [Store.reach, Store.linkLimit, Store.followLink named.2.1 link, relative.2.2, pieces.2.2]
  rw [if_neg (by decide), List.append_nil, Store.followEntry named.2.2 file rfl, Store.follow]
  rfl

/-- Behind a loop of links the last link is written over, and what it leads to is not. -/
theorem loopLosesLink :
    loopStore.find? ["m.go"] = some (.link "r.go") ∧
    ((Write.begin loopStore "o/../m.go" [2]).run []).result = .ok () ∧
    ((Write.begin loopStore "o/../m.go" [2]).run []).store.find? ["m.go"] = some (.file 0o600 [2]) ∧
    ((Write.begin loopStore "o/../m.go" [2]).run []).store.find? ["r.go"] = some (.file 0o600 [1]) := by
  have stat : (⟨"o/../m.go", [2], ["m.go"], ["m.go"], loopStore, .start, []⟩ : Write).step [] =
      ⟨"o/../m.go", [2], ["m.go"], ["m.go"], loopStore, .checked 0o600, []⟩ := by
    simp [Write.step, loopBegins.2, Store.itemAtFound loopFinds.1, Faults.guarded, Faults.find?, bind, Except.bind,
      Except.mapError, modeOf]
  have rest : (Write.begin loopStore "o/../m.go" [2]).run [] =
      (⟨"o/../m.go", [2], ["m.go"], ["m.go"], loopStore, .checked 0o600, []⟩ : Write).after [] 5 := by
    rw [loopBegins.1, ← stat]
    rfl
  rw [rest]
  exact ⟨loopFinds.2.2, rfl, by decide +kernel, by decide +kernel⟩

end ExitSpacing.InPlace
