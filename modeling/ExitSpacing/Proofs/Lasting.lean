import ExitSpacing.Proofs.Sources

/-! What stays for as long as a run goes. Writes replace bytes, and a failed one can leave its
temporary file behind, under a name of its own: so every path goes on leading to what it led to,
and every file that was read is still there when its result is reported. -/
namespace ExitSpacing

namespace InPlace

theorem serialPlain (n : Nat) : '\x00' ∉ (serial n).toList := by
  simp only [serial, String.toList_ofList, List.mem_append, List.mem_replicate, not_or, not_and]
  refine ⟨fun _ => by decide, fun digit => ?_⟩
  cases Nat.isDigit_of_mem_toDigits (by decide) (by decide) digit

theorem tempNamePlain {base : String} (plain : Path.hasNull base = false) (n : Nat) :
    tempName base n ≠ "" ∧ Path.hasNull (tempName base n) = false := by
  have text : (tempName base n).toList = '.' :: (base.toList ++ '.' :: ((serial n).toList ++ ".tmp".toList)) := by
    simp [tempName, toString, String.toList_append]
  constructor
  · intro empty
    rw [empty] at text
    cases text
  · simp only [Path.hasNull, List.contains_eq_mem, decide_eq_false_iff_not] at plain ⊢
    rw [text]
    simp [plain, serialPlain]

theorem tempForNamed (s : Store) (place : Location) :
    ∃ n, tempFor s place = place.dropLast ++ [tempName (place.getLast?.getD "") n] := by
  rw [tempFor]
  cases found : List.find? _ _ with
  | none => exact ⟨0, rfl⟩
  | some temp =>
    obtain ⟨n, -, same⟩ := List.mem_map.mp (List.mem_of_find?_eq_some found)
    exact ⟨n, same.symm⟩

end InPlace

namespace Store

structure Keeps (s t : Store) : Prop where
  home : t.home = s.home
  held : ∀ location item, s.find? location = some item → t.find? location = some item

structure Lasts (s t : Store) : Prop where
  unique : t.Unique
  wellFormed : s.WellFormed → t.WellFormed
  holds : ∀ path, s.Holds path → t.Holds path

section
variable {s t : Store}

theorem Keeps.refl : s.Keeps s := ⟨rfl, fun _ _ held => held⟩

theorem keepsPut {temp : Location} (free : s.Free temp) (item : Item) : s.Keeps (s.put temp item) :=
  ⟨s.putHome temp item, fun _ _ held => InPlace.putKeeps free item held⟩

theorem allowKept (keeps : s.Keeps t) {here : Location} {component : String} (ok : s.allow here component = .ok ()) :
    t.allow here component = .ok () := by
  obtain ⟨mode, found, free⟩ := allowOk ok
  simp [allow, keeps.held _ _ found, free]

theorem entryKept (keeps : s.Keeps t) {here : Location} {name : String} {item : Item}
    (ok : s.entry here name = .ok item) : t.entry here name = .ok item := by
  obtain ⟨leave, short, found⟩ := entryOk ok
  exact entryFound (allowKept keeps leave) short (keeps.held _ _ found)

theorem followKept (keeps : s.Keeps t) {links : Nat} {here there : Location} {components : List String}
    (ok : s.follow links here components = .ok there) : t.follow links here components = .ok there := by
  fun_induction s.follow links here components with
  | case1 => simpa only [follow] using ok
  | case3 _ _ _ _ turn leave ih => exact (followTurn turn (allowKept keeps leave)).trans (ih ok)
  | case6 _ _ _ name _ held _ ih =>
    exact (followLink (by simpa using name) (entryKept keeps held)).trans (by simpa only [dite_eq_ite] using ih ok)
  | case7 _ _ _ _ name item other held ih =>
    have unlinked : item.isLink = false := by
      cases item with
      | link target => exact absurd rfl (other target)
      | file | directory => rfl
    exact (followEntry (by simpa using name) (entryKept keeps held) unlinked).trans (ih ok)
  | _ => cases ok

theorem locateKept (keeps : s.Keeps t) {path : String} {there : Location} (ok : s.locate path = .ok there) :
    t.locate path = .ok there := by
  have begins : t.origin path = s.origin path := by rw [origin, origin, keeps.home]
  unfold locate at ok ⊢
  rw [begins]
  split at ok
  · cases ok
  · rename_i inside
    rw [if_neg inside]
    split at ok
    · cases ok
    · rename_i short
      rw [if_neg short]
      exact followKept keeps ok

theorem Holds.kept (keeps : s.Keeps t) {path : String} (holds : s.Holds path) : t.Holds path := by
  obtain ⟨there, mode, content, located, found⟩ := holds
  exact ⟨there, mode, content, locateKept keeps located, keeps.held _ _ found⟩

theorem WellFormed.shape (wellFormed : s.WellFormed) (same : s.blank = t.blank) : t.WellFormed where
  unique := wellFormed.unique.shape same
  named := keysShape same ▸ wellFormed.named

theorem Lasts.refl (unique : s.Unique) : s.Lasts s := ⟨unique, id, fun _ holds => holds⟩

theorem Lasts.shape (unique : s.Unique) (same : s.blank = t.blank) : s.Lasts t where
  unique := unique.shape same
  wellFormed wellFormed := wellFormed.shape same
  holds _ holds := holds.shape same

theorem Free.keys {temp : Location} (free : s.Free temp) (item : Item) : (s.put temp item).keys = s.keys ++ [temp] := by
  rw [free.put, Store.keys, entries, ← List.append_assoc, List.map_append]
  rfl

theorem Unique.put (unique : s.Unique) {temp : Location} (free : s.Free temp) (item : Item) :
    (s.put temp item).Unique := by
  rw [Unique, free.keys, List.nodup_append_comm, List.singleton_append, List.nodup_cons]
  exact ⟨free.unkeyed, unique⟩

/-- A temporary file has a name as files have them, where its file has one. -/
theorem WellFormed.putTemp (wellFormed : s.WellFormed) {place : Location} {old : Item} (held : s.find? place = some old)
    (item : Item) : (s.put (InPlace.tempFor s place) item).WellFormed := by
  refine ⟨wellFormed.unique.put (InPlace.tempFree s place) item, fun location mem => ?_⟩
  rw [(InPlace.tempFree s place).keys] at mem
  obtain there | here := List.mem_append.mp mem
  · exact wellFormed.named location there
  · obtain rfl := List.mem_singleton.mp here
    have named := wellFormed.named place (keyMem held)
    obtain ⟨n, temp⟩ := InPlace.tempForNamed s place
    have base : Path.hasNull (place.getLast?.getD "") = false := by
      cases last : place.getLast? with
      | none => decide
      | some name => exact (named name (List.mem_of_getLast? last)).2
    rw [temp]
    refine List.forall_mem_append.mpr ⟨fun name mem => named name (List.dropLast_subset _ mem), ?_⟩
    exact List.forall_mem_singleton.mpr (InPlace.tempNamePlain base n)

theorem Lasts.putTemp (unique : s.Unique) {place : Location} {old : Item} (held : s.find? place = some old)
    (item : Item) : s.Lasts (s.put (InPlace.tempFor s place) item) where
  unique := unique.put (InPlace.tempFree s place) item
  wellFormed wellFormed := wellFormed.putTemp held item
  holds _ holds := holds.kept (keepsPut (InPlace.tempFree s place) item)

end
end Store

namespace Formatted

theorem writeLeaves (faults : Faults) {s : Store} (unique : s.Unique) {path : String} {there : Location}
    (located : s.locate path = .ok there) (content : Bytes) :
    let w := (InPlace.Write.begin s path content).run faults
    (w.result = .ok () ∧ w.store = s.rewrite there content) ∨
      (∃ trouble, w.result = .error trouble) ∧
        (w.store = s ∨ ∃ item, w.store = s.put (InPlace.tempFor s there) item) := by
  intro w
  have real := Store.locateReal located
  have start := InPlace.Write.Within.begin s path content faults
  rw [Store.realPathLocated located, real.place] at start
  have within : w.Within s there there content faults :=
    InPlace.Write.runKeeps (fun within move => within.advance unique (InPlace.Write.seenReal real) move) start
  obtain ⟨result, ends⟩ := InPlace.Write.runEnds faults (InPlace.Write.begin s path content)
  have state := within.state
  simp only [InPlace.Write.result, w, ends] at state ⊢
  cases result with
  | ok =>
    obtain ⟨_, _, -, rewritten⟩ := state
    exact .inl ⟨rfl, rewritten⟩
  | error trouble => exact .inr ⟨⟨trouble, rfl⟩, state.imp id fun left => left.1⟩

theorem reportLasts {x : Formatted} {settings : Settings} (faults : Faults) {s : Store} (unique : s.Unique)
    (holds : s.Holds x.unit) : s.Lasts (x.report settings faults s).store := by
  cases written : x.isWritten settings with
  | false =>
    rw [(reportUnwritten faults s written).2]
    exact .refl unique
  | true =>
    obtain ⟨there, mode, old, located, held⟩ := holds
    simp only [report, written, if_true]
    obtain ⟨-, store⟩ | ⟨-, store | ⟨item, store⟩⟩ := writeLeaves faults unique located x.content
    · rw [store]
      exact .shape unique (Store.rewriteBlank x.content).symm
    · rw [store]
      exact .refl unique
    · rw [store]
      exact .putTemp unique held item

end Formatted

namespace Batch

structure Lasting (store : Store) (h : History) (r : Run) : Prop where
  lasts : store.Lasts r.store
  held : ∀ path source, h.Read path source → r.store.Holds path

section
variable {env : Conditions} {store : Store} {r next : Run} {h : History} {events : List Event}

theorem Lasting.append (lasting : Lasting store h r) (moves : Moves env r events next)
    (lasts : r.store.Lasts next.store) : Lasting store (h ++ events.map (next.turn, ·)) next where
  lasts := ⟨lasts.unique, fun wellFormed => lasts.wellFormed (lasting.lasts.wellFormed wellFormed),
    fun path holds => lasts.holds path (lasting.lasts.holds path holds)⟩
  held path source := by
    rintro ⟨turn, mem⟩
    refine lasts.holds path ?_
    obtain old | new := List.mem_append.mp mem
    · exact lasting.held path source ⟨turn, old⟩
    · obtain ⟨event, mem, same⟩ := List.mem_map.mp new
      cases same
      exact Store.readHolds (readFileOk (moves.read mem)).2

theorem Lasting.inHand (lasting : Lasting store h r) (sourced : Sourced env h r) {x : Formatted}
    (mem : .report x ∈ r.duties) : r.store.Holds x.unit := by
  obtain ⟨source, read, -⟩ := sourced.inHand _ mem
  exact lasting.held _ _ read

end

theorem Trace.lasting {env : Conditions} {store : Store} {paths : List String} {canceled : Bool} {h : History} {r : Run}
    (trace : Trace env (Run.begin store paths canceled) h r) (unique : store.Unique) :
    r.Escaped ∨ Lasting store h r := by
  induction trace with
  | start => exact .inr ⟨.refl unique, fun path source ⟨turn, mem⟩ => absurd mem List.not_mem_nil⟩
  | @move h r next move before made ih =>
    have moves := stepMoves made
    by_cases escaped : r.Escaped
    · exact .inl (escaped.move moves)
    · have lasting := ih.resolve_left escaped
      obtain ⟨same, -⟩ | @⟨x, failure, inHand, -, -, same, -, -⟩ | now := moves.stored
      · exact .inr (lasting.append moves (by rw [same]; exact .refl lasting.lasts.unique))
      · have holds := lasting.inHand (before.sourced.resolve_left escaped) inHand
        have lasts : r.store.Lasts (x.report env.settings env.faults r.store).store :=
          Formatted.reportLasts env.faults lasting.lasts.unique holds
        exact .inr (lasting.append moves (by rw [same]; exact lasts))
      · exact .inl now

end Batch
end ExitSpacing
