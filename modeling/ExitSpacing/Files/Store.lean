import ExitSpacing.Failure
import ExitSpacing.Files.Path

/-! A store of files, links and directories, and a working directory, which is always
there. A path is followed step by step, through links, until it names an item or a step
fails. Items belong to the user at work, so the owner's bits of a mode decide what may be
done. The real place of a path has its links replaced as far as they lead anywhere. -/
namespace ExitSpacing

abbrev Location := List String

inductive Item where
  | file (mode : Nat) (content : Bytes)
  | link (target : String)
  | directory (mode : Nat)
  deriving DecidableEq, Repr

namespace Item

def isLink : Item → Bool
  | .link _ => true
  | _ => false

def isDirectory : Item → Bool
  | .directory _ => true
  | _ => false

end Item

namespace Store

def linkLimit : Nat := 40

def nameLimit : Nat := 255

def pathLimit : Nat := 4096

def directoryMode : Nat := 0o755

def isReadable (mode : Nat) : Bool := mode / 0o400 % 2 == 1
def isWritable (mode : Nat) : Bool := mode / 0o200 % 2 == 1
def isSearchable (mode : Nat) : Bool := mode / 0o100 % 2 == 1

def isEntryName (name : String) : Bool := !Path.isTurn name && decide (name.utf8ByteSize ≤ nameLimit)

end Store

structure Home where
  names : Location
  entries : ∀ name ∈ names, Store.isEntryName name = true
  deriving DecidableEq, Repr

namespace Home

def root : Home := ⟨[], fun _ mem => nomatch mem⟩

def ofPath (path : String) : Home :=
  ⟨(Path.components path).filter Store.isEntryName, fun _ mem => (List.mem_filter.mp mem).2⟩

end Home

structure Store where
  items : List (Location × Item) := []
  home : Home := .root
  deriving DecidableEq, Repr

namespace Store

def chain (s : Store) : List (Location × Item) :=
  (List.range (s.home.names.length + 1)).map fun n => (s.home.names.take n, .directory directoryMode)

def entries (s : Store) : List (Location × Item) := s.chain ++ s.items

def find? (s : Store) (location : Location) : Option Item := s.entries.lookup location

def erase (s : Store) (location : Location) : Store := { s with items := s.items.filter (·.1 != location) }

def put (s : Store) (location : Location) (item : Item) : Store :=
  if (s.items.lookup location).isSome then
    { s with items := s.items.map fun entry => if entry.1 == location then (location, item) else entry }
  else { s with items := s.items ++ [(location, item)] }

def plant (s : Store) (location : Location) (item : Item) : Store :=
  if location <+: s.home.names then s
  else
    let above := (List.range location.length).filterMap fun n =>
      let parent := location.take n
      if (s.find? parent).isSome then none else some (parent, Item.directory directoryMode)
    Store.put { s with items := s.items ++ above } location item

def origin (s : Store) (path : String) : Location := if Path.isAbsolute path then [] else s.home.names

def ofList (items : List (String × Item)) (home : Home := .root) : Store :=
  items.foldl (fun s entry => s.plant (s.origin entry.1 ++ Path.components entry.1) entry.2) { home }

def shown (s : Store) (location : Location) : String :=
  if s.home.names <+: location then "/".intercalate (location.drop s.home.names.length)
  else "/" ++ "/".intercalate location

def itemAt (s : Store) (location : Location) : Except Errno Item :=
  match s.find? location with
  | some item => .ok item
  | none => .error .notFound

def allow (s : Store) (here : Location) (component : String) : Except Errno Unit :=
  match s.find? here with
  | some (.directory mode) => if component == "" || isSearchable mode then .ok () else .error .denied
  | some _ => .error .notDirectory
  | none => .error .notFound

def entry (s : Store) (here : Location) (name : String) : Except Errno Item := do
  s.allow here name
  if nameLimit < name.utf8ByteSize then .error .nameTooLong else s.itemAt (here ++ [name])

def descend (here : Location) (c : String) : Location :=
  if !Path.isTurn c then here ++ [c] else if c == ".." then here.dropLast else here

def follow (s : Store) : (links : Nat) → (here : Location) → List String → Except Errno Location
  | _, here, [] => .ok here
  | links, here, c :: rest =>
    if Path.isTurn c then
      match s.allow here c with
      | .error errno => .error errno
      | .ok () => follow s links (descend here c) rest
    else match s.entry here c with
      | .error errno => .error errno
      | .ok (.link target) => match links with
        | 0 => .error .linkLoop
        | links + 1 =>
          follow s links (if Path.isAbsolute target then [] else here) (Path.split target ++ rest)
      | .ok _ => follow s links (here ++ [c]) rest
termination_by links _ components => (links, components.length)

def locate (s : Store) (path : String) : Except Errno Location :=
  if path == "" then .error .notFound
  else if pathLimit ≤ path.utf8ByteSize then .error .nameTooLong
  else s.follow linkLimit (s.origin path) (Path.split path)

def stat (s : Store) (path : String) : Except Errno Item := do s.itemAt (← s.locate path)

def isDirectory (s : Store) (path : String) : Bool :=
  match s.stat path with
  | .ok item => item.isDirectory
  | .error _ => false

def isFile (s : Store) (path : String) : Bool :=
  match s.stat path with
  | .ok (.file ..) => true
  | _ => false

def read (s : Store) (path : String) : Except Errno Bytes := do
  match ← s.stat path with
  | .file mode content => if isReadable mode then .ok content else .error .denied
  | .directory mode => .error (if isReadable mode then .isDirectory else .denied)
  | .link _ => .error .linkLoop

structure Listing where
  directories : List String := []
  linkedDirectories : List String := []
  others : List String := []
  deriving DecidableEq, Repr

def namesBelow (s : Store) (location : Location) : List String :=
  s.entries.filterMap fun entry =>
    if entry.1.length = location.length + 1 && entry.1.take location.length == location
    then entry.1.getLast? else none

def isBranch (s : Store) (path name : String) : Item → Bool
  | .directory _ => true
  | .link _ => s.isDirectory (Path.join path name)
  | .file .. => false

def listing (s : Store) (path : String) (location : Location) : Listing :=
  let names := s.namesBelow location
  let holds (name : String) (kind : Item → Bool) : Bool := (s.find? (location ++ [name])).any kind
  { directories := names.filter fun n => holds n fun item => s.isBranch path n item && !item.isLink
    linkedDirectories := names.filter fun n => holds n fun item => s.isBranch path n item && item.isLink
    others := names.filter fun n => !holds n (s.isBranch path n) }

def list (s : Store) (path : String) : Except Errno Listing := do
  let location ← s.locate path
  match ← s.itemAt location with
  | .directory mode => if isReadable mode then .ok (s.listing path location) else .error .denied
  | _ => .error .notDirectory

/-- A path on which every link was replaced, from the root or from the working directory
with all its parent steps in front. -/
structure Way where
  rooted : Bool
  names : List String := []
  deriving DecidableEq, Repr

namespace Way

def origin (s : Store) (w : Way) : Location := if w.rooted then [] else s.home.names

def location (s : Store) (w : Way) : Location := w.names.foldl descend (w.origin s)

def enter (w : Way) (name : String) : Way := { w with names := w.names ++ [name] }

def rise (w : Way) : Way :=
  match w.names.getLast? with
  | none => if w.rooted then w else w.enter ".."
  | some last => if last == ".." then w.enter ".." else { w with names := w.names.dropLast }

end Way

/-- A step on the way to the real place of a path: a component, or the end of the
components that a link stood for. -/
inductive Pending where
  | component (name : String)
  | resolved (link : Way)
  deriving DecidableEq, Repr

def base (here : Location) : List Pending → Location
  | .component "" :: .component _ :: _ => []
  | _ => here

def unresolved (here : Location) : List Pending → Location
  | [] => here
  | .component c :: rest => unresolved (descend here c) rest
  | .resolved _ :: rest => unresolved (base here rest) rest

def peek (s : Store) (way : Way) (name : String) : Option Item :=
  match s.follow 0 (way.origin s) way.names with
  | .ok here => (s.entry here name).toOption
  | .error _ => none

/-- Replace links on the way by what they stand for. `met` holds the links met so
far with what they came to, if that is known; a link met again before that is a loop
and is left as it is. Steps that lead nowhere are kept. -/
def realFrom (s : Store) : (links : Nat) → (met : List (Way × Option Way)) → (here : Way) →
    List Pending → Location
  | _, _, here, [] => here.location s
  | links, met, here, .resolved link :: rest => realFrom s links ((link, some here) :: met) here rest
  | links, met, here, .component c :: rest =>
    if Path.isTurn c then realFrom s links met (if c == ".." then here.rise else here) rest
    else
      let next := here.enter c
      let left := unresolved (base (next.location s) rest) rest
      match s.peek here c with
      | some (.link target) => match met.lookup next with
        | some (some found) => realFrom s links met found rest
        | some none => left
        | none => match links with
          | 0 => left
          | links + 1 =>
            realFrom s links ((next, none) :: met) (if Path.isAbsolute target then { rooted := true } else here)
              ((Path.split target).map .component ++ .resolved next :: rest)
      | _ => realFrom s links met next rest
termination_by links _ _ pending => (links, pending.length)

def realPath (s : Store) (path : String) : Location :=
  s.realFrom (((s.items.countP fun entry => entry.2.isLink) + 1) * pathLimit) []
    { rooted := Path.isAbsolute path } ((Path.split path).map .component)

def reach (s : Store) (location : Location) : Except Errno Location := s.follow linkLimit [] location

def placeOf (s : Store) (location : Location) : Location :=
  match s.reach location.dropLast, location.getLast? with
  | .ok directory, some name => directory ++ [name]
  | _, _ => location

end Store
end ExitSpacing
