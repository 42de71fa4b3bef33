import ExitSpacing.Files.Fault
import ExitSpacing.Files.Store
import ExitSpacing.Log

/-! Writing in place: the new content goes to a temporary file beside the target,
gets the target's mode and takes its place in one step. A failure removes the
temporary file. Links are resolved first, as far as they can be. -/
namespace ExitSpacing.InPlace

inductive Stage where
  | start
  | checked (mode : Nat)
  | created (mode : Nat) (temp : Location)
  | filled (mode : Nat) (temp : Location)
  | moded (temp : Location)
  | failed (temp : Location) (errno : Errno)
  | finished (result : Except Trouble Unit)

structure Write where
  path : String
  content : Bytes
  target : Location
  place : Location
  store : Store
  stage : Stage := .start
  log : List LogLine := []

def privateMode : Nat := 0o600

def modeOf : Item → Nat
  | .file mode _ | .directory mode => mode
  | .link _ => Store.directoryMode

def serial (n : Nat) : String :=
  let digits := Nat.toDigits 10 n
  String.ofList (List.replicate (8 - digits.length) '0' ++ digits)

def tempName (base : String) (n : Nat) : String := s!".{base}.{serial n}.tmp"

def tempFor (s : Store) (place : Location) : Location :=
  let named (n : Nat) : Location := place.dropLast ++ [tempName (place.getLast?.getD "") n]
  let tried := (List.range (s.entries.length + 1)).map named
  (tried.find? fun l => (s.find? l).isNone).getD (named 0)

def room (s : Store) (temp : Location) : Except Errno Location :=
  if Store.nameLimit < (temp.getLast?.getD "").utf8ByteSize then .error .nameTooLong
  else match s.find? temp.dropLast with
    | some (.directory mode) =>
      if Store.isWritable mode && Store.isSearchable mode then .ok temp else .error .denied
    | some _ => .error .notDirectory
    | none => .error .notFound

namespace Write

def shown (w : Write) : String := w.store.shown w.target

def begin (store : Store) (path : String) (content : Bytes) : Write :=
  let target := store.realPath path
  { path, content, store, target, place := store.placeOf target
    stage := if Path.hasNull path then .finished (.error .nullByte) else .start }

def finish (w : Write) (result : Except Trouble Unit) : Write := { w with stage := .finished result }

def refuse (w : Write) (errno : Errno) : Write :=
  w.finish (.error (.failure (.inaccessible w.path "write" (.system errno none))))

def refuseEarly (w : Write) : Effect → Write
  | .system errno => w.refuse errno
  | .unexpected message => w.finish (.error (.unexpected message))

/-- Once the temporary file exists, a system failure is cleaned up after, and nothing else is. -/
def refuseLate (w : Write) (temp : Location) : Effect → Write
  | .system errno => { w with
      stage := .failed temp errno
      log := w.log ++ [⟨.debug, s!"Removing temporary file {w.store.shown temp} after failed write"⟩] }
  | .unexpected message => w.finish (.error (.unexpected message))

/-- What takes the target's place. A directory gives way to no file. -/
def moved (w : Write) (temp : Location) : Except Errno Item :=
  match w.store.find? temp, w.store.find? w.place with
  | _, some (.directory _) => .error .isDirectory
  | some item, _ => .ok item
  | none, _ => .error .notFound

def step (faults : Faults) (w : Write) : Write :=
  match w.stage with
  | .start =>
    let found := do w.store.itemAt (← w.store.reach w.target)
    match faults.guarded .writeStat w.shown found with
    | .ok item => { w with stage := .checked (modeOf item) }
    | .error effect => w.refuseEarly effect
  | .checked mode =>
    match faults.guarded .createTemp w.shown (room w.store (tempFor w.store w.place)) with
    | .ok temp => { w with stage := .created mode temp, store := w.store.put temp (.file privateMode []) }
    | .error effect => w.refuseEarly effect
  | .created mode temp =>
    match faults.find? .fillTemp w.shown with
    | none => { w with
        stage := .filled mode temp
        store := w.store.put temp (.file privateMode w.content) }
    | some effect => w.refuseLate temp effect
  | .filled mode temp =>
    match faults.find? .chmod w.shown with
    | none => { w with stage := .moded temp, store := w.store.put temp (.file mode w.content) }
    | some effect => w.refuseLate temp effect
  | .moded temp =>
    match faults.guarded .replace w.shown (w.moved temp) with
    | .ok item =>
      { w with store := (w.store.erase temp).put w.place item }.finish (.ok ())
    | .error effect => w.refuseLate temp effect
  | .failed temp errno =>
    match faults.find? .unlink w.shown with
    | none => { w with store := w.store.erase temp }.refuse errno
    | some (.system .notFound) => w.refuse errno
    | some effect => w.finish (.error effect.trouble)
  | .finished _ => w

def stepLimit : Nat := 6

def run (faults : Faults) (w : Write) : Write := (List.range stepLimit).foldl (fun w _ => w.step faults) w

def result (w : Write) : Except Trouble Unit :=
  match w.stage with
  | .finished result => result
  | _ => .ok ()

end Write
end ExitSpacing.InPlace
