import ExitSpacing.Files.Path
import ExitSpacing.Settings

/-! The arguments of the command. Flags, options with a value and paths come in any
order; a later value of an option replaces an earlier one, and two dashes alone end
the options. -/
namespace ExitSpacing.Command

inductive Flag where
  | write
  | dryRun
  | verbose
  | version
  deriving DecidableEq, Repr

namespace Flag

def ofName? : String → Option Flag
  | "--write" => some .write
  | "--dry-run" => some .dryRun
  | "--verbose" => some .verbose
  | "--version" => some .version
  | _ => none

def ofLetter? : Char → Option Flag
  | 'w' => some .write
  | 'n' => some .dryRun
  | 'v' => some .verbose
  | _ => none

def ofLetters? : List Char → Option (List Flag)
  | [] => some []
  | c :: rest => do
    let flag ← ofLetter? c
    let flags ← ofLetters? rest
    some (flag :: flags)

end Flag

inductive Valued where
  | blockSize
  | parallelism
  | policy
  deriving DecidableEq, Repr

def Valued.ofName? : String → Option Valued
  | "--block-size" => some .blockSize
  | "--parallelism" => some .parallelism
  | "--block-size-policy" => some .policy
  | _ => none

structure Written where
  flags : List Flag := []
  values : List (Valued × String) := []
  paths : List String := []
  deriving DecidableEq, Repr

namespace Written

def raise (w : Written) (flags : List Flag) : Written := { w with flags := w.flags ++ flags }
def give (w : Written) (option : Valued) (value : String) : Written :=
  { w with values := (option, value) :: w.values }
def addPaths (w : Written) (paths : List String) : Written := { w with paths := w.paths ++ paths }

def isOption (argument : String) : Bool := argument.toList.head? == some '-' && argument != "-"

def assigned? (argument : String) : Option (String × String) :=
  match argument.toList.dropWhile (· != '=') with
  | [] => none
  | _ :: value => some (String.ofList (argument.toList.takeWhile (· != '=')), String.ofList value)

def loneFlags? (argument : String) : Option (List Flag) :=
  match Flag.ofName? argument with
  | some flag => some [flag]
  | none => Flag.ofLetters? (argument.toList.drop 1)

def take (w : Written) : List String → Option Written
  | [] => some w
  | argument :: rest =>
    if argument == "--" then some (w.addPaths rest)
    else if !isOption argument then take (w.addPaths [argument]) rest
    else match assigned? argument with
      | some (name, value) => match Valued.ofName? name with
        | some option => take (w.give option value) rest
        | none => none
      | none => match Valued.ofName? argument with
        | some option => match rest with
          | [] => none
          | value :: rest => take (w.give option value) rest
        | none => match loneFlags? argument with
          | some flags => take (w.raise flags) rest
          | none => none

def has (w : Written) (flag : Flag) : Bool := w.flags.contains flag
def value? (w : Written) (option : Valued) : Option String := w.values.lookup option

def number? (w : Written) (option : Valued) (default : Int) : Option Int :=
  match w.value? option with
  | none => some default
  | some s => Text.integer? s

end Written

structure Options where
  blockSize : Int := 1
  write : Bool := false
  dryRun : Bool := false
  verbose : Bool := false
  /-- Zero stands for the number of processors. -/
  parallelism : Int := 0
  policy : String := "lines"
  paths : List String := []
  deriving DecidableEq, Repr

namespace Options

def fields (o : Options) : Fields :=
  [("block_size", .integer o.blockSize), ("write", .boolean o.write), ("dry_run", .boolean o.dryRun),
    ("verbose", .boolean o.verbose), ("block_size_policy", .text o.policy)] ++
  if o.parallelism = 0 then [] else [("parallelism", .integer o.parallelism)]

def settings (o : Options) (processors : Option Nat) : Checked Settings :=
  Settings.ofFields processors o.fields

end Options

inductive Request where
  | version
  | format (options : Options)
  deriving DecidableEq, Repr

namespace Request

/-- None when the arguments cannot be read. The version is told whatever the values are. -/
def ofArguments (arguments : List String) : Option Request := do
  let w ← Written.take {} arguments
  if w.has .version then some .version
  else
    let blockSize ← w.number? .blockSize 1
    let parallelism ← w.number? .parallelism 0
    some (.format {
      blockSize, parallelism
      write := w.has .write
      dryRun := w.has .dryRun
      verbose := w.has .verbose
      policy := (w.value? .policy).getD "lines"
      paths := w.paths.map Path.tidy })

end Request

example : Request.ofArguments ["a.go", "-nv", "--block-size=2"] = some (.format
    { blockSize := 2, dryRun := true, verbose := true, paths := ["a.go"] }) := by decide +kernel
example : Request.ofArguments ["--parallelism", "--"] = none := by decide +kernel

end ExitSpacing.Command
