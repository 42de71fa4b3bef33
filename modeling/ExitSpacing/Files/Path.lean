import ExitSpacing.Bytes

/-! Paths as text: components between slashes, joining, and the two ways in which a
path is brought into a normal form. -/
namespace ExitSpacing.Path

def splitSlashes : List Char → List (List Char)
  | [] => [[]]
  | '/' :: rest => [] :: splitSlashes rest
  | c :: rest => match splitSlashes rest with
    | first :: more => (c :: first) :: more
    | [] => [[c]]

def split (path : String) : List String := (splitSlashes path.toList).map String.ofList

def isProper (component : String) : Bool := component != "" && component != "."

def isTurn (component : String) : Bool := !isProper component || component == ".."

def components (path : String) : List String := (split path).filter isProper

def isAbsolute (path : String) : Bool := path.toList.head? == some '/'

def join (directory name : String) : String :=
  if directory == "" || directory.toList.getLast? == some '/' then directory ++ name
  else directory ++ "/" ++ name

/-- Take each parent step back over the component before it, where there is one. -/
def collapse (absolute : Bool) (components : List String) : List String :=
  (components.foldl (fun done c =>
    if c != ".." then c :: done
    else match done with
      | [] => if absolute then [] else [c]
      | last :: rest => if last == ".." then c :: done else rest) []).reverse

def normal (path : String) : List String := collapse (isAbsolute path) (components path)

def baseName (path : String) : String :=
  match (normal path).getLast? with
  | some name => name
  | none => if isAbsolute path then "" else "."

def isSame (a b : String) : Bool := isAbsolute a == isAbsolute b && normal a == normal b

/-- The path as given on a command line: without components that name nothing and
without repeated or closing slashes; parent steps stay. -/
def tidy (path : String) : String :=
  let slashes := path.toList.takeWhile (· == '/')
  let root := match slashes.length with
    | 0 => ""
    | 2 => "//"
    | _ => "/"
  let rest := "/".intercalate (components path)
  if root == "" && rest == "" then "." else root ++ rest

def hasNull (path : String) : Bool := path.toList.contains '\x00'

def startsWith (lead name : String) : Bool := lead.toList.isPrefixOf name.toList
def endsWith (tail name : String) : Bool := tail.toList.isSuffixOf name.toList

def isSkippedDirectory (name : String) : Bool :=
  startsWith "vendor" name || startsWith "testdata" name ||
    (name != "." && name != ".." && startsWith "." name)

def isEligible (name : String) : Bool := endsWith ".go" name && !endsWith "_test.go" name

end ExitSpacing.Path
