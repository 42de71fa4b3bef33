/-! Log lines. Unless a run is verbose, only warnings and errors are shown. -/
namespace ExitSpacing

inductive Level where
  | debug
  | info
  | warning
  | error
  deriving DecidableEq, Repr

def Level.word : Level → String
  | .debug => "DEBUG"
  | .info => "INFO"
  | .warning => "WARNING"
  | .error => "ERROR"

structure LogLine where
  level : Level
  message : String
  deriving DecidableEq, Repr

namespace LogLine

def text (l : LogLine) : String := s!"{l.level.word} {l.message}"

def isShown (verbose : Bool) (l : LogLine) : Bool := verbose || l.level == .warning || l.level == .error

end LogLine
end ExitSpacing
