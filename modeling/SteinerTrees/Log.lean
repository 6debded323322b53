/-! # Log entries

What the library reports while it works, as data. A threshold decides which entries are shown. -/

namespace SteinerTrees

inductive Level where
  | debug
  | info
  | warning
  | error
  | critical
  deriving DecidableEq, Repr

namespace Level

def name : Level → String
  | debug => "DEBUG"
  | info => "INFO"
  | warning => "WARNING"
  | error => "ERROR"
  | critical => "CRITICAL"

def severity : Level → Nat
  | debug => 10
  | info => 20
  | warning => 30
  | error => 40
  | critical => 50

end Level

structure LogEntry where
  level : Level
  text : String
  deriving DecidableEq, Repr

abbrev Log := List LogEntry

def LogEntry.render (entry : LogEntry) : String := s!"{entry.level.name} | {entry.text}"

namespace Log

/-- The thresholds by name; some have two names. -/
def thresholds : List (String × Nat) := [("CRITICAL", 50), ("FATAL", 50), ("ERROR", 40), ("WARNING", 30),
  ("WARN", 30), ("INFO", 20), ("DEBUG", 10), ("NOTSET", 0)]

/-- The entries whose severity reaches a threshold. -/
def shown (threshold : Nat) (log : Log) : Log := log.filter fun entry => threshold ≤ entry.level.severity

end Log

end SteinerTrees
