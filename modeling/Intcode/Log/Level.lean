/-!
Severities of log records, and the setting that chooses how severe a record must be to be shown.
-/

namespace Intcode

/-- How severe a record is. -/
inductive Level where
  | trace
  | debug
  | info
  | warn
  | error
deriving DecidableEq

namespace Level

/-- Every severity, the least first. -/
def all : List Level := [trace, debug, info, warn, error]

/-- The rank of a severity, from zero for the least. -/
def rank : Level → Nat
  | trace => 0
  | debug => 1
  | info => 2
  | warn => 3
  | error => 4

/-- The name of a severity. -/
def name : Level → String
  | trace => "TRACE"
  | debug => "DEBUG"
  | info => "INFO"
  | warn => "WARN"
  | error => "ERROR"

/-- The severity of a given name, in letters of either case. -/
def ofName? (name : String) : Option Level := all.find? fun level => level.name == name.toUpper

end Level

/-- The least severity that is shown, or none when nothing is. -/
abbrev Threshold := Option Level

namespace Threshold

/-- `threshold.admits level` says that records of that severity are shown. -/
def admits : Threshold → Level → Bool
  | none, _ => false
  | some least, level => least.rank ≤ level.rank

/-- The threshold that a setting names: a severity, or nothing at all for `off`. Without a setting, and
for any other, it is `warn`. -/
def ofSetting : Option String → Threshold
  | none => some .warn
  | some setting =>
    if setting.toUpper = "OFF" then none
    else some ((Level.ofName? setting).getD .warn)

end Threshold

end Intcode
