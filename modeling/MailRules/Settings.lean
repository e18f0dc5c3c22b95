import MailRules.Document.Reader
import MailRules.Log.Level
import MailRules.Text.Lower
import MailRules.Text.Whitespace

/-!
The settings of the library, and reading them from arguments and the environment.

A setting is looked up among the arguments first and then among the variables of the environment,
whose names are those of the settings behind `FILTERCTL_`. Either may be spelled in any case. What
is in neither keeps its default.
-/

namespace MailRules

inductive Environment where
  | localMachine
  | test
  | prod
  deriving DecidableEq

def Environment.name : Environment → String
  | localMachine => "local"
  | test => "test"
  | prod => "prod"

def Environment.all : List Environment := [localMachine, test, prod]

def Environment.ofName? (name : String) : Option Environment := all.find? (·.name = name)

/-- The settings that functions fall back on. -/
structure Settings where
  environment : Environment := .localMachine
  logLevel : String := "INFO"
  structuredLogs : Bool := true
  metrics : Bool := true
  /-- The size at which conditions are cut. -/
  sizeLimit : Int := 20
  /-- The number of rounds of simplification. -/
  simplifyPasses : Int := 4
  /-- The lines of context in diffs. -/
  diffContext : Int := 3
  /-- The lines of context in the diffs of trials. -/
  trialContext : Int := 5

namespace Settings

open Document Document.Reading

def logLevels : List String := ["DEBUG", "INFO", "WARNING", "ERROR", "CRITICAL"]

/-- Names in a list, each in quotes. -/
def choices (names : List String) : String :=
  "[" ++ String.intercalate ", " (names.map fun n => "'" ++ n ++ "'") ++ "]"

/-- The reason for which a value is rejected that is not one of the given names. -/
def notAmong (setting : String) (names : List String) (value : String) : Defect :=
  .rejected (setting ++ " must be one of " ++ choices names ++ ", got '" ++ value ++ "'")

def readEnvironment (v : Json) : Reading Environment :=
  (asText v).check fun s =>
    match Environment.ofName? (String.ofList (Text.lower s.toList)) with
    | some e => .read e
    | none => bad (notAmong "app_env" (Environment.all.map (·.name)) s)

/-- A level that may be set, in any case and with blanks around it. -/
def readLogLevel (v : Json) : Reading String :=
  (asText v).check fun s =>
    let level := Log.upper (Text.trimmed s)
    if logLevels.contains level then .read level else bad (notAmong "log_level" logLevels s)

/-- A whole number that is not below a minimum. -/
def readAtLeast (minimum : Int) (v : Json) : Reading Int :=
  (asWhole v).check fun n => if n < minimum then bad .belowMinimum else .read n

def record : Record Json Settings :=
  Settings.mk <$> .field "app_env" .localMachine readEnvironment
    <*> .field "log_level" "INFO" readLogLevel <*> .field "structured_logs" true asFlag
    <*> .field "metrics_enabled" true asFlag <*> .field "filter_size_limit" 20 (readAtLeast 1)
    <*> .field "simplify_max_passes" 4 (readAtLeast 1)
    <*> .field "diff_context_lines" 3 (readAtLeast 0)
    <*> .field "test_diff_context_lines" 5 (readAtLeast 0)

/-- Whether a name in any case is the given one, which is in lower case. -/
def spells (name given : String) : Bool := Text.lower given.toList = name.toList

/-- The argument for a setting; of several spellings the first counts. -/
def argument? (arguments : Json.Fields) (setting : String) : Option Json :=
  (arguments.find? fun (n, _) => spells setting n).map (·.2)

/-- The value of a variable of the environment for a setting; of several spellings the last
counts. -/
def inEnvironment? (environment : List (String × String)) (setting : String) : Option String :=
  (environment.reverse.find? fun (n, _) => spells ("filterctl_" ++ setting) n).map (·.2)

/-- The values given for the settings. -/
def given (arguments : Json.Fields) (environment : List (String × String)) : Json.Fields :=
  record.names.filterMap fun n =>
    match argument? arguments n.main with
    | some v => some (n.main, v)
    | none => (inEnvironment? environment n.main).map fun s => (n.main, .str s)

inductive Error where
  /-- The environment is not given as a text, which stops the reading. -/
  | environmentNoText
  | flawed (issues : List Issue)

/-- The settings given by arguments and the environment. -/
def read (arguments : Json.Fields) (environment : List (String × String)) :
    Except Error Settings :=
  let fields := given arguments environment
  let stopped := match Json.find? "app_env" fields with
    | none => false
    | some (.str _) => false
    | some _ => true
  if stopped then .error .environmentNoText
  else match record.run fields with
    | .read s => .ok s
    | .flawed issues => .error (.flawed issues)

def toJson (s : Settings) : Json :=
  .obj [("app_env", .str s.environment.name), ("log_level", .str s.logLevel),
    ("structured_logs", .bool s.structuredLogs), ("metrics_enabled", .bool s.metrics),
    ("filter_size_limit", .int s.sizeLimit), ("simplify_max_passes", .int s.simplifyPasses),
    ("diff_context_lines", .int s.diffContext), ("test_diff_context_lines", .int s.trialContext)]

end Settings

end MailRules
