import MailRules.Json.Text
import MailRules.Log.Level
import MailRules.Settings
import MailRules.Text.Quoted
import MailRules.Text.Timestamp

/-!
Log records, and the lines they are written as.

A structured line is a JSON object in ASCII: when and how urgent, by whom, the message, the run it
belongs to if there is one, an exception if there was one, where it was logged, and whatever else
was attached to the record. A plain line has the level, the logger and the message.
-/

namespace MailRules.Log

/-- Doubles in a message are written as they are in JSON, but for those that are no numbers. -/
def doubleNotation : Decimal.Notation :=
  { Json.doubleNotation with noNumber := "nan", infinity := "inf" }

/-- A value in a message: a text as it is, anything else as it would be written in a program. -/
def shown (nested : Bool) : Json → String
  | .null => "None"
  | .bool b => if b then "True" else "False"
  | .int n => Text.ofInt n
  | .float x => Decimal.textOf doubleNotation x
  | .str s => if nested then Text.quoted s else s
  | .arr vs => "[" ++ String.intercalate ", " (shownAll vs) ++ "]"
  | .obj fs => "\x7b" ++ String.intercalate ", " (shownFields fs) ++ "\x7d"
where
  shownAll : List Json → List String
    | [] => []
    | v :: vs => shown true v :: shownAll vs
  shownFields : List (String × Json) → List String
    | [] => []
    | (k, v) :: rest => (Text.quoted k ++ ": " ++ shown true v) :: shownFields rest

inductive RecordError where
  | badFormat
  | badTime
  /-- An exception is attached as a value without a kind that has a name. -/
  | namelessException
  /-- An exception is attached as a kind alone. -/
  | partialException

def shownWhole : Json → Except RecordError String
  | .int n => .ok (Text.ofInt n)
  | .bool b => .ok (if b then "1" else "0")
  | .float x => match Decimal.whole? (if x < 0 then x.ceil else x.floor) with
    | some n => if x.isFinite then .ok (Text.ofInt n) else .error .badFormat
    | none => .error .badFormat
  | _ => .error .badFormat

/-- A message with its arguments in the places of `%s` (as text) and `%d` (as a whole number). -/
def filled : List Char → List Json → Except RecordError (List Char)
  | [], [] => .ok []
  | [], _ :: _ => .error .badFormat
  | '%' :: '%' :: cs, args => (filled cs args).map ('%' :: ·)
  | '%' :: 's' :: cs, v :: args => (filled cs args).map ((shown false v).toList ++ ·)
  | '%' :: 'd' :: cs, v :: args => do
    let here ← shownWhole v
    return here.toList ++ (← filled cs args)
  | '%' :: _, _ => .error .badFormat
  | c :: cs, args => (filled cs args).map (c :: ·)

def isContainer : Json → Bool
  | .arr _ => true
  | .obj _ => true
  | _ => false

/-- The message of a record. Without arguments it stands as it is; a lone list or object may go
unused. -/
def message (format : String) (args : List Json) : Except RecordError String :=
  match args, filled format.toList args with
  | [], _ => .ok format
  | _, .ok cs => .ok (String.ofList cs)
  | [v], .error e =>
    if isContainer v then (filled format.toList []).map String.ofList else .error e
  | _, .error e => .error e

/-- The exception logged with a record; either part may be unknown. -/
structure Exception where
  kind : Option String
  text : Option String

/-- The text of an exception of a kind. An error about a key tells the key in quotes. -/
def Exception.of (kind message : String) : Exception :=
  ⟨some kind, some (if kind = "KeyError" then Text.quoted message else message)⟩

/-- A log record. The attributes are what was attached to it, in order. -/
structure Record where
  created : Text.Timestamp
  format : String
  args : List Json := []
  logger : String := "root"
  level : Int := 20
  path : String
  line : Int
  function : Option String := none
  exception : Option Exception := none
  attributes : Json.Fields := []

/-- Names of attributes that belong to every record. Attached under one of these, a value stands for
the record's own. -/
def ownAttributes : List String :=
  ["name", "msg", "args", "levelname", "levelno", "pathname", "filename", "module", "lineno",
    "funcName", "created", "msecs", "relativeCreated", "thread", "threadName", "processName",
    "process", "taskName", "getMessage", "exc_info", "exc_text", "stack_info"]

def Record.attached? (r : Record) (name : String) : Option Json :=
  Json.find? name (Json.overlay [] r.attributes)

/-- The value attached under a name, or else the record's own. -/
def Record.attribute (r : Record) (name : String) (own : Json) : Json :=
  (r.attached? name).getD own

/-- The time of a record, which a number attached as its time takes the place of. -/
def Record.time (r : Record) : Text.Timestamp :=
  match r.attached? "created" with
  | some (.int n) => ⟨n, 0⟩
  | some (.bool b) => ⟨if b then 1 else 0, 0⟩
  | some (.float x) => .ofDouble x
  | _ => r.created

/-- The arguments of a record. A value attached as arguments is a single argument, or none if it
says nothing. -/
def Record.arguments (r : Record) : List Json :=
  match r.attached? "args" with
  | none => r.args
  | some v => if v.isNothing then [] else [v]

/-- The message of a record, which a value attached as message takes the place of. -/
def Record.message (r : Record) : Except RecordError String :=
  Log.message (shown false (r.attribute "msg" (.str r.format))) r.arguments

/-- The exception that a value attached as one stands for: a list of its kind, which has to be left
open, and of itself. -/
def Exception.ofAttached (v : Json) : Except RecordError (Option Exception) :=
  if v.isNothing then .ok none
  else match v with
    | .arr (kind :: rest) =>
      if !kind.isNothing then .error .namelessException
      else match rest with
        | [] => .error .partialException
        | e :: _ => .ok (some ⟨none, if e.isNothing then none else some (shown false e)⟩)
    | _ => .error .namelessException

def Record.thrown (r : Record) : Except RecordError (Option Exception) :=
  match r.attached? "exc_info" with
  | none => .ok r.exception
  | some v => Exception.ofAttached v

def Record.structuredLine (run : String) (r : Record) : Except RecordError String :=
  match r.time.text? with
  | none => .error .badTime
  | some time => do
    let message ← r.message
    let exception := match ← r.thrown with
      | none => []
      | some e =>
        [("exception", Json.obj [("type", .ofText? e.kind), ("message", .ofText? e.text)])]
    let extra := (Json.overlay [] r.attributes).filter fun kv => !ownAttributes.contains kv.1
    return (Json.obj (
      [("timestamp", .str time), ("level", r.attribute "levelname" (.str (nameOf r.level))),
        ("logger", r.attribute "name" (.str r.logger)), ("message", .str message)]
      ++ (if run = "" then [] else [("run_id", .str run)]) ++ exception
      ++ [("file", r.attribute "pathname" (.str r.path)),
        ("line", r.attribute "lineno" (.int r.line)),
        ("function", r.attribute "funcName" (.ofText? r.function))]
      ++ (if extra.isEmpty then [] else [("extra", .obj extra)]))).line

def Record.plainLine (r : Record) : Except RecordError String := do
  return nameOf r.level ++ " " ++ r.logger ++ ": " ++ (← r.message)

/-- How logging is set up: the lowest level told, and the form of lines. There is one handler, in
the place of any before. -/
structure Setup where
  level : Int
  structured : Bool

def Setup.handlers (_ : Setup) : Nat := 1

/-- Sets up logging, unless the name of the level names something else; what is not given is taken
from the settings. -/
def Setup.of? (s : Settings) (level : Option String) (structured : Option Bool) : Option Setup :=
  (numberOf? (level.getD s.logLevel)).map fun n => ⟨n, structured.getD s.structuredLogs⟩

/-- The line of a record in the form of a set-up. -/
def Setup.lineOf (setup : Setup) (run : String) (r : Record) : Except RecordError String :=
  if setup.structured then r.structuredLine run else r.plainLine

/-- The name of the logger asked for; the one without a name is the root of all. -/
def loggerName (name : String) : String := if name = "" then "root" else name

end MailRules.Log
