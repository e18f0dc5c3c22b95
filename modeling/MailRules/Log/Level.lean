import MailRules.Text.Digits

/-!
Levels of log records: their numbers and names.
-/

namespace MailRules.Log

/-- A character in upper case, as far as names of levels can tell: beyond ASCII, only the dotless i
and the long s have an upper-case letter that occurs in one. -/
def upperChar (c : Char) : Char :=
  if c = 'ı' then 'I' else if c = 'ſ' then 'S' else c.toUpper

def upper (name : String) : String := String.ofList (name.toList.map upperChar)

/-- The names of levels, with the numbers they stand for. -/
def names : List (String × Int) :=
  [("DEBUG", 10), ("INFO", 20), ("WARNING", 30), ("WARN", 30), ("ERROR", 40), ("CRITICAL", 50),
    ("FATAL", 50), ("NOTSET", 0)]

/-- The name of the format in which lines are written by default. It shares its scope with the names
of levels. -/
def formatName : String := "BASIC_FORMAT"

/-- The number of a level by its name in any case. A name without a meaning stands for `INFO`; the
name of a format stands for no level. -/
def numberOf? (name : String) : Option Int :=
  if upper name = formatName then none
  else some (((names.find? fun (n, _) => n = upper name).map (·.2)).getD 20)

def nameOf (number : Int) : String :=
  if number = 0 then "NOTSET"
  else if number = 10 then "DEBUG"
  else if number = 20 then "INFO"
  else if number = 30 then "WARNING"
  else if number = 40 then "ERROR"
  else if number = 50 then "CRITICAL"
  else "Level " ++ Text.ofInt number

end MailRules.Log
