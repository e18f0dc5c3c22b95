import MailRules.Condition.Matcher
import MailRules.Config.Resolve
import MailRules.Config.Writer
import MailRules.Text.UnifiedDiff
import MailRules.Text.Whitespace

/-!
Trying rules on sample messages.

All matching rules apply, so their actions are merged (`Actions.merge`), which fails if they
disagree. A trial passes if every message gets the actions it should, the labels being compared as
sets. Rules whose conditions cannot be interpreted are left out and told as errors.
-/

namespace MailRules

/-- Why actions cannot be merged. -/
inductive ConflictError where
  | differ (action first second : String)
  | amongRules (cause : ConflictError)

namespace ConflictError

def message : ConflictError → String
  | differ action first second =>
    "'" ++ action ++ "' is applied differently: got " ++ first ++ " and " ++ second
  | amongRules cause => "conflicting filters detected: " ++ cause.message

def details : ConflictError → Json.Fields
  | differ action _ _ => [("action", .str action)]
  | amongRules cause => cause.details

instance : Fault ConflictError := ⟨message, details⟩

end ConflictError

/-- Two optional values that may not differ if both are there. -/
def mergeValue {α : Type} [DecidableEq α] (name : String) (shown : α → String) :
    Option α → Option α → Except ConflictError (Option α)
  | none, b => .ok b
  | a, none => .ok a
  | some a, some b => if a = b then .ok (some a) else .error (.differ name (shown a) (shown b))

def shownFlag (b : Bool) : String := if b then "True" else "False"

/-- A text that says something. -/
def someText (s : String) : Option String := if s = "" then none else some s

/-- A list in which equal neighbours are kept once. -/
def once : List String → List String
  | [] => []
  | [s] => [s]
  | s :: t :: rest => if s = t then once (t :: rest) else s :: once (t :: rest)

def sortedTexts (ss : List String) : List String := once (ss.mergeSort fun a b => decide (a ≤ b))

namespace Actions

/-- The actions of two rules that match one message. -/
def merge (a b : Actions) : Except ConflictError Actions := do
  let markSpam ← mergeValue "markSpam" shownFlag a.markSpam b.markSpam
  let markImportant ← mergeValue "markImportant" shownFlag a.markImportant b.markImportant
  let category ← mergeValue "category" Category.name a.category b.category
  let forward ← mergeValue "forward" id (someText a.forward) (someText b.forward)
  return {
    archive := a.archive || b.archive
    delete := a.delete || b.delete
    markRead := a.markRead || b.markRead
    star := a.star || b.star
    markSpam, markImportant, category
    labels := sortedTexts (a.labels ++ b.labels)
    forward := forward.getD "" }

/-- Whether two actions do the same; labels are compared as sets. -/
def same (a b : Actions) : Bool :=
  { a with labels := sortedTexts a.labels } = { b with labels := sortedTexts b.labels }

end Actions

/-- A rule that can be tried on messages. -/
structure TrialRule where
  matcher : Matcher
  actions : Actions

/-- The rules that can be tried, and an error for each of the others. -/
def TrialRule.ofRules (rules : List ResolvedRule) : List TrialRule × List MatcherError :=
  collect (fun i (r : ResolvedRule) =>
    match r.condition.matcher with
    | .ok m => .ok (TrialRule.mk m r.actions)
    | .error e => .error (.inRule i r.condition e)) 0 rules

/-- The actions that rules apply to a message beside those given. -/
def actionsFrom (m : Message) (sofar : Actions) : List TrialRule → Except ConflictError Actions
  | [] => .ok sofar
  | r :: rs =>
    if r.matcher.accepts m then
      match sofar.merge r.actions with
      | .ok a => actionsFrom m a rs
      | .error e => .error (.amongRules e)
    else actionsFrom m sofar rs

/-- The actions that rules apply to a message. -/
def matchingActions (rules : List TrialRule) (m : Message) : Except ConflictError Actions :=
  actionsFrom m {} rules

/-- What went wrong with a message of a trial. -/
inductive TrialError where
  | conflict (index : Nat) (message : Message) (cause : ConflictError)
  | unexpected (index : Nat) (message : Message) (wanted got : Actions) (context : Int)

namespace TrialError

/-- A document for people to read. -/
def shown (w : Document.Written) : String := w.brief.pretty

/-- The diff between the actions a message should get and those it gets. -/
def actionsDiff (wanted got : Actions) (context : Int) : String :=
  Text.unifiedDiff "want" "got" context (Text.lines (shown wanted.written))
    (Text.lines (shown got.written))

def message : TrialError → String
  | conflict index m cause =>
    "message #" ++ Text.ofNat index ++ ": error evaluating matching filters: " ++ cause.message
      ++ "\nMessage: " ++ shown m.written
  | unexpected index m wanted got context =>
    "message #" ++ Text.ofNat index ++ " is going to get unexpected actions: "
      ++ Text.trimmed (shown got.written) ++ "\nMessage: " ++ shown m.written ++ "Actions:\n"
      ++ Text.trimmedEnd (actionsDiff wanted got context)

def details : TrialError → Json.Fields
  | conflict index m _ => [("message_index", .ofNat index), ("message", m.written.brief)]
  | unexpected index m wanted got context =>
    [("message_index", .ofNat index), ("message", m.written.brief),
      ("actions_diff", .str (actionsDiff wanted got context))]

instance : Fault TrialError := ⟨message, details⟩

end TrialError

namespace Trial

/-- What goes wrong with a message, if anything. -/
def tryMessage (rules : List TrialRule) (context : Int) (wanted : Actions) (index : Nat)
    (m : Message) : Option TrialError :=
  match matchingActions rules m with
  | .error e => some (.conflict index m e)
  | .ok got => if got.same wanted then none else some (.unexpected index m wanted got context)

/-- The errors of a trial, one for each message that does not get the actions it should. -/
def errors (rules : List TrialRule) (context : Int) (t : Trial) : List TrialError :=
  t.messages.zipIdx.filterMap fun (m, i) => tryMessage rules context t.actions i m

end Trial

structure FailedTrial where
  index : Nat
  name : String
  errors : List TrialError

structure TrialReport where
  count : Nat
  failed : List FailedTrial

/-- The outcome of trials of rules. -/
def TrialReport.of (rules : List TrialRule) (context : Int) (trials : List Trial) :
    TrialReport where
  count := trials.length
  failed := trials.zipIdx.filterMap fun (t, i) =>
    match t.errors rules context with
    | [] => none
    | es => some ⟨i, t.name, es⟩

def TrialReport.ok (r : TrialReport) : Bool := r.failed.isEmpty

def FailedTrial.text (t : FailedTrial) : String :=
  let name := if t.name = "" then "#" ++ Text.ofNat t.index else t.name
  let errors := match Failure.ofErrors t.errors with
    | none => ""
    | some f => f.message
  "\nFailed test \"" ++ name ++ "\":\n" ++ errors ++ "\n"

def TrialReport.text (r : TrialReport) : String :=
  let count := Text.ofNat r.count
  if r.ok then "Success: " ++ count ++ "/" ++ count
  else "Failed: " ++ Text.ofNat r.failed.length ++ "/" ++ count ++ "\n"
    ++ String.join (r.failed.map (·.text))

end MailRules
