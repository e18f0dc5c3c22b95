import MailRules.Native.Document

/-!
Local and remote filters sorted out for a merge.

Filters with one content on both sides are matched. Of the others, filters with the same criteria
are conflicts, paired in their order, and the rest are on one side only.
-/

namespace MailRules.Native

/-- Filters with the same criteria and different actions. -/
structure Conflict where
  localFilter : Filter
  remote : Filter

/-- Filters sorted out for a merge. -/
structure Categories where
  matched : List Filter
  localOnly : List Filter
  remoteOnly : List Filter
  conflicts : List Conflict

/-- Takes out the first filter under a key. -/
def takeFirst? (key : String) :
    List (String × Filter) → Option (Filter × List (String × Filter))
  | [] => none
  | (k, f) :: fs =>
    if k = key then some (f, fs)
    else (takeFirst? key fs).map fun (g, rest) => (g, (k, f) :: rest)

/-- Pairs filters with filters of another list under the same key, each with the first one left. The
filters of either list that are left over keep their order. -/
def pairUp : List (String × Filter) → List (String × Filter) →
    List Conflict × List Filter × List Filter
  | [], remote => ([], [], remote.map (·.2))
  | (key, f) :: fs, remote =>
    match takeFirst? key remote with
    | some (g, rest) =>
      let (conflicts, localOnly, remoteOnly) := pairUp fs rest
      (⟨f, g⟩ :: conflicts, localOnly, remoteOnly)
    | none =>
      let (conflicts, localOnly, remoteOnly) := pairUp fs remote
      (conflicts, f :: localOnly, remoteOnly)

def byCriteria (fs : List Filter) : List (String × Filter) := fs.map fun f => (f.criteria.hash, f)

/-- The filters of one list whose content is, or is not, in another. -/
def sharing (present : Bool) (fs others : List (String × Filter)) : List Filter :=
  (fs.filter fun f => (others.any fun g => g.1 = f.1) = present).map (·.2)

/-- Local and remote filters sorted out for a merge, each content counted once on a side. -/
def categorize (localFilters remote : List Filter) : Categories :=
  let ls := distinct localFilters
  let rs := distinct remote
  let (conflicts, localOnly, remoteOnly) :=
    pairUp (byCriteria (sharing false ls rs)) (byCriteria (sharing false rs ls))
  ⟨sharing true ls rs, localOnly, remoteOnly, conflicts⟩

end MailRules.Native
