import ImapProbe.Profile.Basic

/-!
# Rosters

A roster is a table of profiles that is not empty and whose identifiers are not empty, differ from
each other and from `all`, the word that chooses the whole table. So every profile can be chosen,
and no other profile stands before it.
-/

namespace ImapProbe

def everyProfile : String := "all"

inductive RosterFault where
  | noProfile
  | nameless
  | reservedName
  | twice (id : String)
  | unknown (target : String) (known : List String)
  deriving DecidableEq, Repr

def RosterFault.message : RosterFault → String
  | .noProfile => "no server profile is registered"
  | .nameless => "a server profile has an empty identifier"
  | .reservedName => "`" ++ everyProfile ++ "` is reserved to select every profile"
  | .twice id => "server profile `" ++ id ++ "` is registered twice"
  | .unknown target known =>
    "unknown server profile `" ++ target ++ "`, expected `" ++ everyProfile
      ++ "` or one of: " ++ ", ".intercalate known

structure Roster where
  profiles : List Profile
  deriving DecidableEq, Repr

namespace Roster

/-- The first fault of the profiles that follow those with the identifiers `seen`. -/
def fault? (seen : List String) : List Profile → Option RosterFault
  | [] => none
  | p :: rest =>
    if p.id = "" then some .nameless
    else if p.id = everyProfile then some .reservedName
    else if p.id ∈ seen then some (.twice p.id)
    else fault? (p.id :: seen) rest

/-- The roster of a table that may be one. -/
def ofProfiles (profiles : List Profile) : Except RosterFault Roster :=
  if profiles.isEmpty then .error .noProfile
  else match fault? [] profiles with
    | some e => .error e
    | none => .ok ⟨profiles⟩

def get? (r : Roster) (id : String) : Option Profile := r.profiles.find? (·.id == id)

/-- The profiles a target names: all, in the order of the table, or one. -/
def choose (r : Roster) (target : String) : Except RosterFault (List Profile) :=
  if target = everyProfile then .ok r.profiles
  else match r.get? target with
    | some p => .ok [p]
    | none => .error (.unknown target (r.profiles.map (·.id)))

end Roster

end ImapProbe
