import MotionScript.Context
/-!
# Families of contexts

A family is any number of contexts with the logs that they report to and the host that they all read
from.  Several of them may share one log.  Whatever a member does, it does as a session of its own
context, its log and the host.
-/

namespace MotionScript

/-- A context with the number of the log that it reports to. -/
structure Member where
  context : Context
  log : Nat

structure Family where
  members : List Member
  logs : List MissLog
  host : Host

namespace Family

def ofSession (session : Session) : Family :=
  ⟨[⟨session.context, 0⟩], [session.log], session.host⟩

def session? (family : Family) (index : Nat) : Option Session := do
  let member ← family.members[index]?
  let log ← family.logs[member.log]?
  return ⟨member.context, log, family.host⟩

def putSession (family : Family) (index : Nat) (session : Session) : Family :=
  match family.members[index]? with
  | some member => {
      members := family.members.set index { member with context := session.context }
      logs := family.logs.set member.log session.log
      host := session.host }
  | none => family

/-- Does something as a member, if there is such a member. -/
def act {β : Type} (index : Nat) (action : StateM Session β) : StateM Family (Option β) := do
  let family ← get
  match family.session? index with
  | some session =>
    let (result, session) := action.run session
    set (family.putSession index session)
    return some result
  | none => return none

/-- Adds a context that reports to the log of a member, and gives its position. -/
def join (index : Nat) (context : Context) : StateM Family (Option Nat) := do
  let family ← get
  match family.members[index]? with
  | some member =>
    set { family with members := family.members ++ [{ member with context }] }
    return some family.members.length
  | none => return none

/-- Adds another context with the values of a member, which reports to the same log. -/
def clone (index : Nat) : StateM Family (Option Nat) := do
  match (← get).members[index]? with
  | some member => join index member.context
  | none => return none

/-- Gives a member a log of its own. -/
def renewLog (index : Nat) (log : MissLog) : StateM Family Unit :=
  modify fun family =>
    match family.members[index]? with
    | some member => { family with
        members := family.members.set index { member with log := family.logs.length }
        logs := family.logs ++ [log] }
    | none => family

end Family

end MotionScript
