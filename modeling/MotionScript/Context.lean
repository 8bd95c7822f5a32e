import MotionScript.Environment
import MotionScript.Number.Decimal
import MotionScript.Random
import MotionScript.MissLog
/-!
# Contexts

A context is what one instance evaluates in: its own values in the four scopes and its own random
numbers.  It shares two things with others, a log of unbound names and the sources of the host
behind queries that are read anew each time; a `Session` is a context together with these.
-/

namespace MotionScript

/-- What the host put behind a query. -/
inductive Provider where
  | fixed (value : Float32)
  /-- A source of the host, by its number, which is read at every look-up. -/
  | live (source : Nat)

namespace Provider

/-- Numbers from `0.0001` up to ten quadrillion have no exponent, and have a digit behind the
point.  A tie goes up, as in plain notation. -/
def numberLayout : Decimal.Layout where
  tie := .up
  positional point := -3 ≤ point && point ≤ 16
  keepsFraction := true
  plus := ""

/-- What is behind a query, for the eyes of a developer. -/
def text : Provider → String
  | .fixed value => "Fixed(" ++ Single.text numberLayout value ++ ")"
  | .live _ => "Accessor(..)"

end Provider

/-- A value of the host that may change from one reading to the next. -/
structure Source where
  /-- The value of each reading, counted from zero. -/
  value : Nat → Float32
  /-- How often the source was read. -/
  reads : Nat

abbrev Host := List Source

/-- Reads a source; a source that does not exist reads as zero. -/
def Host.read (host : Host) (source : Nat) : Float32 × Host :=
  match host[source]? with
  | some found => (found.value found.reads, host.set source { found with reads := found.reads + 1 })
  | none => (0, host)

/-- The values and random numbers of one instance. -/
structure Context where
  variableValues : Table String Float32
  queries : Table String Provider
  tempValues : Table String Float32
  contextValues : Table String Float32
  random : Random

namespace Context

def ofSeed (seed : UInt64) : Context :=
  ⟨∅, ∅, ∅, ∅, ⟨seed⟩⟩

def withVariable (context : Context) (name : String) (value : Float32) : Context :=
  { context with variableValues := context.variableValues.insert name value }

def withQuery (context : Context) (name : String) (value : Provider) : Context :=
  { context with queries := context.queries.insert name value }

def withTemp (context : Context) (name : String) (value : Float32) : Context :=
  { context with tempValues := context.tempValues.insert name value }

def withContext (context : Context) (name : String) (value : Float32) : Context :=
  { context with contextValues := context.contextValues.insert name value }

def takeQuery (context : Context) (name : String) : Option Provider × Context :=
  (context.queries.get? name, { context with queries := context.queries.erase name })

def withoutVariables (context : Context) : Context :=
  { context with variableValues := ∅ }

def withoutTemps (context : Context) : Context :=
  { context with tempValues := ∅ }

def reseed (context : Context) (seed : UInt64) : Context :=
  { context with random := ⟨seed⟩ }

/-- Stores the result of an assignment; only variables and temps can be written. -/
def assign (context : Context) (scope : Scope) (name : String) (value : Float32) : Context :=
  match scope with
  | .variable => context.withVariable name value
  | .temp => context.withTemp name value
  | .query | .context => context

def drawRandom (context : Context) : Float32 × Context :=
  let (sample, random) := context.random.nextUnit
  (sample, { context with random })

end Context

/-- A context with the log it reports to and the host it reads from. -/
structure Session where
  context : Context
  log : MissLog
  host : Host

namespace Session

def readQuery : Provider → StateM Session Float32
  | .fixed value => return value
  | .live source => do
    let session ← get
    let (value, host) := session.host.read source
    set { session with host }
    return value

/-- The value of a name in a session, if it has one. -/
def resolve (scope : Scope) (name : String) : StateM Session (Option Float32) := do
  let context := (← get).context
  match scope with
  | .variable => return context.variableValues.get? name
  | .temp => return context.tempValues.get? name
  | .context => return context.contextValues.get? name
  | .query =>
    match context.queries.get? name with
    | some value => return some (← readQuery value)
    | none => return none

def addSource (value : Nat → Float32) : StateM Session Nat := do
  let session ← get
  let source : Source := ⟨value, 0⟩
  set { session with host := session.host ++ [source] }
  return session.host.length

def modifyContext (change : Context → Context) : StateM Session Unit :=
  modify fun session => { session with context := change session.context }

instance : Environment (StateM Session) where
  resolve := resolve
  assign scope name value := modifyContext (·.assign scope name value)
  drawSample := do
    let session ← get
    let (sample, context) := session.context.drawRandom
    set { session with context }
    return sample
  reportMiss scope name :=
    modify fun session => { session with log := (session.log.record (scope, name)).2 }
  reportOverflow := return ()
  prepare := modifyContext Context.withoutTemps

end Session

/-- Random numbers and a log, without a value for any name. -/
structure Isolated where
  random : Random
  log : MissLog

/-- Expressions that depend on constants alone need no context: every name is unbound and nothing is
stored. -/
instance : Environment (StateM Isolated) where
  resolve _ _ := return none
  assign _ _ _ := return ()
  drawSample := do
    let isolated ← get
    let (sample, random) := isolated.random.nextUnit
    set { isolated with random }
    return sample
  reportMiss scope name :=
    modify fun isolated => { isolated with log := (isolated.log.record (scope, name)).2 }
  reportOverflow := return ()
  prepare := return ()

end MotionScript
