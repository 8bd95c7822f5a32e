/-!
# Scopes

A name is read and written in one of four scopes.  A scope is spelled out in source text by a word
or by the word's first letter, and expressions may write to two of the four.
-/

namespace MotionScript

inductive Scope where
  /-- Values that an instance keeps from one pass to the next. -/
  | variable
  /-- Facts that the host supplies. -/
  | query
  /-- Scratch values of one pass. -/
  | temp
  /-- Arguments that specialize a template. -/
  | context
deriving DecidableEq

namespace Scope

def all : List Scope :=
  [.variable, .query, .temp, .context]

/-- The word that stands before the dot. -/
def keyword : Scope → String
  | .variable => "variable"
  | .query => "query"
  | .temp => "temp"
  | .context => "context"

/-- The one-letter word that may stand for the scope. -/
def letter : Scope → String
  | .variable => "v"
  | .query => "q"
  | .temp => "t"
  | .context => "c"

/-- The scope that a word or a letter stands for. -/
def ofKeyword? (word : String) : Option Scope :=
  all.find? fun scope => word == scope.keyword || word == scope.letter

def isWritable : Scope → Bool
  | .variable | .temp => true
  | .query | .context => false

theorem ofKeyword?_keyword (scope : Scope) : ofKeyword? scope.keyword = some scope := by
  cases scope <;> decide

end Scope

end MotionScript
