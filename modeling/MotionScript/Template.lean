import MotionScript.Expr.Simplify
import MotionScript.Options
/-!
# Templates

A template is an expression that any number of instances share.  Templates are told apart by a
serial number, so that two of them can be the same one and not only equal.  A cache keeps the
template of every text that was compiled, one with and one without simplification.
-/

namespace MotionScript

structure Template where
  expr : Expr
  serial : Nat

structure TemplateCache where
  options : ParseOptions
  simplified : Table String Template
  raw : Table String Template
  /-- The serial number of the next template. -/
  nextSerial : Nat

/-- A step of loading: it may fail, and what it has put into the cache stays there. -/
abbrev Loading := ExceptT LoadError (StateM TemplateCache)

namespace TemplateCache

def ofOptions (options : ParseOptions) : TemplateCache :=
  ⟨options, ∅, ∅, 0⟩

def size (cache : TemplateCache) : Nat :=
  cache.simplified.size + cache.raw.size

def clear (cache : TemplateCache) : TemplateCache :=
  { cache with simplified := ∅, raw := ∅ }

def table (cache : TemplateCache) (simplify : Bool) : Table String Template :=
  if simplify then cache.simplified else cache.raw

/-- Keeps a template for a text. -/
def keep (cache : TemplateCache) (source : String) (simplify : Bool) (template : Template) :
    TemplateCache :=
  if simplify then { cache with simplified := cache.simplified.insert source template }
  else { cache with raw := cache.raw.insert source template }

end TemplateCache

namespace Template

/-- The expression of a text, without looking at the cache. -/
def exprOf (options : ParseOptions) (source : String) (simplify : Bool) : Except LoadError Expr :=
  (Expr.parseWithin options.maxDepth source).map fun e => if simplify then e.simplify else e

def create (e : Expr) : Loading Template := do
  let cache ← get
  set { cache with nextSerial := cache.nextSerial + 1 }
  return ⟨e, cache.nextSerial⟩

/-- A new template for a text, which the cache does not keep. -/
def compileFresh (source : String) (simplify : Bool) : Loading Template := do
  let e ← exprOf (← get).options source simplify
  create e

def compileAs (source : String) (simplify : Bool) : Loading Template := do
  let cache ← get
  if cache.options.cache then
    match (cache.table simplify).get? source with
    | some template => return template
    | none =>
      let template ← compileFresh source simplify
      modify (·.keep source simplify template)
      return template
  else
    compileFresh source simplify

/-- The template of a text, simplified as the options say. -/
def compile (source : String) : Loading Template := do
  compileAs source (← get).options.simplify

def constant (value : Float32) : Loading Template :=
  create (.constant value)

end Template

end MotionScript
