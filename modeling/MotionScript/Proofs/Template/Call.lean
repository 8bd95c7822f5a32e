import MotionScript.Template
/-!
# Calls of a template cache

What can be asked of a cache, and what comes of it.  A call through the cache finds a template, or
makes one, which the cache keeps if it is in use, or fails.  All that a call can do is said once
here, in `Step`.
-/

namespace MotionScript

/-- A text, and whether its expression is simplified. -/
abbrev TemplateKey := String × Bool

namespace TemplateCache

/-! ### Calls -/

/-- What can be asked of a cache. -/
inductive Call where
  | compile (source : String)
  | compileAs (source : String) (simplify : Bool)
  | compileFresh (source : String) (simplify : Bool)
  | constant (value : Float32)
  | clear

namespace Call

/-- What a call does; only clearing gives no template. -/
def perform : Call → Loading (Option Template)
  | .compile source => some <$> Template.compile source
  | .compileAs source simplify => some <$> Template.compileAs source simplify
  | .compileFresh source simplify => some <$> Template.compileFresh source simplify
  | .constant value => some <$> Template.constant value
  | .clear => do
    modify TemplateCache.clear
    return none

/-- The answer to a call, and the cache that it leaves. -/
def answer (call : Call) (cache : TemplateCache) :
    Except LoadError (Option Template) × TemplateCache :=
  call.perform.run.run cache

/-- The text that a call compiles through the cache, and whether it is simplified. -/
def key? (options : ParseOptions) : Call → Option TemplateKey
  | .compile source => some (source, options.simplify)
  | .compileAs source simplify => some (source, simplify)
  | _ => none

/-- The key under which the cache keeps the template of a call. -/
def keptKey? (options : ParseOptions) (call : Call) : Option TemplateKey :=
  if options.cache then call.key? options else none

def isClear : Call → Bool
  | .clear => true
  | _ => false

theorem keptKey?_eq_some_iff {options : ParseOptions} {call : Call} {key : TemplateKey} :
    call.keptKey? options = some key ↔ options.cache = true ∧ call.key? options = some key := by
  simp [keptKey?]

theorem key?_of_isClear {call : Call} (hclear : call.isClear = true) {options : ParseOptions} :
    call.key? options = none := by
  cases call with
  | clear => rfl
  | _ => cases hclear

end Call

def run (cache : TemplateCache) (calls : List Call) : TemplateCache :=
  calls.foldl (fun cache call => (call.answer cache).2) cache

def after (options : ParseOptions) (calls : List Call) : TemplateCache :=
  (ofOptions options).run calls

def lookup (cache : TemplateCache) (key : TemplateKey) : Option Template :=
  (cache.table key.2).get? key.1

def exprOf (options : ParseOptions) (key : TemplateKey) : Except LoadError Expr :=
  Template.exprOf options key.1 key.2

/-! ### What a call does to a cache -/

/-- A cache that has given out one more template. -/
def issued (cache : TemplateCache) : TemplateCache :=
  { cache with nextSerial := cache.nextSerial + 1 }

/-- The five things that can come of a call. -/
inductive Step (cache : TemplateCache) (call : Call) :
    Except LoadError (Option Template) → TemplateCache → Prop
  | failed {error : LoadError} : call.isClear = false →
      (∀ key, call.key? cache.options = some key → exprOf cache.options key = .error error) →
      Step cache call (.error error) cache
  | found {key : TemplateKey} {template : Template} :
      call.isClear = false → call.keptKey? cache.options = some key →
      cache.lookup key = some template → Step cache call (.ok (some template)) cache
  | created {e : Expr} : call.isClear = false → call.keptKey? cache.options = none →
      (∀ key, call.key? cache.options = some key → exprOf cache.options key = .ok e) →
      Step cache call (.ok (some ⟨e, cache.nextSerial⟩)) cache.issued
  | kept {key : TemplateKey} {e : Expr} :
      call.isClear = false → call.keptKey? cache.options = some key →
      cache.lookup key = none → exprOf cache.options key = .ok e →
      Step cache call (.ok (some ⟨e, cache.nextSerial⟩))
        (cache.issued.keep key.1 key.2 ⟨e, cache.nextSerial⟩)
  | cleared : call.isClear = true → Step cache call (.ok none) cache.clear

/-- A template that is not kept is made from the expression of its text. -/
theorem run_compileFresh (cache : TemplateCache) (source : String) (simplify : Bool) :
    (Template.compileFresh source simplify).run.run cache =
      match exprOf cache.options (source, simplify) with
      | .error error => (.error error, cache)
      | .ok e => (.ok ⟨e, cache.nextSerial⟩, cache.issued) := by
  have hrun : (Template.compileFresh source simplify).run.run cache =
      ((liftM (exprOf cache.options (source, simplify)) : Loading Expr) >>=
        Template.create).run.run cache := rfl
  rw [hrun]
  cases exprOf cache.options (source, simplify) <;> rfl

theorem run_bind_eq_match {α β : Type} (step : Loading α) (next : α → Loading β)
    (cache : TemplateCache) :
    (step >>= next).run.run cache =
      match step.run.run cache with
      | (.ok value, cache) => (next value).run.run cache
      | (.error error, cache) => (.error error, cache) := by
  have hrun : (step >>= next).run.run cache =
      (ExceptT.bindCont next (step.run.run cache).1).run (step.run.run cache).2 := rfl
  rw [hrun]
  obtain ⟨outcome, left⟩ := step.run.run cache
  cases outcome <;> rfl

/-- A text that is compiled through the cache is compiled afresh only if nothing is kept for it. -/
theorem run_compileAs (cache : TemplateCache) (source : String) (simplify : Bool) :
    (Template.compileAs source simplify).run.run cache =
      if cache.options.cache then
        match cache.lookup (source, simplify) with
        | some template => (.ok template, cache)
        | none =>
          match exprOf cache.options (source, simplify) with
          | .error error => (.error error, cache)
          | .ok e => (.ok ⟨e, cache.nextSerial⟩,
              cache.issued.keep source simplify ⟨e, cache.nextSerial⟩)
      else (Template.compileFresh source simplify).run.run cache := by
  have hrun : (Template.compileAs source simplify).run.run cache =
      (if cache.options.cache then
        match cache.lookup (source, simplify) with
        | some template => pure template
        | none => do
          let template ← Template.compileFresh source simplify
          modify (·.keep source simplify template)
          return template
      else Template.compileFresh source simplify : Loading Template).run.run cache := rfl
  rw [hrun]
  by_cases hcache : cache.options.cache = true
  · simp only [if_pos hcache]
    cases hlookup : cache.lookup (source, simplify) with
    | some template => rfl
    | none =>
        simp only [run_bind_eq_match, run_compileFresh]
        cases exprOf cache.options (source, simplify) <;> rfl
  · simp only [if_neg hcache]

/-- A step that gives a template, as one that may give a template. -/
theorem run_map_some (step : Loading Template) (cache : TemplateCache) :
    (some <$> step).run.run cache =
      match step.run.run cache with
      | (.ok template, cache) => (.ok (some template), cache)
      | (.error error, cache) => (.error error, cache) := by
  have hmap : some <$> step = step >>= fun template => pure (some template) := rfl
  rw [hmap, run_bind_eq_match]
  obtain ⟨outcome, left⟩ := step.run.run cache
  cases outcome <;> rfl

/-- A call that compiles through the cache finds a template, makes one or fails. -/
theorem step_compileAs {cache : TemplateCache} {call : Call} {source : String} {simplify : Bool}
    (hclear : call.isClear = false) (hkey : call.key? cache.options = some (source, simplify))
    (hanswer : call.answer cache =
      (some <$> Template.compileAs source simplify).run.run cache) :
    Step cache call (call.answer cache).1 (call.answer cache).2 := by
  have hexpr {outcome : Except LoadError Expr}
      (houtcome : exprOf cache.options (source, simplify) = outcome) :
      ∀ key, call.key? cache.options = some key → exprOf cache.options key = outcome := by
    intro key hother
    rw [hkey] at hother
    cases hother
    exact houtcome
  rw [hanswer, run_map_some, run_compileAs]
  by_cases hcache : cache.options.cache = true
  · have hkept : call.keptKey? cache.options = some (source, simplify) := by
      rw [Call.keptKey?, if_pos hcache, hkey]
    rw [if_pos hcache]
    cases hlookup : cache.lookup (source, simplify) with
    | some template => exact .found hclear hkept hlookup
    | none =>
        cases houtcome : exprOf cache.options (source, simplify) with
        | error error => exact .failed hclear (hexpr houtcome)
        | ok e => exact .kept hclear hkept hlookup houtcome
  · have hkept : call.keptKey? cache.options = none := by rw [Call.keptKey?, if_neg hcache]
    rw [if_neg hcache, run_compileFresh]
    cases houtcome : exprOf cache.options (source, simplify) with
    | error error => exact .failed hclear (hexpr houtcome)
    | ok e => exact .created hclear hkept (hexpr houtcome)

/-- What a call does to the cache is one of the steps. -/
theorem step_answer (cache : TemplateCache) (call : Call) :
    Step cache call (call.answer cache).1 (call.answer cache).2 := by
  cases call with
  | compile source => exact step_compileAs rfl rfl rfl
  | compileAs source simplify => exact step_compileAs rfl rfl rfl
  | compileFresh source simplify =>
      have hkept : (Call.compileFresh source simplify).keptKey? cache.options = none := by
        simp [Call.keptKey?, Call.key?]
      rw [Call.answer, Call.perform, run_map_some, run_compileFresh]
      cases exprOf cache.options (source, simplify) with
      | error error => exact .failed rfl fun _ hkey => nomatch hkey
      | ok e => exact .created rfl hkept fun _ hkey => nomatch hkey
  | constant value =>
      have hkept : (Call.constant value).keptKey? cache.options = none := by
        simp [Call.keptKey?, Call.key?]
      exact .created rfl hkept fun _ hkey => nomatch hkey
  | clear => exact .cleared rfl

end TemplateCache

end MotionScript
