import Mathlib.Data.List.DropRight
import Mathlib.Data.Finset.Card
import Mathlib.Data.Finset.Dedup
import MotionScript.Proofs.Template.Call
/-!
# The cache of templates

A cache is a shortcut: whatever was asked of it before, a text has the expression that it has
without a cache.  What the cache adds is identity.  A template that is kept under a text is given
out again for this text, for no other, and until the cache is cleared.
-/

namespace MotionScript.TemplateCache

/-! ### What is kept -/

@[simp]
theorem lookup_issued (cache : TemplateCache) (key : TemplateKey) :
    cache.issued.lookup key = cache.lookup key := rfl

@[simp]
theorem lookup_clear (cache : TemplateCache) (key : TemplateKey) :
    cache.clear.lookup key = none := by
  obtain ⟨source, simplify⟩ := key
  cases simplify <;> rfl

theorem lookup_keep (cache : TemplateCache) (key other : TemplateKey) (template : Template) :
    (cache.keep key.1 key.2 template).lookup other =
      if key = other then some template else cache.lookup other := by
  obtain ⟨source, simplify⟩ := key
  obtain ⟨otherSource, otherSimplify⟩ := other
  cases simplify <;> cases otherSimplify <;>
    simp [lookup, table, keep, Table.get?_insert]

theorem options_keep (cache : TemplateCache) (source : String) (simplify : Bool)
    (template : Template) : (cache.keep source simplify template).options = cache.options := by
  cases simplify <;> rfl

theorem nextSerial_keep (cache : TemplateCache) (source : String) (simplify : Bool)
    (template : Template) :
    (cache.keep source simplify template).nextSerial = cache.nextSerial := by
  cases simplify <;> rfl

/-- The keys under which a template is kept. -/
def keys (cache : TemplateCache) : List TemplateKey :=
  cache.simplified.keys.map (·, true) ++ cache.raw.keys.map (·, false)

theorem mem_keys_iff (cache : TemplateCache) (key : TemplateKey) :
    key ∈ cache.keys ↔ cache.lookup key ≠ none := by
  obtain ⟨source, simplify⟩ := key
  cases simplify <;> simp [keys, lookup, table, Table.get?_eq_none_iff]

theorem length_keys (cache : TemplateCache) : cache.keys.length = cache.size := by
  simp [keys, size, Table.keys, Table.size]

/-- What holds of a cache after any calls. -/
structure Sound (options : ParseOptions) (cache : TemplateCache) : Prop where
  options_eq : cache.options = options
  expr_eq {key : TemplateKey} {template : Template} : cache.lookup key = some template →
    exprOf options key = .ok template.expr
  serial_lt {key : TemplateKey} {template : Template} : cache.lookup key = some template →
    template.serial < cache.nextSerial
  key_eq {key other : TemplateKey} {template copy : Template} :
    cache.lookup key = some template → cache.lookup other = some copy →
    template.serial = copy.serial → key = other
  nodup_simplified : cache.simplified.keys.Nodup
  nodup_raw : cache.raw.keys.Nodup

namespace Sound

variable {options : ParseOptions} {cache : TemplateCache}

theorem of_clear (cache : TemplateCache) : Sound cache.options cache.clear where
  options_eq := rfl
  expr_eq hlookup := by simp at hlookup
  serial_lt hlookup := by simp at hlookup
  key_eq hlookup := by simp at hlookup
  nodup_simplified := List.nodup_nil
  nodup_raw := List.nodup_nil

theorem issued (hsound : Sound options cache) : Sound options cache.issued where
  options_eq := hsound.options_eq
  expr_eq := hsound.expr_eq
  serial_lt hlookup := Nat.lt_succ_of_lt (hsound.serial_lt hlookup)
  key_eq := hsound.key_eq
  nodup_simplified := hsound.nodup_simplified
  nodup_raw := hsound.nodup_raw

/-- The template that was given out last may be kept. -/
theorem keep (hsound : Sound options cache) {key : TemplateKey} {e : Expr}
    (hexpr : exprOf options key = .ok e) :
    Sound options (cache.issued.keep key.1 key.2 ⟨e, cache.nextSerial⟩) where
  options_eq := by rw [options_keep, ← hsound.options_eq, TemplateCache.issued]
  expr_eq {other template} hlookup := by
    rw [lookup_keep] at hlookup
    split at hlookup
    next hkey =>
      cases hlookup
      exact hkey ▸ hexpr
    next => exact hsound.expr_eq hlookup
  serial_lt {other template} hlookup := by
    rw [nextSerial_keep]
    rw [lookup_keep] at hlookup
    split at hlookup
    next =>
      cases hlookup
      exact Nat.lt_succ_self _
    next => exact Nat.lt_succ_of_lt (hsound.serial_lt hlookup)
  key_eq {first second template copy} hfirst hsecond hserial := by
    -- A template that was kept before has a smaller serial number than the one kept now.
    have hold {other : TemplateKey} {template : Template}
        (hlookup : cache.lookup other = some template) : template.serial ≠ cache.nextSerial :=
      (hsound.serial_lt hlookup).ne
    rw [lookup_keep] at hfirst hsecond
    split at hfirst <;> split at hsecond
    next hfirstKey hsecondKey => exact hfirstKey.symm.trans hsecondKey
    next =>
      cases hfirst
      exact absurd hserial.symm (hold hsecond)
    next =>
      cases hsecond
      exact absurd hserial (hold hfirst)
    next => exact hsound.key_eq hfirst hsecond hserial
  nodup_simplified := by
    rw [TemplateCache.keep]
    split
    · exact Table.nodup_keys_insert hsound.nodup_simplified _ _
    · exact hsound.nodup_simplified
  nodup_raw := by
    rw [TemplateCache.keep]
    split
    · exact hsound.nodup_raw
    · exact Table.nodup_keys_insert hsound.nodup_raw _ _

/-- Every step keeps a cache sound, also one that fails. -/
theorem step (hsound : Sound options cache) {call : Call}
    {outcome : Except LoadError (Option Template)} {next : TemplateCache}
    (hstep : Step cache call outcome next) : Sound options next := by
  cases hstep with
  | failed => exact hsound
  | found => exact hsound
  | created => exact hsound.issued
  | kept hclear hkept hlookup hexpr => exact hsound.keep (hsound.options_eq ▸ hexpr)
  | cleared => exact hsound.options_eq ▸ of_clear cache

theorem run (hsound : Sound options cache) (calls : List Call) :
    Sound options (cache.run calls) := by
  induction calls generalizing cache with
  | nil => exact hsound
  | cons call calls ih => exact ih (hsound.step (step_answer cache call))

theorem after (options : ParseOptions) (calls : List Call) : Sound options (after options calls) :=
  (of_clear (ofOptions options)).run calls

/-- The expression of an answer is that of the key, whether the template was kept or is new. -/
theorem map_expr_of_step (hsound : Sound options cache) {call : Call} {key : TemplateKey}
    {outcome : Except LoadError (Option Template)} {next : TemplateCache}
    (hstep : Step cache call outcome next) (hkey : call.key? options = some key) :
    outcome.map (Option.map Template.expr) = (exprOf options key).map some := by
  rw [← hsound.options_eq] at hkey ⊢
  cases hstep with
  | failed hclear herror => rw [herror key hkey]; rfl
  | found hclear hkept hlookup =>
      have hother := (Call.keptKey?_eq_some_iff.1 hkept).2
      rw [hkey] at hother
      cases hother
      rw [hsound.options_eq, hsound.expr_eq hlookup]
      rfl
  | created hclear hkept hexpr => rw [hexpr key hkey]; rfl
  | kept hclear hkept hlookup hexpr =>
      have hother := (Call.keptKey?_eq_some_iff.1 hkept).2
      rw [hkey] at hother
      cases hother
      rw [hexpr]
      rfl
  | cleared hclear =>
      rw [Call.key?_of_isClear hclear] at hkey
      cases hkey

end Sound

/-! ### Identity of templates -/

/-- The template of a serial number is kept under its owner, and other templates are not this one.
Without an owner it is kept nowhere. -/
structure Owned (serial : Nat) (owner : Option TemplateKey) (cache : TemplateCache) : Prop where
  serial_lt : serial < cache.nextSerial
  serial_iff {key : TemplateKey} {template : Template} : cache.lookup key = some template →
    (template.serial = serial ↔ owner = some key)
  kept {key : TemplateKey} : owner = some key → cache.lookup key ≠ none

namespace Owned

variable {options : ParseOptions} {cache next : TemplateCache} {call : Call}
variable {serial : Nat} {owner : Option TemplateKey}

/-- A call owns the template that it gives, if the cache keeps it. -/
theorem of_step (hsound : Sound options cache) {template : Template}
    (hstep : Step cache call (.ok (some template)) next) :
    Owned template.serial (call.keptKey? options) next := by
  rw [← hsound.options_eq]
  cases hstep with
  | found hclear hkept hlookup =>
      rw [hkept]
      refine ⟨hsound.serial_lt hlookup, fun {other copy} hother => ?_, fun {other} hother => ?_⟩
      · constructor
        · exact fun hserial => congrArg some (hsound.key_eq hlookup hother hserial.symm)
        · intro heq
          cases heq
          rw [hlookup] at hother
          cases hother
          rfl
      · cases hother
        simp [hlookup]
  | created hclear hkept hexpr =>
      rw [hkept]
      refine ⟨Nat.lt_succ_self _, fun {other copy} hother => ?_, nofun⟩
      have hserial := (hsound.serial_lt hother).ne
      exact ⟨fun heq => absurd heq hserial, nofun⟩
  | kept hclear hkept hlookup hexpr =>
      rw [hkept]
      refine ⟨?_, fun {other copy} hother => ?_, fun {other} hother => ?_⟩
      · rw [nextSerial_keep]
        exact Nat.lt_succ_self _
      · rw [lookup_keep] at hother
        split at hother
        next heq =>
          cases hother
          simp [heq]
        next hne =>
          have hserial := (hsound.serial_lt hother).ne
          exact ⟨fun heq => absurd heq hserial, fun heq => absurd (Option.some.inj heq) hne⟩
      · cases hother
        simp [lookup_keep]

/-- Clearing takes the owner away, and no other call does. -/
theorem step (howned : Owned serial owner cache)
    {outcome : Except LoadError (Option Template)} (hstep : Step cache call outcome next) :
    Owned serial (if call.isClear then none else owner) next := by
  cases hstep with
  | failed hclear => rwa [hclear, if_neg Bool.false_ne_true]
  | found hclear => rwa [hclear, if_neg Bool.false_ne_true]
  | created hclear =>
      rw [hclear, if_neg Bool.false_ne_true]
      exact ⟨Nat.lt_succ_of_lt howned.serial_lt, howned.serial_iff, howned.kept⟩
  | kept hclear hkept hlookup hexpr =>
      rw [hclear, if_neg Bool.false_ne_true]
      refine ⟨?_, fun {other copy} hother => ?_, fun {other} hother => ?_⟩
      · rw [nextSerial_keep]
        exact Nat.lt_succ_of_lt howned.serial_lt
      · rw [lookup_keep] at hother
        split at hother
        next heq =>
          cases hother
          constructor
          · exact fun hserial => absurd hserial howned.serial_lt.ne'
          · exact fun hown => absurd (heq ▸ hlookup) (howned.kept hown)
        next => exact howned.serial_iff hother
      · rw [lookup_keep]
        split
        · simp
        · exact howned.kept hother
  | cleared hclear =>
      rw [if_pos hclear]
      exact ⟨howned.serial_lt, fun hlookup => by simp at hlookup, nofun⟩

/-- A serial stays with its owner until the cache is cleared. -/
theorem run (howned : Owned serial owner cache) (calls : List Call) :
    Owned serial (if calls.any Call.isClear then none else owner) (cache.run calls) := by
  induction calls generalizing cache owner with
  | nil => exact howned
  | cons call calls ih =>
      have hrest : Owned serial _ (cache.run (call :: calls)) :=
        ih (howned.step (step_answer cache call))
      rw [List.any_cons]
      cases hclear : call.isClear <;> simpa [hclear] using hrest

/-- A template is given out again for its owner alone. -/
theorem serial_eq_iff (howned : Owned serial owner cache) {template : Template}
    (hstep : Step cache call (.ok (some template)) next) :
    serial = template.serial ↔
      ∃ key, owner = some key ∧ call.keptKey? cache.options = some key := by
  cases hstep with
  | found hclear hkept hlookup =>
      rw [hkept, eq_comm, howned.serial_iff hlookup]
      simp
  | created hclear hkept hexpr =>
      rw [hkept]
      simp [howned.serial_lt.ne]
  | kept hclear hkept hlookup hexpr =>
      rw [hkept]
      constructor
      · exact fun hserial => absurd hserial howned.serial_lt.ne
      · rintro ⟨key, hown, heq⟩
        cases heq
        exact absurd hlookup (howned.kept hown)

end Owned

/-! ### Number of templates -/

/-- The keys that were compiled since the cache was last cleared, without those that have no
expression. -/
def compiledKeys (options : ParseOptions) (calls : List Call) : Finset TemplateKey :=
  ((calls.rtakeWhile fun call => !call.isClear).filterMap fun call =>
    (call.key? options).filter fun key => (exprOf options key).isOk).toFinset

theorem after_concat (options : ParseOptions) (calls : List Call) (call : Call) :
    after options (calls ++ [call]) = (call.answer (after options calls)).2 := by
  rw [after, run, List.foldl_append]
  rfl

theorem compiledKeys_concat_of_isClear {call : Call} (hclear : call.isClear = true)
    (options : ParseOptions) (calls : List Call) :
    compiledKeys options (calls ++ [call]) = ∅ := by
  rw [compiledKeys, List.rtakeWhile_concat_neg _ _ _ (by simp [hclear])]
  rfl

theorem mem_compiledKeys_concat {call : Call} (hclear : call.isClear = false)
    {options : ParseOptions} {calls : List Call} {key : TemplateKey} :
    key ∈ compiledKeys options (calls ++ [call]) ↔
      key ∈ compiledKeys options calls ∨
        call.key? options = some key ∧ (exprOf options key).isOk = true := by
  rw [compiledKeys, List.rtakeWhile_concat_pos _ _ _ (by simp [hclear]), compiledKeys]
  simp only [List.filterMap_append, List.toFinset_append, Finset.mem_union, List.mem_toFinset]
  simp [Option.filter_eq_some_iff]

/-- If what is kept before a call are the keys compiled so far, this is so after the call. -/
theorem lookup_ne_none_iff_of_step {options : ParseOptions} {cache next : TemplateCache}
    {calls : List Call} {call : Call} {outcome : Except LoadError (Option Template)}
    (hoptions : cache.options = options) (hstep : Step cache call outcome next)
    (hbefore : ∀ key, cache.lookup key ≠ none ↔
      options.cache = true ∧ key ∈ compiledKeys options calls) (key : TemplateKey) :
    next.lookup key ≠ none ↔
      options.cache = true ∧ key ∈ compiledKeys options (calls ++ [call]) := by
  subst hoptions
  cases hstep with
  | failed hclear herror =>
      have hnew : ¬ (call.key? cache.options = some key ∧ (exprOf cache.options key).isOk) := by
        rintro ⟨hkey, hok⟩
        rw [herror key hkey] at hok
        cases hok
      rw [mem_compiledKeys_concat hclear, or_iff_left hnew, hbefore]
  | found hclear hkept hlookup =>
      obtain ⟨hcache, hkey⟩ := Call.keptKey?_eq_some_iff.1 hkept
      have hold (hnew : call.key? cache.options = some key ∧ (exprOf cache.options key).isOk) :
          key ∈ compiledKeys cache.options calls := by
        rw [hkey] at hnew
        cases hnew.1
        exact ((hbefore key).1 (by simp [hlookup])).2
      rw [mem_compiledKeys_concat hclear, or_iff_left_of_imp hold, hbefore]
  | created hclear hkept hexpr =>
      have hnew (hcache : cache.options.cache = true) :
          ¬ (call.key? cache.options = some key ∧ (exprOf cache.options key).isOk) := by
        rintro ⟨hkey, _⟩
        rw [Call.keptKey?_eq_some_iff.2 ⟨hcache, hkey⟩] at hkept
        cases hkept
      rw [mem_compiledKeys_concat hclear, lookup_issued, hbefore]
      exact and_congr_right fun hcache => (or_iff_left (hnew hcache)).symm
  | kept hclear hkept hlookup hexpr =>
      obtain ⟨hcache, hkey⟩ := Call.keptKey?_eq_some_iff.1 hkept
      rw [mem_compiledKeys_concat hclear, lookup_keep, hkey]
      split
      next heq =>
        subst heq
        simp [hcache, hexpr, Except.isOk, Except.toBool]
      next hne =>
        rw [lookup_issued, hbefore]
        simp [hne]
  | cleared hclear => simp [compiledKeys_concat_of_isClear hclear]

/-- A template is kept exactly for the keys that were compiled since the last clearing, if any is
kept at all. -/
theorem lookup_after_ne_none_iff (options : ParseOptions) (calls : List Call)
    (key : TemplateKey) :
    (after options calls).lookup key ≠ none ↔
      options.cache = true ∧ key ∈ compiledKeys options calls := by
  induction calls using List.reverseRecOn generalizing key with
  | nil =>
      have hlookup : (after options []).lookup key = none := lookup_clear (ofOptions options) key
      simp [hlookup, compiledKeys]
  | append_singleton calls call ih =>
      rw [after_concat]
      exact lookup_ne_none_iff_of_step (Sound.after options calls).options_eq (step_answer _ call)
        ih key

/-- No key is kept twice, also not once for each of the two tables. -/
theorem Sound.nodup_keys {options : ParseOptions} {cache : TemplateCache}
    (hsound : Sound options cache) : cache.keys.Nodup := by
  have hpair (simplify : Bool) : Function.Injective fun source : String => (source, simplify) :=
    fun _ _ heq => congrArg Prod.fst heq
  rw [keys, List.nodup_append]
  refine ⟨hsound.nodup_simplified.map (hpair true), hsound.nodup_raw.map (hpair false), ?_⟩
  intro left hleft right hright heq
  obtain ⟨source, _, rfl⟩ := List.mem_map.1 hleft
  obtain ⟨other, _, rfl⟩ := List.mem_map.1 hright
  cases heq

/-- The cache holds as many templates as there are different keys since it was last cleared. -/
theorem size_after (options : ParseOptions) (calls : List Call) :
    (after options calls).size =
      if options.cache then (compiledKeys options calls).card else 0 := by
  have hkeys : (after options calls).keys.toFinset =
      if options.cache then compiledKeys options calls else ∅ := by
    ext key
    rw [List.mem_toFinset, mem_keys_iff, lookup_after_ne_none_iff]
    split <;> simp_all
  rw [← length_keys, ← List.toFinset_card_of_nodup (Sound.after options calls).nodup_keys, hkeys]
  split <;> rfl

/-! ### The cache as a whole -/

/-- A call that fails leaves the cache as it was. -/
theorem answer_of_error {cache : TemplateCache} {call : Call} {error : LoadError}
    (herror : (call.answer cache).1 = .error error) : (call.answer cache).2 = cache := by
  have hstep := step_answer cache call
  rw [herror] at hstep
  generalize (call.answer cache).2 = next at hstep
  cases hstep
  rfl

theorem any_isClear_iff (calls : List Call) :
    calls.any Call.isClear = true ↔ Call.clear ∈ calls := by
  rw [List.any_eq_true]
  constructor
  · rintro ⟨call, hmem, hclear⟩
    cases call with
    | clear => exact hmem
    | _ => cases hclear
  · exact fun hmem => ⟨.clear, hmem, rfl⟩

/-- The template of a call is given out again by a later call exactly if both compile the same text
in the same way and the cache was not cleared in between. -/
theorem serial_eq_iff_of_answer {options : ParseOptions} {before between : List Call}
    {first second : Call} {template again : Template}
    (hfirst : (first.answer (after options before)).1 = .ok (some template))
    (hsecond : (second.answer (after options (before ++ first :: between))).1 =
      .ok (some again)) :
    template.serial = again.serial ↔
      options.cache = true ∧
        (∃ key, first.key? options = some key ∧ second.key? options = some key) ∧
        Call.clear ∉ between := by
  have hstep := step_answer (after options before) first
  rw [hfirst] at hstep
  have howned := (Owned.of_step (Sound.after options before) hstep).run between
  have hrun : (first.answer (after options before)).2.run between =
      after options (before ++ first :: between) := by
    simp [after, run]
  have hlater := step_answer (after options (before ++ first :: between)) second
  rw [hsecond] at hlater
  rw [hrun] at howned
  rw [howned.serial_eq_iff hlater, (Sound.after options _).options_eq]
  by_cases hclear : Call.clear ∈ between
  · simp [(any_isClear_iff between).2 hclear, hclear]
  · rw [if_neg fun hany => hclear ((any_isClear_iff between).1 hany)]
    simp only [Call.keptKey?_eq_some_iff, hclear, not_false_eq_true, and_true]
    constructor
    · rintro ⟨key, ⟨hcache, hkey⟩, _, hother⟩
      exact ⟨hcache, key, hkey, hother⟩
    · rintro ⟨hcache, key, hkey, hother⟩
      exact ⟨key, ⟨hcache, hkey⟩, hcache, hother⟩

/-- Whatever was asked of a cache before, a text that is compiled through it has the expression, or
the error, that it has without the cache.  Two templates are the same one if and only if they were
compiled through a cache in use from the same text in the same way and the cache was not cleared in
between.  The cache keeps one template for each key that has been compiled since it was last
cleared, and a call that fails leaves it as it is. -/
theorem transparent_after (options : ParseOptions) (before : List Call) :
    let cache := after options before
    (∀ (call : Call) (source : String) (simplify : Bool),
      call.key? options = some (source, simplify) →
        (call.answer cache).1.map (Option.map Template.expr) =
            ((Call.compileFresh source simplify).answer cache).1.map (Option.map Template.expr) ∧
          (call.answer cache).1.map (Option.map Template.expr) =
            (Template.exprOf options source simplify).map some) ∧
      (∀ (first : Call) (between : List Call) (second : Call) (template again : Template),
        (first.answer cache).1 = .ok (some template) →
        (second.answer (after options (before ++ first :: between))).1 = .ok (some again) →
          (template.serial = again.serial ↔
            options.cache = true ∧
              (∃ key, first.key? options = some key ∧ second.key? options = some key) ∧
              Call.clear ∉ between)) ∧
      cache.size = (if options.cache then (compiledKeys options before).card else 0) ∧
      ∀ (call : Call) (error : LoadError),
        (call.answer cache).1 = .error error → (call.answer cache).2 = cache := by
  intro cache
  have hsound : Sound options cache := Sound.after options before
  refine ⟨fun call source simplify hkey => ?_, ?_, size_after options before, ?_⟩
  · have hexpr := hsound.map_expr_of_step (step_answer cache call) hkey
    have hfresh : ((Call.compileFresh source simplify).answer cache).1.map
        (Option.map Template.expr) = (exprOf options (source, simplify)).map some := by
      rw [Call.answer, Call.perform, run_map_some, run_compileFresh, hsound.options_eq]
      cases exprOf options (source, simplify) <;> rfl
    exact ⟨hexpr.trans hfresh.symm, hexpr⟩
  · exact fun first between second template again => serial_eq_iff_of_answer
  · exact fun call error => answer_of_error

theorem exists_template_of_map {outcome : Except LoadError (Option Template)} {e : Expr}
    (houtcome : outcome.map (Option.map Template.expr) = .ok (some e)) :
    ∃ template, outcome = .ok (some template) := by
  match outcome, houtcome with
  | .ok (some template), _ => exact ⟨template, rfl⟩

theorem eq_error_of_map {outcome : Except LoadError (Option Template)} {error : LoadError}
    (houtcome : outcome.map (Option.map Template.expr) = .error error) :
    outcome = .error error := by
  cases outcome with
  | error _ => exact congrArg Except.error (Except.error.inj houtcome)
  | ok _ => cases houtcome

/-- The same text is compiled by default and by choice, with a text that is rejected in between. -/
theorem transparent_after_rejected :
    let options := ParseOptions.standard
    let source := "query.a * 2"
    let before := [Call.constant 1]
    let between := [Call.compile "1 +", Call.compileAs source false]
    ∃ (template again : Template) (error : LoadError),
      ((Call.compile source).answer (after options before)).1 = .ok (some template) ∧
      ((Call.compileAs source true).answer
        (after options (before ++ Call.compile source :: between))).1 = .ok (some again) ∧
      template.serial = again.serial ∧
      ((Call.compile "1 +").answer (after options before)).1 = .error error ∧
      ((Call.compile "1 +").answer (after options before)).2 = after options before := by
  intro options source before between
  have hanswer (call : Call) (calls : List Call) (text : String) (outcome : Except LoadError Expr)
      (hkey : call.key? options = some (text, true))
      (houtcome : Template.exprOf options text true = outcome) :
      (call.answer (after options calls)).1.map (Option.map Template.expr) = outcome.map some :=
    houtcome ▸ ((transparent_after options calls).1 call text true hkey).2
  have haccepted : (Template.exprOf options source true).isOk = true := by decide +kernel
  have hrejected : (Template.exprOf options "1 +" true).isOk = false := by decide +kernel
  cases hsource : Template.exprOf options source true with
  | error error => simp [hsource, Except.isOk, Except.toBool] at haccepted
  | ok e =>
      cases hbroken : Template.exprOf options "1 +" true with
      | ok e => simp [hbroken, Except.isOk, Except.toBool] at hrejected
      | error error =>
          obtain ⟨template, hfirst⟩ := exists_template_of_map
            (hanswer (.compile source) before source (.ok e) rfl hsource)
          obtain ⟨again, hsecond⟩ := exists_template_of_map
            (hanswer (.compileAs source true) (before ++ .compile source :: between) source (.ok e)
              rfl hsource)
          have hfailed := eq_error_of_map
            (hanswer (.compile "1 +") before "1 +" (.error error) rfl hbroken)
          obtain ⟨_, hserial, _, herror⟩ := transparent_after options before
          refine ⟨template, again, error, hfirst, hsecond, ?_, hfailed, herror _ error hfailed⟩
          rw [hserial _ between _ template again hfirst hsecond]
          exact ⟨rfl, ⟨(source, true), rfl, rfl⟩, by simp [between]⟩

end MotionScript.TemplateCache
