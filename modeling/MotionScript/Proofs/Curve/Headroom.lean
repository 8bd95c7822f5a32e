import MotionScript.Curve.Evaluate
import MotionScript.Proofs.Blend.Bounds
/-!
# Values of curves that stay finite

The expressions of a curve are absorbed one by one where they are not finite, but what the curve
makes of their values is not: a blend of finite values can exceed the format.  A segment tells how
many bits its values have to leave free for its formula.  Evaluation with this check gives up where
a value is too large, and where it does not give up, the value of the curve is the same and is
finite.
-/

namespace MotionScript

open MotionScript.Single (Within)

variable {ε : Type}

/-! ### How much room a segment needs -/

namespace Segment

/-- What a segment computes of the input and the times of its nodes before it asks for values. -/
def measure (x : Float32) : Segment ε Float32 → Float32
  | .input | .control _ _ _ _ => x
  | .level _ => ((0 : Nat) : Float32)
  | .line start stop | .spline _ start stop _ => stop.time - start.time
  | .chain start stop => (stop.time - start.time) / ((3 : Nat) : Float32)

/-- How many of the 128 bits of the greatest numbers the values of a segment have to leave free. -/
def headroom (x : Float32) (segment : Segment ε Float32) : Nat :=
  match segment with
  | .input | .level _ => 0
  | .line _ _ => 3
  | .control _ _ _ _ => 3 * Single.bits (segment.measure x) + 8
  | .chain _ _ => Single.bits (segment.measure x) + 9
  | .spline _ _ _ _ => 9

end Segment

/-- A finite number that leaves some of its 128 bits free. -/
structure LeavesFree (headroom : Nat) (value : Float32) : Prop where
  isFinite : value.isFinite = true
  bits_add_le : Single.bits value + headroom ≤ 128

namespace LeavesFree

variable {headroom limit : Nat} {value : Float32}

theorem within (hvalue : LeavesFree headroom value) (hlimit : 128 ≤ limit + headroom) :
    Within limit value := by
  have hbits := hvalue.bits_add_le
  exact Single.within_iff.2 ⟨hvalue.isFinite, by omega⟩

theorem exists_limit (hvalue : LeavesFree headroom value) : ∃ limit, limit + headroom = 128 :=
  ⟨128 - headroom, by have hbits := hvalue.bits_add_le; omega⟩

/-! ### Formulas -/

variable {a b c d t : Float32}

theorem isFinite_lerp (ha : LeavesFree 3 a) (hb : LeavesFree 3 b) (ht : Within 0 t) :
    (lerp a b t).isFinite = true := by
  have ha' : Within 125 a := ha.within le_rfl
  exact (Single.within_lerp ha' (hb.within le_rfl) ht (by decide)).isFinite

/-- A Bézier segment stays finite if its values leave room for the powers of the progress. -/
theorem isFinite_bezier (ha : LeavesFree (3 * Single.bits t + 8) a)
    (hb : LeavesFree (3 * Single.bits t + 8) b) (hc : LeavesFree (3 * Single.bits t + 8) c)
    (hd : LeavesFree (3 * Single.bits t + 8) d) (ht : t.isFinite = true) :
    (bezier a b c d t).isFinite = true := by
  obtain ⟨limit, hlimit⟩ := ha.exists_limit
  have ht' : Within (Single.bits t) t := Single.within_iff.2 ⟨ht, le_rfl⟩
  have hblend := Single.within_bezier (ha.within hlimit.ge) (hb.within hlimit.ge)
    (hc.within hlimit.ge) (hd.within hlimit.ge) ht' (by omega)
  exact hblend.isFinite

/-- The inner control values go a third of the way along the slopes. -/
theorem isFinite_bezier_slopes {third startSlope stopSlope : Float32}
    (ha : LeavesFree (Single.bits third + 9) a)
    (hstart : LeavesFree (Single.bits third + 9) startSlope)
    (hd : LeavesFree (Single.bits third + 9) d)
    (hstop : LeavesFree (Single.bits third + 9) stopSlope) (hthird : third.isFinite = true)
    (ht : Within 0 t) :
    (bezier a (a + third * startSlope) (d - third * stopSlope) d t).isFinite = true := by
  obtain ⟨limit, hlimit⟩ := ha.exists_limit
  have hthird' : Within (Single.bits third) third := Single.within_iff.2 ⟨hthird, le_rfl⟩
  have hrise {slope : Float32} (hslope : LeavesFree (Single.bits third + 9) slope) :
      Within (limit + Single.bits third) (third * slope) :=
    hthird'.mul (hslope.within hlimit.ge) (by omega) (by omega)
  have ha' : Within limit a := ha.within hlimit.ge
  have hd' : Within limit d := hd.within hlimit.ge
  have hb : Within (limit + Single.bits third + 1) (a + third * startSlope) :=
    ha'.add (hrise hstart) (by omega) (by omega) (by omega)
  have hc : Within (limit + Single.bits third + 1) (d - third * stopSlope) :=
    hd'.sub (hrise hstop) (by omega) (by omega) (by omega)
  have hblend := Single.within_bezier (ha'.mono (by omega)) hb hc (hd'.mono (by omega)) ht
    (by omega)
  exact hblend.isFinite

/-- A spline segment stays finite if its values leave nine bits free. -/
theorem isFinite_catmullRom (ha : LeavesFree 9 a) (hb : LeavesFree 9 b) (hc : LeavesFree 9 c)
    (hd : LeavesFree 9 d) (ht : Within 0 t) : (catmullRom a b c d t).isFinite = true := by
  have ha' : Within 119 a := ha.within le_rfl
  have hblend := Single.within_catmullRom ha' (hb.within le_rfl) (hc.within le_rfl)
    (hd.within le_rfl) ht (by decide)
  exact hblend.isFinite

end LeavesFree

/-! ### Programs that may give up -/

/-- Wherever a program that may give up does not, another one has the same value and leaves the same
state, and the value has a property. -/
def Confirms {σ α : Type} (property : α → Prop) (guarded : OptionT (StateM σ) α)
    (program : StateM σ α) : Prop :=
  ∀ state value after, guarded.run.run state = (some value, after) →
    program.run state = (value, after) ∧ property value

namespace Confirms

variable {σ α β : Type} {property : α → Prop} {property' : β → Prop}

theorem pure {value : α} (hvalue : property value) :
    Confirms property (Pure.pure value : OptionT (StateM σ) α) (Pure.pure value) := by
  intro state value' after hrun
  cases hrun
  exact ⟨rfl, hvalue⟩

theorem mono {weaker : α → Prop} {guarded : OptionT (StateM σ) α} {program : StateM σ α}
    (hconfirms : Confirms property guarded program)
    (hweaker : ∀ value, property value → weaker value) : Confirms weaker guarded program :=
  fun state value after hrun => (hconfirms state value after hrun).imp_right (hweaker value)

theorem failure (program : StateM σ α) :
    Confirms property (Alternative.failure : OptionT (StateM σ) α) program := by
  intro state value after hrun
  cases hrun

theorem lift {program : StateM σ α} (hprogram : ∀ state, property (program.run state).1) :
    Confirms property (liftM program : OptionT (StateM σ) α) program := by
  intro state value after hrun
  cases hrun
  exact ⟨rfl, hprogram state⟩

/-- Programs that are confirmed one after the other are confirmed as one program. -/
theorem bind {guarded : OptionT (StateM σ) α} {program : StateM σ α}
    {guardedNext : α → OptionT (StateM σ) β} {next : α → StateM σ β}
    (hfirst : Confirms property guarded program)
    (hnext : ∀ value, property value → Confirms property' (guardedNext value) (next value)) :
    Confirms property' (guarded >>= guardedNext) (program >>= next) := by
  intro state value after hrun
  rw [OptionT.run_bind] at hrun
  change (Option.elim (guarded.run.run state).1 (Pure.pure none)
    fun first => (guardedNext first).run).run (guarded.run.run state).2 = _ at hrun
  cases hfirst? : (guarded.run.run state).1 with
  | none =>
      rw [hfirst?] at hrun
      cases hrun
  | some first =>
      rw [hfirst?] at hrun
      obtain ⟨hprogram, hproperty⟩ := hfirst state first _ (Prod.ext hfirst? rfl)
      obtain ⟨hafter, hvalue⟩ := hnext first hproperty _ value after hrun
      refine ⟨?_, hvalue⟩
      change (next (program.run state).1).run (program.run state).2 = _
      rw [hprogram]
      exact hafter

end Confirms

/-! ### Evaluation with room for the formula -/

section Definitions

variable {m : Type → Type} [Monad m]

/-- The value of an expression, which has to leave some bits free. -/
def limited (resolve : ε → m Float32) (headroom : Nat) (e : ε) : OptionT m Float32 := do
  let value ← resolve e
  if Single.bits value + headroom ≤ 128 then return value else failure

/-- The value of a segment at an input, which gives up where the formula may exceed the format. -/
def Segment.limitedValue (resolve : ε → m Float32) (x : Float32) (segment : Segment ε Float32) :
    OptionT m Float32 :=
  if (segment.measure x).isFinite then
    segment.value (limited resolve (segment.headroom x)) x
  else failure

/-- The value of a curve, which gives up where a formula may exceed the format. -/
def Curve.limitedEvaluate (resolve : ε → m Float32) (curve : Curve ε Float32) :
    OptionT m Float32 := do
  if curve.nodes.isEmpty then
    return ((0 : Nat) : Float32)
  else
    let range ← resolve curve.range
    if range == ((0 : Nat) : Float32) then
      return ((1 : Nat) : Float32)
    else
      let input ← resolve curve.input
      let x := input / range
      (curve.segment x).limitedValue resolve x

end Definitions

variable {σ : Type} {resolve : ε → StateM σ Float32}

/-- Between its nodes a segment has progress of the unit interval. -/
theorem Segment.within_between {start stop : Curve.Node ε Float32} {x : Float32}
    (hspan : (stop.time - start.time).isFinite = true) (hx : x.isNaN = false) :
    Within 0 (between start stop x) :=
  Single.within_unitClamp (Single.isNaN_progress hspan hx)

section Soundness

variable (hresolve : ∀ e state, ((resolve e).run state).1.isFinite = true)
include hresolve

theorem confirms_resolve (e : ε) :
    Confirms (fun value : Float32 => value.isFinite = true) (liftM (resolve e)) (resolve e) :=
  .lift (hresolve e)

/-- The limited program gives the value of an expression only if it leaves the headroom free. -/
theorem confirms_limited (headroom : Nat) (e : ε) :
    Confirms (LeavesFree headroom) (limited resolve headroom e) (resolve e) := by
  have hbind : Confirms (LeavesFree headroom) (limited resolve headroom e)
      (resolve e >>= fun value => pure value) := by
    apply Confirms.bind (confirms_resolve hresolve e)
    intro value hfinite
    split
    next hbits => exact .pure ⟨hfinite, hbits⟩
    next => exact .failure _
  rwa [bind_pure] at hbind

/-- If the values that a segment asks for leave its headroom free, its own value is finite. -/
theorem Segment.confirms_limitedValue {x : Float32} (hx : x.isNaN = false)
    (segment : Segment ε Float32) :
    Confirms (fun value => value.isFinite = true) (segment.limitedValue resolve x)
      (segment.value resolve x) := by
  have hlimited := confirms_limited hresolve (segment.headroom x)
  rw [limitedValue]
  split
  next hmeasure =>
    cases segment with
    | input => exact .pure hmeasure
    | level value => exact (hlimited value).mono fun _ hvalue => hvalue.isFinite
    | line start stop =>
        apply Confirms.bind (hlimited start.value)
        intro a ha
        apply Confirms.bind (hlimited stop.value)
        intro b hb
        exact .pure (ha.isFinite_lerp hb (within_between hmeasure hx))
    | control a b c d =>
        apply Confirms.bind (hlimited a)
        intro a ha
        apply Confirms.bind (hlimited b)
        intro b hb
        apply Confirms.bind (hlimited c)
        intro c hc
        apply Confirms.bind (hlimited d)
        intro d hd
        exact .pure (ha.isFinite_bezier hb hc hd hmeasure)
    | chain start stop =>
        apply Confirms.bind (hlimited start.rightValue)
        intro a ha
        apply Confirms.bind (hlimited start.rightSlope)
        intro startSlope hstart
        apply Confirms.bind (hlimited stop.leftValue)
        intro d hd
        apply Confirms.bind (hlimited stop.leftSlope)
        intro stopSlope hstop
        have hspan := Single.isFinite_of_isFinite_div hmeasure
        exact .pure
          (ha.isFinite_bezier_slopes hstart hd hstop hmeasure (within_between hspan hx))
    | spline before start stop after =>
        apply Confirms.bind (hlimited before.value)
        intro a ha
        apply Confirms.bind (hlimited start.value)
        intro b hb
        apply Confirms.bind (hlimited stop.value)
        intro c hc
        apply Confirms.bind (hlimited after.value)
        intro d hd
        exact .pure (ha.isFinite_catmullRom hb hc hd (within_between hmeasure hx))
  next => exact .failure _

/-- Where evaluation with room for the formulas does not give up, the curve has the same value, and
that is finite. -/
theorem Curve.confirms_limitedEvaluate (curve : Curve ε Float32) :
    Confirms (fun value => value.isFinite = true) (curve.limitedEvaluate resolve)
      (curve.evaluateWith resolve) := by
  rw [limitedEvaluate, evaluateWith]
  split
  · exact .pure (by decide)
  · apply Confirms.bind (confirms_resolve hresolve curve.range)
    intro range hrange
    split
    · exact .pure (by decide)
    next hzero =>
      apply Confirms.bind (confirms_resolve hresolve curve.input)
      intro input hinput
      have hx : (input / range).isNaN = false :=
        Single.isNaN_div (Single.isNaN_of_isFinite hinput) hrange (Bool.eq_false_iff.2 hzero)
      exact Segment.confirms_limitedValue hresolve hx (curve.segment (input / range))

end Soundness

end MotionScript
