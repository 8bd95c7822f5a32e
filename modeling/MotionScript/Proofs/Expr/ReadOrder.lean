import MotionScript.Proofs.Context.View
import MotionScript.Proofs.Environment.Answers
import MotionScript.Proofs.Environment.Grading
/-!
# The order in which names are read

An expression that no logical operator and no condition can skip a part of asks for the same names
in every environment, whatever the answers are.  Their order is that of the text, except that an
assignment which combines the stored value with a new one asks for the stored value last, when the
new one is known, while `reads` lists its target first.
-/

namespace MotionScript

open MotionScript.Expr (Name)

namespace Expr

/-- The name that an assignment asks for: its target, unless it only sets it. -/
def targetRead (operator : AssignOp) (scope : Scope) (name : String) : List Name :=
  if operator = .set then [] else [(scope, name)]

/-- The names that the expression asks for if nothing is skipped, in the order of asking. -/
def asks (e : Expr) : List Name :=
  e.collect (fun scope name => [(scope, name)]) targetRead

def allAsks (es : List Expr) : List Name :=
  collectAll (fun scope name => [(scope, name)]) targetRead es

/-! ### What is asked for is what is read -/

theorem allAsks_perm_allReads {es : List Expr} (hes : ∀ e ∈ es, e.asks.Perm e.reads) :
    (allAsks es).Perm (allReads es) := by
  induction es with
  | nil => exact .refl []
  | cons e es ih =>
      rw [List.forall_mem_cons] at hes
      exact hes.1.append (ih hes.2)

/-- What a whole run asks for is what the tree lists as its reads, up to the order. -/
theorem asks_perm_reads (e : Expr) : e.asks.Perm e.reads := by
  induction e with
  | constant value => exact .refl _
  | reference scope name => exact .refl _
  | unary operator operand ih => exact ih
  | binary operator left right ihLeft ihRight => exact ihLeft.append ihRight
  | conditional condition whenTrue whenFalse ihCondition ihTrue ihFalse =>
      rw [reads, List.append_assoc]
      exact ihCondition.append (ihTrue.append ihFalse)
  | assign operator scope name value ih =>
      rw [reads]
      exact (ih.append_right _).trans List.perm_append_comm
  | sequence statements ih => exact allAsks_perm_allReads ih
  | call function arguments ih => exact allAsks_perm_allReads ih

theorem allAsks_eq_allReads {es : List Expr} (hes : ∀ e ∈ es, e.asks = e.reads) :
    allAsks es = allReads es := by
  induction es with
  | nil => rfl
  | cons e es ih =>
      rw [List.forall_mem_cons] at hes
      rw [allReads, ← hes.1, ← ih hes.2]
      rfl

/-- A combining assignment reads nothing but its target for its value. -/
def combinesAlone : Expr → Prop
  | .assign operator scope name value =>
    operator ≠ .set → ∀ read ∈ value.reads, read = (scope, name)
  | _ => True

instance : DecidablePred combinesAlone
  | .assign operator scope name value =>
    inferInstanceAs (Decidable (operator ≠ .set → ∀ read ∈ value.reads, read = (scope, name)))
  | .constant _ | .reference _ _ | .unary _ _ | .binary _ _ _ | .conditional _ _ _ | .sequence _
  | .call _ _ => isTrue trivial

/-- The two orders are one if no combining assignment reads anything else for its value. -/
theorem asks_eq_reads {e : Expr} (halone : ∀ part, Occurs part e → part.combinesAlone) :
    e.asks = e.reads := by
  induction e with
  | constant value => rfl
  | reference scope name => rfl
  | unary operator operand ih =>
      rw [forall_occurs_iff] at halone
      exact ih (halone.2 operand List.mem_cons_self)
  | binary operator left right ihLeft ihRight =>
      rw [forall_occurs_iff] at halone
      simp only [children, List.forall_mem_cons] at halone
      rw [reads, ← ihLeft halone.2.1, ← ihRight halone.2.2.1]
      rfl
  | conditional condition whenTrue whenFalse ihCondition ihTrue ihFalse =>
      rw [forall_occurs_iff] at halone
      simp only [children, List.forall_mem_cons] at halone
      rw [reads, List.append_assoc, ← ihCondition halone.2.1, ← ihTrue halone.2.2.1,
        ← ihFalse halone.2.2.2.1]
      rfl
  | assign operator scope name value ih =>
      rw [forall_occurs_iff] at halone
      have hasks : (assign operator scope name value).asks =
          value.reads ++ targetRead operator scope name :=
        congrArg (· ++ targetRead operator scope name) (ih (halone.2 value List.mem_cons_self))
      rw [hasks, targetRead, reads]
      split
      · rw [List.append_nil, List.nil_append]
      next hcombines =>
        -- Copies of one name can be put in any order.
        have hsame : value.reads = List.replicate value.reads.length (scope, name) :=
          List.eq_replicate_iff.2 ⟨rfl, halone.1 hcombines⟩
        rw [hsame, ← List.replicate_succ', List.singleton_append, List.replicate_succ]
  | sequence statements ih =>
      rw [forall_occurs_iff] at halone
      exact allAsks_eq_allReads fun e he => ih e he (halone.2 e he)
  | call function arguments ih =>
      rw [forall_occurs_iff] at halone
      exact allAsks_eq_allReads fun e he => ih e he (halone.2 e he)

end Expr

/-! ### Programs that ask for known names -/

namespace Transcribed

variable {m : Type → Type} [Monad m] {α β : Type}

/-- Whatever it is answered, a program asks for the values of these names in this order. -/
def Resolves (program : Transcribed m α) (names : List Name) : Prop :=
  ∀ transcript, (fun run => (run, resolved run.2)) <$> program.run transcript =
    (fun run => (run, resolved transcript ++ names)) <$> program.run transcript

namespace Resolves

variable [LawfulMonad m] {first second : List Name}

theorem pure (value : α) : Resolves (pure value : Transcribed m α) [] := by
  intro transcript
  simp

theorem lift (action : m α) : Resolves (StateT.lift action : Transcribed m α) [] := by
  intro transcript
  simp

theorem write (request : Request) :
    Resolves (Transcribed.write request : Transcribed m Unit) request.resolved?.toList := by
  intro transcript
  have hwritten : resolved [request] = request.resolved?.toList := by
    cases request <;> rfl
  simp [Transcribed.write, resolved_append, hwritten]

/-- A program that follows another one asks for its names after those of the first, because which
names they are does not depend on an answer. -/
theorem bind {program : Transcribed m α} {next : α → Transcribed m β}
    (hfirst : Resolves program first) (hnext : ∀ value, Resolves (next value) second) :
    Resolves (program >>= next) (first ++ second) := by
  intro transcript
  let goOn (known : (α × List Request) × List Name) : m ((β × List Request) × List Name) :=
    (fun run => (run, known.2 ++ second)) <$> (next known.1.1).run known.1.2
  calc
    (fun run => (run, resolved run.2)) <$> (program >>= next).run transcript =
        (program.run transcript >>= fun run => goOn (run, resolved run.2)) := by
      rw [StateT.run_bind, map_bind]
      exact congrArg (program.run transcript >>= ·) (funext fun run => hnext run.1 run.2)
    _ = ((fun run => (run, resolved run.2)) <$> program.run transcript) >>= goOn := by
      rw [bind_map_left]
    _ = ((fun run => (run, resolved transcript ++ first)) <$> program.run transcript) >>= goOn := by
      rw [hfirst transcript]
    _ = (fun run => (run, resolved transcript ++ (first ++ second))) <$>
        (program >>= next).run transcript := by
      rw [bind_map_left, StateT.run_bind, map_bind]
      simp only [List.append_assoc]

end Resolves

/-- Programs with the names that they ask for. -/
def resolving (m : Type → Type) [Monad m] [LawfulMonad m] : Grading (Transcribed m) :=
  ⟨Resolves, .pure, .bind⟩

namespace Resolves

variable [LawfulMonad m] [Environment m]

theorem resolve (scope : Scope) (name : String) :
    Resolves (Environment.resolve scope name : Transcribed m (Option Float32)) [(scope, name)] :=
  (write (.resolve scope name)).bind fun _ => lift _

theorem assign (scope : Scope) (name : String) (value : Float32) :
    Resolves (Environment.assign scope name value : Transcribed m Unit) [] :=
  (write (.assign scope name value)).bind fun _ => lift _

theorem reportMiss (scope : Scope) (name : String) :
    Resolves (Environment.reportMiss scope name : Transcribed m Unit) [] :=
  (write (.miss scope name)).bind fun _ => lift _

theorem drawSample : Resolves (Environment.drawSample : Transcribed m Float32) [] :=
  (lift _).bind fun sample => (write (.draw sample)).bind fun _ => pure sample

theorem reportOverflow : Resolves (Environment.reportOverflow : Transcribed m Unit) [] :=
  (write .overflow).bind fun _ => lift _

/-- Looking a name up asks for that name. -/
theorem lookup (scope : Scope) (name : String) :
    Resolves (Expr.lookup scope name : Transcribed m Float32) [(scope, name)] := by
  apply (resolving m).andThen (resolve scope name)
  intro found
  cases found with
  | some value => exact pure value
  | none => exact (reportMiss scope name).bind fun _ => pure 0

/-- Storing a value asks for its target if the operator combines, and for nothing else. -/
theorem store (operator : AssignOp) (scope : Scope) (name : String) (new : Float32) :
    Resolves (Expr.store operator scope name new : Transcribed m Float32)
      (Expr.targetRead operator scope name) := by
  have hassign (value : Float32) :
      Resolves (do Environment.assign scope name value; return value : Transcribed m Float32) [] :=
    (assign scope name value).bind fun _ => pure value
  cases operator with
  | set => exact (pure new).bind hassign
  | _ => exact (resolve scope name).bind fun stored => (pure _).bind hassign

/-- An expression that runs whole asks for its names in every environment. -/
theorem evaluate {e : Expr} (hwhole : e.RunsWhole) :
    Resolves (e.evaluate : Transcribed m Float32) e.asks :=
  (resolving m).evaluate (.inl hwhole) lookup store drawSample reportOverflow

end Resolves

end Transcribed

namespace Expr

/-- In every environment, an expression no part of which can be skipped asks for the same names in
the same order, and these are the names that it reads.  The order is that of `reads` as well if no
assignment that combines reads another name for its value than the one that it stores under. -/
theorem evaluate_asks_of_runsWhole {m : Type → Type} [Monad m] [LawfulMonad m] [Environment m]
    {e : Expr} (hwhole : e.RunsWhole) (transcript : List Request) :
    (fun run => (run.1, resolved run.2)) <$> (e.evaluate : Transcribed m Float32).run transcript =
        (fun value => (value, resolved transcript ++ e.asks)) <$> (e.evaluate : m Float32) ∧
      e.asks.Perm e.reads ∧
      ((∀ part, Occurs part e → part.combinesAlone) → e.asks = e.reads) := by
  refine ⟨?_, asks_perm_reads e, asks_eq_reads⟩
  let names (run : (Float32 × List Request) × List Name) : Float32 × List Name := (run.1.1, run.2)
  have hasks := congrArg (names <$> ·) (Transcribed.Resolves.evaluate (m := m) hwhole transcript)
  simp only [Functor.map_map] at hasks
  rw [hasks, ← Transcribed.map_fst_run_evaluate m e transcript, Functor.map_map]

/-- A call, and a combining assignment that reads its own target once more. -/
theorem evaluate_asks_of_runsWhole_doubled :
    let e : Expr := .sequence [
      .assign .add .variable "x" (.reference .variable "x"),
      .call .max [.reference .query "a", .assign .set .temp "t" (.reference .query "b")]]
    e.RunsWhole ∧
      ((fun run => (run.1, resolved run.2)) <$>
          (e.evaluate : Transcribed (StateM Session) Float32).run [] =
        (fun value => (value, e.asks)) <$> (e.evaluate : StateM Session Float32)) ∧
      e.asks = [(.variable, "x"), (.variable, "x"), (.query, "a"), (.query, "b")] ∧
      e.asks = e.reads := by
  intro e
  have hwhole : e.RunsWhole := by decide
  have halone : ∀ part, Occurs part e → part.combinesAlone := by decide
  obtain ⟨hrun, -, horder⟩ := evaluate_asks_of_runsWhole (m := StateM Session) hwhole []
  exact ⟨hwhole, hrun, rfl, horder halone⟩

/-- The target is listed first and read last, when the assignment inside of the value has already
changed it: the sum is five and two and five. -/
theorem evaluate_reads_target_last :
    let e : Expr := .assign .add .variable "x"
      (.binary .add (.reference .variable "y") (.assign .set .variable "x" (.constant 5)))
    let session : Session :=
      ⟨((Context.ofSeed 0).withVariable "x" 1).withVariable "y" 2, MissLog.ofWindow 0, []⟩
    e.RunsWhole ∧ e.reads = [(.variable, "x"), (.variable, "y")] ∧
      resolved (Transcribed.runFrom ⟨[], session⟩ e.evaluate).2.transcript =
        [(.variable, "y"), (.variable, "x")] ∧
      ((e.evaluate : StateM Session Float32).run session).1 = 12 := by
  intro e session
  exact ⟨by decide, rfl, by decide +kernel, by decide +kernel⟩

end Expr

end MotionScript
