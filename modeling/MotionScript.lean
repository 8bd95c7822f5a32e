import MotionScript.Angle
import MotionScript.Blend
import MotionScript.Channel
import MotionScript.Context
import MotionScript.Curve.Basic
import MotionScript.Curve.Definition
import MotionScript.Curve.Evaluate
import MotionScript.Curve.Segment
import MotionScript.CurveTable
import MotionScript.Ease
import MotionScript.Ease.Formula
import MotionScript.Environment
import MotionScript.Error
import MotionScript.Expr.Basic
import MotionScript.Expr.Bind
import MotionScript.Expr.Operator
import MotionScript.Expr.Parser.Basic
import MotionScript.Expr.Parser.Grammar
import MotionScript.Expr.Printer
import MotionScript.Expr.Simplify
import MotionScript.Family
import MotionScript.Json.Printer
import MotionScript.Json.Text
import MotionScript.Json.Value
import MotionScript.Keyframe
import MotionScript.Keyframe.Json
import MotionScript.MathFunction
import MotionScript.MathFunction.Apply
import MotionScript.MissLog
import MotionScript.Number.Decimal
import MotionScript.Number.Reader
import MotionScript.Number.Single
import MotionScript.Options
import MotionScript.Options.Json
import MotionScript.Random
import MotionScript.Recorder
import MotionScript.Scope
import MotionScript.Table
import MotionScript.Template
import MotionScript.Text.Blank
import MotionScript.Timeline
import MotionScript.Token.Basic
import MotionScript.Token.Scan
import MotionScript.Proofs.Angle.Wrap
import MotionScript.Proofs.Blend.Cubic
import MotionScript.Proofs.Blend.Unit
import MotionScript.Proofs.Channel.Sample
import MotionScript.Proofs.Context.View
import MotionScript.Proofs.Curve.Chain
import MotionScript.Proofs.Curve.CheckedEvaluate
import MotionScript.Proofs.Curve.Exact
import MotionScript.Proofs.Curve.Footprint
import MotionScript.Proofs.Curve.Linear
import MotionScript.Proofs.Curve.Passes
import MotionScript.Proofs.Curve.Spline
import MotionScript.Proofs.CurveTable.Loading
import MotionScript.Proofs.CurveTable.Published
import MotionScript.Proofs.CurveTable.Settled
import MotionScript.Proofs.Ease.Power
import MotionScript.Proofs.Environment.Checked
import MotionScript.Proofs.Environment.Keeping
import MotionScript.Proofs.Environment.Simulation
import MotionScript.Proofs.Expr.BindEvaluate
import MotionScript.Proofs.Expr.BindTwice
import MotionScript.Proofs.Expr.CanonicalText
import MotionScript.Proofs.Expr.Height
import MotionScript.Proofs.Expr.Induction
import MotionScript.Proofs.Expr.NormalForm
import MotionScript.Proofs.Expr.Printed
import MotionScript.Proofs.Expr.Readable
import MotionScript.Proofs.Expr.Randomness
import MotionScript.Proofs.Expr.ReadFootprint
import MotionScript.Proofs.Expr.ReadOrder
import MotionScript.Proofs.Expr.Rewriting
import MotionScript.Proofs.Expr.RoundTrip
import MotionScript.Proofs.Expr.SimplifyEvaluate
import MotionScript.Proofs.Expr.WriteFootprint
import MotionScript.Proofs.Keyframe.Segment
import MotionScript.Proofs.Lists
import MotionScript.Proofs.MathFunction.Dice
import MotionScript.Proofs.MathFunction.Uniformity
import MotionScript.Proofs.Parser.Acceptance
import MotionScript.Proofs.Parser.Balance
import MotionScript.Proofs.Parser.DeepestTree
import MotionScript.Proofs.Parser.ErrorPlaces
import MotionScript.Proofs.Parser.Layout
import MotionScript.Proofs.Parser.Limit
import MotionScript.Proofs.Parser.Monotone
import MotionScript.Proofs.Parser.Nesting
import MotionScript.Proofs.Parser.Recursion
import MotionScript.Proofs.Timeline.GivenOrder
import MotionScript.Proofs.Token.Lexemes
import MotionScript.Proofs.Token.Spans
import MotionScript.Proofs.Template.Cache
import MotionScript.Proofs.Family.Operation
import MotionScript.Proofs.Family.Interleaving
import MotionScript.Proofs.Family.Temps
import MotionScript.Proofs.Family.Warnings
