import MotionScript.Proofs.Channel.Sample
import MotionScript.Proofs.Curve.ActiveIndex
import MotionScript.Proofs.Lists
/-!
# The given order of equal times

A timeline is sorted by an order that tells the two zeros apart, and otherwise by the times as
numbers.  So entries of one time stay in the order in which they were given, except that those at
the negative zero come before those at the positive one, although the two are the same moment.
-/

namespace MotionScript

namespace Timeline

variable {β : Type} {time : β → Float32} {entries sorted : List β} {t : Float32}

/-- The entries at a moment in the order in which they were given, those at the negative zero before
those at the positive one. -/
def givenAt (time : β → Float32) (entries : List β) (t : Float32) : List β :=
  entries.filter (fun entry => time entry == t && Single.isNegative (time entry)) ++
    entries.filter fun entry => time entry == t && !Single.isNegative (time entry)

/-- A list has the given entries in the order of their times, and those of one time in the order in
which they were given unless some of them are at the negative zero and some at the positive one. -/
structure Arranges (time : β → Float32) (entries sorted : List β) : Prop where
  perm : sorted.Perm entries
  ascending : sorted.Pairwise fun left right => time left ≤ time right
  keepsOrder : ∀ t, (t == 0) = false →
    sorted.filter (fun entry => time entry == t) = entries.filter fun entry => time entry == t
  negativeFirst : ∀ t, (t == 0) = true →
    sorted.filter (fun entry => time entry == t) = givenAt time entries t

/-! ### Entries that the sort keeps in order -/

/-- Entries of one rank keep their order. -/
theorem filter_sort (time : β → Float32) (entries : List β) (passes : β → Bool)
    (hrank : ∀ left right, passes left = true → passes right = true →
      Single.rank (time left) = Single.rank (time right)) :
    (sort time entries).filter passes = entries.filter passes := by
  have hordered : (entries.filter passes).Pairwise fun left right =>
      Single.rank (time left) ≤ Single.rank (time right) := by
    refine List.pairwise_of_forall_mem_list fun left hleft right hright => ?_
    exact (hrank left right (List.mem_filter.1 hleft).2 (List.mem_filter.1 hright).2).le
  have hsublist := (sublist_sort time hordered List.filter_sublist).filter passes
  rw [List.filter_filter] at hsublist
  simp only [Bool.and_self] at hsublist
  exact (hsublist.eq_of_length ((sort_perm time entries).filter passes).length_eq.symm).symm

/-- The order of times puts the negative zero before the positive one. -/
theorem pairwise_isNegative (time : β → Float32) (entries : List β) (t : Float32) :
    ((sort time entries).filter fun entry => time entry == t).Pairwise fun left right =>
      Single.isNegative (time right) = true → Single.isNegative (time left) = true := by
  have hsorted := (pairwise_sort time entries).sublist
    (List.filter_sublist (p := fun entry => time entry == t))
  refine hsorted.imp_of_mem fun hleft hright hrank hnegative => ?_
  have hleft := (List.mem_filter.1 hleft).2
  have hright := (List.mem_filter.1 hright).2
  have hlevel := (Single.level_eq_of_beq hleft).trans (Single.level_eq_of_beq hright).symm
  rw [Single.rank_eq (Single.isNaN_of_beq hleft).1, Single.rank_eq (Single.isNaN_of_beq hright).1,
    if_pos hnegative] at hrank
  by_contra hpositive
  rw [if_neg hpositive] at hrank
  omega

theorem rank_eq_of_isNegative_eq {left right : β} {negative : Bool}
    (hleft : (time left == t && (Single.isNegative (time left) == negative)) = true)
    (hright : (time right == t && (Single.isNegative (time right) == negative)) = true) :
    Single.rank (time left) = Single.rank (time right) := by
  rw [Bool.and_eq_true, beq_iff_eq (b := negative)] at hleft hright
  exact Single.rank_eq_of_beq hleft.1 hright.1 (hleft.2.trans hright.2.symm)

/-- At one moment the sorted entries are the given ones, those at the negative zero first. -/
theorem filter_sort_eq_givenAt (time : β → Float32) (entries : List β) (t : Float32) :
    (sort time entries).filter (fun entry => time entry == t) = givenAt time entries t := by
  have hsame (negative : Bool) := filter_sort time entries
    (fun entry => time entry == t && (Single.isNegative (time entry) == negative))
    fun _ _ => rank_eq_of_isNegative_eq
  have hnegative := hsame true
  have hpositive := hsame false
  simp only [beq_true, beq_false] at hnegative hpositive
  rw [← filter_append_filter_not (pairwise_isNegative time entries t), List.filter_filter,
    List.filter_filter, givenAt, ← hnegative, ← hpositive]
  simp only [Bool.and_comm]

/-- Times of one moment other than zero have one rank. -/
theorem filter_sort_of_ne_zero (time : β → Float32) (entries : List β)
    (hnonzero : (t == 0) = false) :
    (sort time entries).filter (fun entry => time entry == t) =
      entries.filter fun entry => time entry == t := by
  apply filter_sort
  intro left right hleft hright
  have hsign := (Single.isNegative_eq_of_beq hleft hnonzero).trans
    (Single.isNegative_eq_of_beq hright hnonzero).symm
  exact Single.rank_eq_of_beq hleft hright hsign

/-- A timeline that is accepted arranges the entries that it was given. -/
theorem Arranges.of_ofEntries {fault : Float32 → ConstructionFault}
    (hentries : ofEntries time fault entries = .ok sorted) : Arranges time entries sorted := by
  have hascending := Ascending.of_ofEntries hentries
  rw [ofEntries] at hentries
  split at hentries
  · cases hentries
  next =>
    cases hentries
    refine ⟨sort_perm time entries, ?_, fun t => filter_sort_of_ne_zero time entries,
      fun t _ => filter_sort_eq_givenAt time entries t⟩
    refine hascending.pairwise.imp_of_mem fun hleft hright hlevel => ?_
    exact (Single.le_iff (hascending.isNaN hleft) (hascending.isNaN hright)).2 hlevel

end Timeline

open Timeline (Arranges givenAt)

/-- A channel is sampled at the first of the keys at a moment. -/
theorem Channel.sample_of_head? {keys : List (Keyframe Float32)} {channel : Channel}
    (hchannel : ofKeys keys = .ok channel) {t : Float32} {key : Keyframe Float32}
    (hkey : (channel.keys.filter fun key => key.time == t).head? = some key) :
    channel.sample t = key.value := by
  rw [List.head?_filter] at hkey
  have hequal : (key.time == t) = true := (List.find?_eq_some_iff_append.1 hkey).1
  exact sample_of_find? (ascending_of_ofKeys hchannel) (Single.isNaN_of_beq hequal).2 hkey

/-- Channels and curves hold the keys and nodes that they were given in the order of their times.
Those of one time stay in the order in which they were given, so that a channel is sampled at their
time at the first of them; at zero those at the negative zero come first. -/
theorem timelines_keep_given_order {ε : Type} :
    (∀ (keys : List (Keyframe Float32)) (channel : Channel), Channel.ofKeys keys = .ok channel →
      Arranges Keyframe.time keys channel.keys ∧
        (∀ (t : Float32) (key : Keyframe Float32), (t == 0) = false →
          keys.find? (fun key => key.time == t) = some key → channel.sample t = key.value) ∧
        ∀ (t : Float32) (key : Keyframe Float32), (t == 0) = true →
          (givenAt Keyframe.time keys t).head? = some key → channel.sample t = key.value) ∧
      ∀ (shape : Curve.Shape) (nodes : List (Curve.Node ε Float32)) (input range : ε)
        (curve : Curve ε Float32), Curve.ofNodes shape nodes input range = .ok curve →
          Arranges Curve.Node.time nodes curve.nodes := by
  refine ⟨fun keys channel hchannel => ?_, fun shape nodes input range curve hcurve => ?_⟩
  · have harranges := Arranges.of_ofEntries (Channel.ofEntries_of_ofKeys hchannel)
    refine ⟨harranges, fun t key hnonzero hkey => ?_, fun t key hzero hkey => ?_⟩
    · apply Channel.sample_of_head? hchannel
      rw [harranges.keepsOrder t hnonzero, List.head?_filter, hkey]
    · apply Channel.sample_of_head? hchannel
      rw [harranges.negativeFirst t hzero, hkey]
  · exact .of_ofEntries (Curve.ofEntries_of_ofNodes hcurve)

/-- The keys are not in order, two of them are at one time and two at the zeros. -/
theorem timelines_keep_given_order_four :
    let key (time value : Float32) : Keyframe Float32 :=
      ⟨time, ⟨value, value, value⟩, .standard, none, none⟩
    let keys := [key 1 1, key 0 2, key 1 3, key (-0) 4]
    let channel : Channel := ⟨Timeline.sort Keyframe.time keys⟩
    let nodes : List (Curve.Node Expr Float32) := [.plain .zero 1 .one, .plain .zero 1 .zero]
    let curve : Curve Expr Float32 := ⟨.linear, nodes, .zero, .one⟩
    (Channel.ofKeys keys = .ok channel ∧ Curve.ofNodes .linear nodes .zero .one = .ok curve) ∧
      channel.sample 1 = ⟨1, 1, 1⟩ ∧ channel.sample 0 = ⟨4, 4, 4⟩ ∧
      Arranges Curve.Node.time nodes curve.nodes := by
  intro key keys channel nodes curve
  have hchannel : Channel.ofKeys keys = .ok channel := by
    rw [Channel.ofKeys, Timeline.ofEntries_of_isFinite _ (by decide)]
    rfl
  have hcurve : Curve.ofNodes .linear nodes .zero .one = .ok curve :=
    Curve.ofNodes_of_pairwise .linear nodes (by decide) (by decide) (by decide) .zero .one
  obtain ⟨hchannels, hcurves⟩ := timelines_keep_given_order (ε := Expr)
  obtain ⟨-, hfirst, hzero⟩ := hchannels keys channel hchannel
  exact ⟨⟨hchannel, hcurve⟩, hfirst 1 (key 1 1) (by decide) (by decide),
    hzero 0 (key (-0) 4) (by decide) (by decide), hcurves _ _ _ _ _ hcurve⟩

/-- The two keys are at the same moment, and the one that was given second counts there.  Nodes of a
curve change places in the same way. -/
theorem zeros_leave_given_order :
    let first : Keyframe Float32 := ⟨0, ⟨1, 1, 1⟩, .standard, none, none⟩
    let second : Keyframe Float32 := ⟨-0, ⟨2, 2, 2⟩, .standard, none, none⟩
    let firstNode : Curve.Node Expr Float32 := .plain .zero 0 .one
    let secondNode : Curve.Node Expr Float32 := .plain .zero (-0) .zero
    (first.time == second.time) = true ∧ [first, second].find? (·.time == 0) = some first ∧
      Channel.ofKeys [first, second] = .ok ⟨[second, first]⟩ ∧
      (Channel.mk [second, first]).sample 0 = second.value ∧ second.value ≠ first.value ∧
      Curve.ofNodes .linear [firstNode, secondNode] .zero .one =
        .ok ⟨.linear, [secondNode, firstNode], .zero, .one⟩ := by
  intro first second firstNode secondNode
  have hkeys : Timeline.sort Keyframe.time [first, second] = [second, first] := by
    have hprecedes : Timeline.precedes Keyframe.time first second = false := by decide
    simp [Timeline.sort, List.mergeSort, hprecedes]
  have hnodes : Timeline.sort Curve.Node.time [firstNode, secondNode] =
      [secondNode, firstNode] := by
    have hprecedes : Timeline.precedes Curve.Node.time firstNode secondNode = false := by decide
    simp [Timeline.sort, List.mergeSort, hprecedes]
  refine ⟨by decide, by decide, ?_, ?_, by decide, ?_⟩
  · rw [Channel.ofKeys, Timeline.ofEntries_of_isFinite _ (by decide), hkeys]
    rfl
  · exact Channel.sample_first rfl (by decide)
  · rw [Curve.ofNodes, if_neg (by decide), Timeline.ofEntries_of_isFinite _ (by decide), hnodes]
    rfl

end MotionScript
