import MotionScript.Channel
import MotionScript.Proofs.Number.Difference
import MotionScript.Proofs.Timeline.Ascending
/-!
# Where a channel is sampled

At any moment the keys of a channel are those before it and those that are not, and each part is a
piece of the list.  So a channel is sampled at the first key of the second part if that key is at
the moment, and otherwise on the segment from the last key of the first part to it.  The mode of the
former key says which formula the segment follows.
-/

namespace MotionScript

/-! ### Modes -/

/-- What the mode of the key `start` makes of the way to the next key at progress `u`: the value
stays, or each component follows a formula of its own in the values around it.  A neighbour, a
control value or a tangent is only looked at in the mode that it belongs to. -/
structure Keyframe.Governs (before start stop after : Keyframe Float32) (u : Float32)
    (value : Triple Float32) : Prop where
  step : start.transition = .step → value = start.value
  catmullRom : start.transition = .catmullRom → ∀ component ∈ Triple.components,
    component value = MotionScript.catmullRom (component before.value) (component start.value)
      (component stop.value) (component after.value) u
  bezier : start.transition = .bezier → ∀ component ∈ Triple.components,
    component value = MotionScript.bezier (component start.value)
      (component (start.post.getD start.value)) (component (stop.pre.getD stop.value))
      (component stop.value) u
  tangent : ∀ easing, start.transition = .ease easing → start.post.isSome ∨ stop.pre.isSome →
    ∀ component ∈ Triple.components,
      let chord := component stop.value - component start.value
      component value = hermite (component start.value) ((start.post.map component).getD chord)
        (component stop.value) ((stop.pre.map component).getD chord) u
  eased : ∀ easing, start.transition = .ease easing → start.post = none → stop.pre = none →
    ∀ component ∈ Triple.components,
      component value =
        lerp (component start.value) (component stop.value) (easing.apply u)

/-- A segment follows the formula that belongs to the mode of the key it starts at. -/
theorem Keyframe.governs_segment (before start stop after : Keyframe Float32) (u : Float32) :
    Governs before start stop after u (segment before start stop after u) where
  step htransition := by rw [segment, htransition]
  catmullRom htransition component hcomponent := by
    simp only [segment, htransition, splineSegment, Triple.component_ofComponents hcomponent]
  bezier htransition component hcomponent := by
    simp only [segment, htransition, controlSegment, Triple.component_ofComponents hcomponent]
  tangent easing htransition hsome component hcomponent := by
    have hchord : component (start.chord stop) = component stop.value - component start.value :=
      Triple.component_ofComponents hcomponent _
    have htangent (given : Option (Triple Float32)) :
        component (given.getD (start.chord stop)) =
          (given.map component).getD (component stop.value - component start.value) := by
      cases given with
      | some tangent => rfl
      | none => exact hchord
    simp only [segment, htransition, Bool.or_eq_true, if_pos hsome, tangentSegment,
      Triple.component_ofComponents hcomponent, htangent]
  eased easing htransition hpost hpre component hcomponent := by
    simp [segment, htransition, hpost, hpre, easedSegment,
      Triple.component_ofComponents hcomponent]

namespace Channel

open Timeline (Ascending)

/-- The keys of a channel are a timeline. -/
theorem ofEntries_of_ofKeys {keys : List (Keyframe Float32)} {channel : Channel}
    (hchannel : ofKeys keys = .ok channel) :
    Timeline.ofEntries Keyframe.time .keyTimeNotFinite keys = .ok channel.keys := by
  rw [ofKeys] at hchannel
  cases hsorted : Timeline.ofEntries Keyframe.time .keyTimeNotFinite keys with
  | error fault => rw [hsorted] at hchannel; cases hchannel
  | ok sorted =>
      rw [hsorted] at hchannel
      cases hchannel
      rfl

theorem ascending_of_ofKeys {keys : List (Keyframe Float32)} {channel : Channel}
    (hchannel : ofKeys keys = .ok channel) : Ascending Keyframe.time channel.keys :=
  .of_ofEntries (ofEntries_of_ofKeys hchannel)

theorem ofKeys_of_pairwise {keys : List (Keyframe Float32)}
    (hfinite : ∀ key ∈ keys, key.time.isFinite = true)
    (hordered : keys.Pairwise fun left right => Single.rank left.time ≤ Single.rank right.time) :
    ofKeys keys = .ok ⟨keys⟩ := by
  rw [ofKeys, Timeline.ofEntries_of_pairwise _ hfinite hordered]
  rfl

/-! ### Sampling with the keys parted -/

section Parted

variable {channel : Channel} {t : Float32} {start stop : Keyframe Float32}
  {earlier later : List (Keyframe Float32)}

theorem sample_first (hkeys : channel.keys = stop :: later) (hstop : t ≤ stop.time) :
    channel.sample t = stop.value := by
  simp [sample, hkeys, hstop]

/-- From the last key on, a channel keeps the value of that key. -/
theorem sample_last (hkeys : channel.keys = earlier ++ [start])
    (hpassed : ∀ key ∈ earlier ++ [start], ¬ t ≤ key.time) (hstart : start.time ≤ t) :
    channel.sample t = start.value := by
  have htest : ∀ key ∈ earlier ++ [start], (!decide (t ≤ key.time)) = true := by
    simpa using hpassed
  simp only [sample, hkeys]
  rw [List.takeWhile_eq_self_iff.2 htest, List.dropWhile_eq_nil_iff.2 htest, List.reverse_append]
  exact if_pos hstart

/-- Between two keys a channel is sampled on the segment from the former to the latter. -/
theorem sample_inside (hkeys : channel.keys = earlier ++ start :: stop :: later)
    (hpassed : ∀ key ∈ earlier ++ [start], ¬ t ≤ key.time) (hstop : t ≤ stop.time) :
    channel.sample t =
      if stop.time ≤ t then stop.value else between t start earlier.reverse stop later := by
  have htest : ∀ key ∈ earlier ++ [start], (!decide (t ≤ key.time)) = true := by
    simpa using hpassed
  have hsplit : channel.keys = (earlier ++ [start]) ++ stop :: later := by
    rw [hkeys, List.append_assoc]
    rfl
  simp only [sample, hsplit]
  rw [List.takeWhile_append_of_pos htest, List.dropWhile_append_of_pos htest]
  simp [hstop]

end Parted

/-! ### Which keys a sample is made from -/

section Sorted

variable {channel : Channel} {t : Float32}

/-- The keys before the first one at a moment are before that moment. -/
theorem sample_of_find? (hascending : Ascending Keyframe.time channel.keys) (ht : t.isNaN = false)
    {key : Keyframe Float32} (hkey : channel.keys.find? (fun key => key.time == t) = some key) :
    channel.sample t = key.value := by
  obtain ⟨hequal, earlier, later, hkeys, hearlier⟩ := List.find?_eq_some_iff_append.1 hkey
  have hnumber := hascending.isNaN (List.mem_of_find?_eq_some hkey)
  have hlevel := (Single.beq_iff hnumber ht).1 hequal
  have hle : t ≤ key.time := (Single.le_iff ht hnumber).2 hlevel.ge
  have hpassed : ∀ other ∈ earlier, ¬ t ≤ other.time := by
    intro other hmem hother
    rw [hkeys] at hascending
    have hnumber' := hascending.isNaN (List.mem_append_left _ hmem)
    have hbefore := hascending.level_le hmem List.mem_cons_self
    rw [Single.le_iff ht hnumber'] at hother
    have hsame := (Single.beq_iff hnumber' ht).2 (by omega)
    have hdiffers := hearlier other hmem
    rw [hsame] at hdiffers
    cases hdiffers
  obtain rfl | ⟨earlier, start, rfl⟩ := List.eq_nil_or_concat earlier
  · exact sample_first hkeys hle
  · rw [List.concat_eq_append] at hkeys hpassed
    rw [List.append_assoc] at hkeys
    rw [sample_inside hkeys hpassed hle, if_pos ((Single.le_iff hnumber ht).2 hlevel.le)]

/-- The keys are parted into those before a moment and those after it if none is at the moment. -/
theorem exists_parted (hascending : Ascending Keyframe.time channel.keys) (ht : t.isNaN = false)
    (hmiss : ∀ key ∈ channel.keys, (key.time == t) = false)
    (habove : ¬ ∀ key ∈ channel.keys, key.time < t) :
    ∃ front stop later, channel.keys = front ++ stop :: later ∧ (∀ key ∈ front, key.time < t) ∧
      ∀ key ∈ stop :: later, t < key.time := by
  have hside : ∀ key ∈ channel.keys, ¬ t < key.time → key.time < t := by
    intro key hmem hnot
    have hnumber := hascending.isNaN hmem
    have hdiffers : Single.level key.time ≠ Single.level t := by
      rw [ne_eq, ← Single.beq_iff hnumber ht, hmiss key hmem]
      exact Bool.false_ne_true
    rw [Single.lt_iff ht hnumber] at hnot
    rw [Single.lt_iff hnumber ht]
    omega
  cases hfirst : channel.keys.find? fun key => decide (t < key.time) with
  | none =>
      refine absurd (fun key hmem => hside key hmem ?_) habove
      simpa using List.find?_eq_none.1 hfirst key hmem
  | some stop =>
      obtain ⟨hstop, front, later, hkeys, hfront⟩ := List.find?_eq_some_iff_append.1 hfirst
      refine ⟨front, stop, later, hkeys, fun key hmem => ?_, fun key hmem => ?_⟩
      · refine hside key (by rw [hkeys]; exact List.mem_append_left _ hmem) ?_
        simpa using hfront key hmem
      · have hstop : t < stop.time := of_decide_eq_true hstop
        have hnumber := hascending.isNaN (List.mem_of_find?_eq_some hfirst)
        rw [hkeys, ← List.singleton_append, ← List.append_assoc] at hascending
        obtain rfl | hlater := List.mem_cons.1 hmem
        · exact hstop
        · have hlast : stop ∈ front ++ [stop] := List.mem_append_right _ (by simp)
          have hbehind := hascending.level_le hlast hlater
          rw [Single.lt_iff ht hnumber] at hstop
          rw [Single.lt_iff ht (hascending.isNaN (List.mem_append_right _ hlater))]
          exact hstop.trans_le hbehind

/-- The segment that a channel runs on at a moment: it leads from the last key before the moment to
the next key, which is the first one after it, and the mode of the former governs it.  The other
keys that it may look at are those on either side of the two, or the two themselves at the ends of
the channel.  Its span is positive, so that there is a progress on it. -/
structure RunsOn (channel : Channel) (t : Float32) (earlier : List (Keyframe Float32))
    (start stop : Keyframe Float32) (later : List (Keyframe Float32)) : Prop where
  keys_eq : channel.keys = earlier ++ start :: stop :: later
  passed_lt : ∀ key ∈ earlier ++ [start], key.time < t
  lt_coming : ∀ key ∈ stop :: later, t < key.time
  span_pos : 0 < stop.time - start.time
  sample_eq : channel.sample t =
    Keyframe.segment (earlier.getLast?.getD start) start stop (later.head?.getD stop)
      ((t - start.time) / (stop.time - start.time))
  governs : Keyframe.Governs (earlier.getLast?.getD start) start stop (later.head?.getD stop)
    ((t - start.time) / (stop.time - start.time)) (channel.sample t)

/-- Between two keys a channel runs on the segment from the one to the other. -/
theorem exists_runsOn (hascending : Ascending Keyframe.time channel.keys) (ht : t.isNaN = false)
    (hmiss : ∀ key ∈ channel.keys, (key.time == t) = false)
    (hbelow : ¬ ∀ key ∈ channel.keys, t < key.time)
    (habove : ¬ ∀ key ∈ channel.keys, key.time < t) :
    ∃ earlier start stop later, channel.RunsOn t earlier start stop later := by
  obtain ⟨front, stop, later, hkeys, hpassed, hcoming⟩ :=
    exists_parted hascending ht hmiss habove
  obtain rfl | ⟨earlier, start, rfl⟩ := List.eq_nil_or_concat front
  · refine absurd ?_ hbelow
    rwa [hkeys]
  · rw [List.concat_eq_append] at hkeys hpassed
    rw [List.append_assoc] at hkeys
    have hstart : start ∈ channel.keys := by rw [hkeys]; simp
    have hstop : stop ∈ channel.keys := by rw [hkeys]; simp
    have hnumber := hascending.isNaN hstop
    have hbefore : start.time < t := hpassed start (List.mem_append_right _ (by simp))
    have hafter : t < stop.time := hcoming stop List.mem_cons_self
    have hlt : start.time < stop.time :=
      Single.lt_trans (hascending.isNaN hstart) ht hnumber hbefore hafter
    have hnot : ∀ key ∈ earlier ++ [start], ¬ t ≤ key.time := by
      intro key hmem
      have hkey : key ∈ channel.keys := by
        rw [hkeys, ← List.singleton_append, ← List.append_assoc]
        exact List.mem_append_left _ hmem
      exact (Single.not_le_iff ht (hascending.isNaN hkey)).2 (hpassed key hmem)
    have hsample : channel.sample t =
        Keyframe.segment (earlier.getLast?.getD start) start stop (later.head?.getD stop)
          ((t - start.time) / (stop.time - start.time)) := by
      rw [sample_inside hkeys hnot (Single.le_of_lt ht hnumber hafter),
        if_neg ((Single.not_le_iff hnumber ht).2 hafter), between,
        Single.progress_of_lt (hascending.isFinite start hstart) (hascending.isFinite stop hstop)
          hlt, List.headD_eq_head?_getD, List.headD_eq_head?_getD, List.head?_reverse]
    exact ⟨earlier, start, stop, later, hkeys, hpassed, hcoming,
      Single.sub_pos (hascending.isFinite start hstart) (hascending.isFinite stop hstop) hlt,
      hsample, hsample ▸ Keyframe.governs_segment ..⟩

end Sorted

end Channel

/-- Without keys a channel is zero.  At the time of a key it has the value of the first key of that
time, before all keys that of the first and behind all keys that of the last, and at any other
moment it runs on the segment between the keys on either side, in the mode of the earlier one. -/
theorem sample_seeks {keys : List (Keyframe Float32)} {channel : Channel}
    (hchannel : Channel.ofKeys keys = .ok channel) {t : Float32} (ht : t.isNaN = false) :
    (channel.keys = [] → channel.sample t = ⟨0, 0, 0⟩) ∧
      (∀ key, channel.keys.find? (fun key => key.time == t) = some key →
        channel.sample t = key.value) ∧
      (∀ first, channel.keys.head? = some first → (∀ key ∈ channel.keys, t < key.time) →
        channel.sample t = first.value) ∧
      (∀ last, channel.keys.getLast? = some last → (∀ key ∈ channel.keys, key.time < t) →
        channel.sample t = last.value) ∧
      ((∀ key ∈ channel.keys, (key.time == t) = false) →
        (¬ ∀ key ∈ channel.keys, t < key.time) → (¬ ∀ key ∈ channel.keys, key.time < t) →
          ∃ earlier start stop later, channel.RunsOn t earlier start stop later) := by
  have hascending := Channel.ascending_of_ofKeys hchannel
  refine ⟨?_, ?_, ?_, ?_, ?_⟩
  · intro hempty
    simp [Channel.sample, hempty, Channel.blank]
  · exact fun key hkey => Channel.sample_of_find? hascending ht hkey
  · intro first hfirst hbelow
    obtain ⟨later, hkeys⟩ := List.head?_eq_some_iff.1 hfirst
    have hmem : first ∈ channel.keys := List.mem_of_head? hfirst
    exact Channel.sample_first hkeys
      (Single.le_of_lt ht (hascending.isNaN hmem) (hbelow first hmem))
  · intro last hlast habove
    obtain ⟨earlier, hkeys⟩ := List.getLast?_eq_some_iff.1 hlast
    have hmem : last ∈ channel.keys := List.mem_of_getLast? hlast
    refine Channel.sample_last hkeys (fun key hkey => ?_)
      (Single.le_of_lt (hascending.isNaN hmem) ht (habove last hmem))
    rw [← hkeys] at hkey
    exact (Single.not_le_iff ht (hascending.isNaN hkey)).2 (habove key hkey)
  · exact Channel.exists_runsOn hascending ht

/-- Two of the three keys stand at one time, and the one that was given first counts there. -/
theorem sample_seeks_three :
    let key (time value : Float32) (transition : Transition) : Keyframe Float32 :=
      ⟨time, ⟨value, value, value⟩, transition, none, none⟩
    let channel : Channel := ⟨[key 0 1 .catmullRom, key 2 3 .bezier, key 2 4 .step]⟩
    Channel.ofKeys channel.keys = .ok channel ∧ channel.sample (-1) = ⟨1, 1, 1⟩ ∧
      channel.sample 2 = ⟨3, 3, 3⟩ ∧ channel.sample 5 = ⟨4, 4, 4⟩ ∧
      ∃ earlier start stop later, channel.RunsOn 1 earlier start stop later := by
  intro key channel
  have hchannel : Channel.ofKeys channel.keys = .ok channel :=
    Channel.ofKeys_of_pairwise (by decide) (by decide)
  obtain ⟨-, -, hbelow, -, -⟩ := sample_seeks hchannel (t := -1) rfl
  obtain ⟨-, hequal, -, -, -⟩ := sample_seeks hchannel (t := 2) rfl
  obtain ⟨-, -, -, habove, -⟩ := sample_seeks hchannel (t := 5) rfl
  obtain ⟨-, -, -, -, hbetween⟩ := sample_seeks hchannel (t := 1) rfl
  exact ⟨hchannel, hbelow _ rfl (by decide), hequal (key 2 3 .bezier) (by decide),
    habove _ rfl (by decide), hbetween (by decide) (by decide) (by decide)⟩

end MotionScript
