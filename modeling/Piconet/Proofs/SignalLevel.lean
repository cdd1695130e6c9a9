import Mathlib.Data.List.Induction
import Piconet.Proofs.Session.Reception

/-!
# Signal levels of a history

The peaks that are kept for a channel are the last ten of the records on it.  The
curve from readings to levels never falls, so the level of their highest reading
is the highest of their levels.  No level is above zero or below minus 120, and
the ratio of two of them always fits its word.
-/

namespace Piconet

/-! ## The curve -/

/-- The curve in whole numbers, with quotients of numbers that are not negative. -/
def curve (value : Int) : Int :=
  if value < -48 then -120
  else if value ≤ -45 then 6 * (value + 28)
  else if value ≤ 30 then -(99 * (62 - value) / 110)
  else if value ≤ 35 then -(60 * (35 - value) / 11)
  else 0

theorem curve_monotone {first second : Int} (ordered : first ≤ second) :
    curve first ≤ curve second := by
  unfold curve
  split_ifs <;> omega

theorem curve_bounds (value : Int) : -120 ≤ curve value ∧ curve value ≤ 0 := by
  unfold curve
  split_ifs <;> omega

/-- A quotient of a negative number that is cut toward zero. -/
theorem tdiv_of_nonpos {dividend : Int} (nonpos : dividend ≤ 0) (divisor : Int) :
    dividend.tdiv divisor = -(-dividend / divisor) := by
  rw [← Int.tdiv_eq_ediv_of_nonneg (by omega), Int.neg_tdiv, Int.neg_neg]

theorem toInt_dbm (reading : Int8) : (dbm reading).toInt = curve reading.toInt := by
  have bounds := curve_bounds reading.toInt
  have value : dbm reading = Int8.ofInt (curve reading.toInt) := by
    refine congrArg Int8.ofInt ?_
    unfold curve
    split_ifs
    · rfl
    · rfl
    · rw [tdiv_of_nonpos (by omega)]
      congr 2
      omega
    · rw [tdiv_of_nonpos (by omega)]
      congr 2
      omega
    · rfl
  rw [value]
  exact Int8.toInt_ofInt_of_le (by omega) (by omega)

theorem dbm_bounds (reading : Int8) : -120 ≤ (dbm reading).toInt ∧ (dbm reading).toInt ≤ 0 := by
  rw [toInt_dbm]
  exact curve_bounds reading.toInt

namespace PeakHistory

/-! ## The highest reading -/

theorem toInt_max (first second : Int8) :
    (max first second).toInt = max first.toInt second.toInt := by
  change (if first ≤ second then second else first).toInt = _
  split
  case isTrue below =>
    rw [Int8.le_iff_toInt_le] at below
    exact (Int.max_eq_right below).symm
  case isFalse above =>
    rw [Int8.le_iff_toInt_le] at above
    exact (Int.max_eq_left (by omega)).symm

instance : Std.LawfulOrderMax Int8 :=
  .of_max_le_iff
    (fun first second bound => by
      rw [Int8.le_iff_toInt_le, Int8.le_iff_toInt_le, Int8.le_iff_toInt_le, toInt_max]
      exact max_le_iff)
    (fun first second => by
      rw [← Int8.toInt_inj, ← Int8.toInt_inj, toInt_max]
      exact max_choice _ _)

/-- The highest peak is in one of the slots, and is below none. -/
theorem max?_slots (slots : Slots) (own : Int8) :
    slots.toList.max? = some (highest slots own) := by
  have filled : slots.toList ≠ [] := by
    intro empty
    have size := slots.length_toList
    rw [empty] at size
    cases size
  obtain ⟨greatest, found⟩ := Option.isSome_iff_exists.1 (List.isSome_max?_of_ne_nil filled)
  rw [highest, found]
  rfl

/-- The level of the highest reading is the highest level. -/
theorem max?_levels {readings : List Int8} {highest : Int8}
    (found : readings.max? = some highest) :
    (readings.map fun reading => (dbm reading).toInt).max? = some (dbm highest).toInt := by
  obtain ⟨member, bound⟩ := List.max?_eq_some_iff.1 found
  refine List.max?_eq_some_iff.2 ⟨List.mem_map.2 ⟨_, member, rfl⟩, fun level there => ?_⟩
  obtain ⟨reading, recorded, rfl⟩ := List.mem_map.1 there
  rw [toInt_dbm, toInt_dbm]
  exact curve_monotone (Int8.le_iff_toInt_le.1 (bound reading recorded))

/-! ## The slots of one channel -/

theorem getElem_rotate (slots : Slots) {place : Nat} (inside : place < depth) :
    (rotate slots)[place] = slots.get ⟨(place + 1) % depth, Nat.mod_lt _ (by decide)⟩ :=
  Vector.getElem_ofFn inside

theorem getElem_push (peak : Int8) (slots : Slots) {place : Nat} (inside : place < depth) :
    (push peak slots)[place] = if depth - 1 = place then peak else (rotate slots)[place] :=
  Vector.getElem_set _ inside

/-- The oldest peak leaves its slot, and the new one comes to the last. -/
theorem toList_push (peak : Int8) (slots : Slots) :
    (push peak slots).toList = slots.toList.tail ++ [peak] := by
  have size : slots.toList.tail.length = depth - 1 := by
    rw [List.length_tail, Vector.length_toList]
  refine List.ext_getElem ?_ fun place below _ => ?_
  · rw [Vector.length_toList, List.length_append, size]
    rfl
  · rw [Vector.length_toList] at below
    rw [Vector.getElem_toList, getElem_push _ _ below]
    split
    case isTrue last =>
      subst last
      rw [List.getElem_append_right (by omega)]
      simp only [size, Nat.sub_self, List.getElem_singleton]
    case isFalse other =>
      have inner : place + 1 < depth := by omega
      rw [List.getElem_append_left (by omega), List.getElem_tail, Vector.getElem_toList,
        getElem_rotate]
      simp only [Nat.mod_eq_of_lt inner]
      rfl

/-- The slots hold the latest of some peaks, and the lowest reading where these are too few. -/
def Holds (slots : Slots) (peaks : List Int8) : Prop :=
  slots.toList = ((peaks ++ List.replicate depth Int8.minValue).take depth).reverse

namespace Holds

variable {slots : Slots} {peaks : List Int8}

theorem push (holds : Holds slots peaks) (peak : Int8) :
    Holds (PeakHistory.push peak slots) (peak :: peaks) := by
  have long : depth ≤ (peaks ++ List.replicate depth Int8.minValue).length := by
    rw [List.length_append, List.length_replicate]
    exact Nat.le_add_left _ _
  rw [Holds, toList_push, holds, List.tail_reverse, List.dropLast_eq_take, List.length_take,
    List.take_take, Nat.min_eq_left long, Nat.min_eq_left (Nat.sub_le _ _)]
  exact List.reverse_cons.symm

theorem eq (holds : Holds slots peaks) {others : Slots} (held : Holds others peaks) :
    slots = others :=
  Vector.toList_inj.1 (holds.trans held.symm)

/-- No peak is below the lowest reading, so that a highest one is in the slots that are filled. -/
theorem max?_take (holds : Holds slots peaks) (nonempty : peaks ≠ []) (own : Int8) :
    (peaks.take depth).max? = some (highest slots own) := by
  obtain ⟨member, bound⟩ := List.max?_eq_some_iff.1 (max?_slots slots own)
  simp only [show slots.toList = _ from holds, List.mem_reverse, List.take_append] at member bound
  have below : ∀ peak ∈ peaks.take depth, peak ≤ highest slots own :=
    fun peak kept => bound peak (List.mem_append_left _ kept)
  refine List.max?_eq_some_iff.2 ⟨?_, below⟩
  obtain kept | spare := List.mem_append.1 member
  · exact kept
  · have lowest := List.eq_of_mem_replicate (List.mem_of_mem_take spare)
    obtain ⟨first, rest, rfl⟩ := List.exists_cons_of_ne_nil nonempty
    have kept : first ∈ (first :: rest).take depth := List.mem_cons_self
    have least : highest slots own ≤ first := by
      rw [lowest, Int8.le_iff_toInt_le]
      exact first.le_toInt
    rw [Int8.le_antisymm least (below first kept)]
    exact kept

end Holds

/-! ## The peaks of one channel -/

def update (history : PeakHistory) (capture : Capture) : PeakHistory × SignalLevel :=
  history.observe capture.channel capture.peak capture.average

def after (captures : List Capture) : PeakHistory :=
  captures.foldl (fun history capture => (history.update capture).1) .empty

/-- The peaks of the records on a channel, the latest in front. -/
def peaksOn (channel : UInt8) (captures : List Capture) : List Int8 :=
  ((captures.filter fun capture => capture.channel = channel).map Capture.peak).reverse

theorem after_concat (captures : List Capture) (capture : Capture) :
    after (captures ++ [capture]) = ((after captures).update capture).1 := by
  rw [after, List.foldl_append]
  rfl

theorem peaksOn_concat_same (captures : List Capture) (capture : Capture) :
    peaksOn capture.channel (captures ++ [capture]) =
      capture.peak :: peaksOn capture.channel captures := by
  rw [peaksOn, List.filter_append, List.filter_singleton, decide_eq_true rfl, List.map_append,
    List.reverse_append]
  rfl

theorem peaksOn_concat_other {channel : UInt8} {capture : Capture}
    (other : capture.channel ≠ channel) (captures : List Capture) :
    peaksOn channel (captures ++ [capture]) = peaksOn channel captures := by
  rw [peaksOn, List.filter_append, List.filter_singleton, decide_eq_false other, cond_false,
    List.append_nil]
  rfl

/-- A record on a channel pushes its peak there, and leaves the slots of other channels alone. -/
theorem channels_update (history : PeakHistory) (capture : Capture) {channel : UInt8}
    (inside : channel.toNat < channelCount) :
    (history.update capture).1.channels[channel.toNat] =
      if capture.channel = channel then push capture.peak history.channels[channel.toNat]
      else history.channels[channel.toNat] := by
  rw [update, observe]
  split
  case isTrue known =>
    simp only [Vector.getElem_set, UInt8.toNat_inj]
    split
    case isTrue same =>
      subst same
      rfl
    case isFalse other => rfl
  case isFalse unknown =>
    have other : capture.channel ≠ channel := by
      rintro rfl
      exact unknown inside
    rw [if_neg other]

/-- The slots of a channel hold the latest of the peaks on it. -/
theorem holds_after (captures : List Capture) {channel : UInt8}
    (inside : channel.toNat < channelCount) :
    Holds (after captures).channels[channel.toNat] (peaksOn channel captures) := by
  induction captures using List.reverseRecOn with
  | nil =>
      have empty : (after []).channels[channel.toNat] = .replicate depth Int8.minValue :=
        Vector.getElem_replicate inside
      rw [empty]
      rfl
  | append_singleton captures capture ih =>
      rw [after_concat, channels_update _ _ inside]
      split
      case isTrue same =>
        subst same
        rw [peaksOn_concat_same]
        exact ih.push capture.peak
      case isFalse other =>
        rw [peaksOn_concat_other other]
        exact ih

/-! ## The levels of a record -/

theorem update_of_inside (history : PeakHistory) {capture : Capture}
    (inside : capture.channel.toNat < channelCount) :
    (history.update capture).2 =
      { signal := dbm (highest (push capture.peak history.channels[capture.channel.toNat])
          capture.peak)
        noise := dbm capture.average } := by
  rw [update, observe, dif_pos inside]

theorem update_of_outside (history : PeakHistory) {capture : Capture}
    (outside : channelCount ≤ capture.channel.toNat) :
    history.update capture =
      (history, { signal := dbm capture.peak, noise := dbm capture.average }) := by
  rw [update, observe, dif_neg (Nat.not_lt.2 outside)]

theorem noise_update (history : PeakHistory) (capture : Capture) :
    (history.update capture).2.noise = dbm capture.average := by
  rw [update, observe]
  split
  · rfl
  · rfl

/-- Whatever the history is, a signal is the level of some reading. -/
theorem exists_signal_update (history : PeakHistory) (capture : Capture) :
    ∃ reading, (history.update capture).2.signal = dbm reading := by
  obtain inside | outside := Nat.lt_or_ge capture.channel.toNat channelCount
  · exact ⟨_, by rw [update_of_inside history inside]⟩
  · exact ⟨capture.peak, by rw [update_of_outside history outside]⟩

/-- The peaks among which the signal of a record is the highest. -/
theorem max?_peaksOn (earlier : List Capture) {next : Capture}
    (inside : next.channel.toNat < channelCount) :
    ((peaksOn next.channel (earlier ++ [next])).take depth).max? =
      some (highest (push next.peak (after earlier).channels[next.channel.toNat]) next.peak) := by
  rw [peaksOn_concat_same]
  exact ((holds_after earlier inside).push next.peak).max?_take (List.cons_ne_nil _ _) _

theorem peaksOn_filter (channel : UInt8) (captures : List Capture) :
    peaksOn channel (captures.filter fun capture => capture.channel = channel) =
      peaksOn channel captures := by
  rw [peaksOn, List.filter_filter]
  simp only [Bool.and_self]
  rfl

end PeakHistory

structure SignalLevel.OnCurve (level : SignalLevel) : Prop where
  signal : -120 ≤ level.signal.toInt ∧ level.signal.toInt ≤ 0
  noise : -120 ≤ level.noise.toInt ∧ level.noise.toInt ≤ 0

theorem PeakHistory.onCurve_update (history : PeakHistory) (capture : Capture) :
    (history.update capture).2.OnCurve := by
  obtain ⟨reading, signal⟩ := history.exists_signal_update capture
  refine ⟨?_, ?_⟩
  · rw [signal]
    exact dbm_bounds reading
  · rw [noise_update]
    exact dbm_bounds capture.average

theorem Session.level_of_packet {session next : Session} {capture : Capture} {packet : Packet}
    (done : session.process capture = .ok (next, some packet)) :
    packet.level = (session.peaks.update capture).2 := by
  obtain ⟨found, action, -, rfl⟩ := trimFor_of_packet done
  rfl

/-- The ratio of levels on the curve is not held back by its word. -/
theorem Packet.ratio_of_onCurve {packet : Packet} (bounded : packet.level.OnCurve) :
    packet.ratio.toInt = packet.level.signal.toInt - packet.level.noise.toInt := by
  have signal := bounded.signal
  have noise := bounded.noise
  rw [Packet.ratio, Int8.toInt_ofInt_of_le]
  · omega
  · omega
  · omega

/--
Whatever records came before, the signal of a record on a channel is the highest level of
the last ten peaks on that channel, its own included, and the records on other channels
could as well be left out.  A record on a channel that does not exist has the level of its
own peak and leaves the history as it is.  The noise is the level of the record's average.
All levels lie between minus 120 and zero, so that the ratio in a packet of a session is
the difference of its levels.
-/
theorem signal_is_recent_peak (earlier : List Capture) (next : Capture) :
    (next.channel.toNat < 79 →
      ((((PeakHistory.peaksOn next.channel (earlier ++ [next])).take 10).map
          fun peak => (dbm peak).toInt).max? =
        some ((PeakHistory.after earlier).update next).2.signal.toInt) ∧
      ((PeakHistory.after
          (earlier.filter fun capture => capture.channel = next.channel)).update next).2 =
        ((PeakHistory.after earlier).update next).2) ∧
    (79 ≤ next.channel.toNat →
      ((PeakHistory.after earlier).update next).2.signal = dbm next.peak ∧
      ((PeakHistory.after earlier).update next).1 = PeakHistory.after earlier) ∧
    ((PeakHistory.after earlier).update next).2.noise = dbm next.average ∧
    ((PeakHistory.after earlier).update next).2.OnCurve ∧
    ∀ (session later : Session) (packet : Packet),
      session.process next = .ok (later, some packet) →
        packet.level = (session.peaks.update next).2 ∧ packet.level.OnCurve ∧
          packet.ratio.toInt = packet.level.signal.toInt - packet.level.noise.toInt := by
  refine ⟨fun inside => ⟨?_, ?_⟩, fun outside => ?_, ?_, ?_, ?_⟩
  · rw [PeakHistory.update_of_inside _ inside]
    exact PeakHistory.max?_levels (PeakHistory.max?_peaksOn earlier inside)
  · have alone := PeakHistory.holds_after
      (earlier.filter fun capture => capture.channel = next.channel) inside
    rw [PeakHistory.peaksOn_filter] at alone
    rw [PeakHistory.update_of_inside _ inside, PeakHistory.update_of_inside _ inside,
      alone.eq (PeakHistory.holds_after earlier inside)]
  · rw [PeakHistory.update_of_outside _ outside]
    exact ⟨rfl, rfl⟩
  · exact PeakHistory.noise_update _ _
  · exact PeakHistory.onCurve_update _ _
  · intro session later packet done
    have level := Session.level_of_packet done
    have bounded : packet.level.OnCurve := by
      rw [level]
      exact PeakHistory.onCurve_update _ _
    exact ⟨level, bounded, Packet.ratio_of_onCurve bounded⟩

/-- Ten quiet records on its channel hide a loud one, and one elsewhere is never heard there. -/
theorem signal_is_recent_peak_hidden :
    let loud : Capture := { Session.inquiryRecord with peak := 30 }
    let quiet : Capture := { Session.inquiryRecord with peak := -30 }
    let elsewhere : Capture := { loud with channel := 2 }
    let nowhere : Capture := { loud with channel := 200 }
    let earlier := loud :: elsewhere :: List.replicate 9 quiet
    quiet.channel.toNat < 79 ∧ 79 ≤ nowhere.channel.toNat ∧
      (((PeakHistory.peaksOn 39 (earlier ++ [quiet])).take 10).map
        fun peak => (dbm peak).toInt).max? = some (-82) ∧
      ((PeakHistory.after earlier).update quiet).2.signal.toInt = -82 ∧
      ((PeakHistory.after earlier).update nowhere).1 = PeakHistory.after earlier ∧
      ∃ later packet, (Session.new (.ofNat 0x9e8b33) none { trims := false }).process
          { Session.inquiryRecord with clockHigh := 3, counter := 100000 } =
            .ok (later, some packet) ∧ packet.ratio.toInt = 36 := by
  intro loud quiet elsewhere nowhere earlier
  have inside : quiet.channel.toNat < 79 := by decide
  have outside : 79 ≤ nowhere.channel.toNat := by decide
  have greatest : (((PeakHistory.peaksOn 39 (earlier ++ [quiet])).take 10).map
      fun peak => (dbm peak).toInt).max? = some (-82) := by decide +kernel
  have done := @Session.process_inquiryRecord (.new (.ofNat 0x9e8b33) none { trims := false }) _
    rfl rfl 3 100000 _ ((Session.trim_eq_ok_iff _).2 (.inl ⟨rfl, rfl, rfl⟩))
  obtain ⟨highest, -⟩ := (signal_is_recent_peak earlier quiet).1 inside
  obtain ⟨-, same⟩ := (signal_is_recent_peak earlier nowhere).2.1 outside
  obtain ⟨level, -, ratio⟩ := (signal_is_recent_peak [] _).2.2.2.2 _ _ _ done
  refine ⟨inside, outside, greatest, ?_, same, _, _, done, ?_⟩
  · exact Option.some.inj (highest.symm.trans greatest)
  · rw [ratio, level]
    decide +kernel

end Piconet
