import Piconet.Proofs.Radio.Asking
import Piconet.Proofs.Text.Utf8

/-!
# The texts of a board

The revision and the build of the firmware come as texts behind a byte that counts
theirs, the revision behind two more bytes.  A text of at most 255 bytes is read back
whatever stands behind it.  Where the count is larger than the number of the bytes that
are there, these are taken; malformed is only a reply without the bytes in front of the
text.  Two bytes alone are a revision too, which is the number that they spell.
-/

namespace Piconet.Radio

open Text

def counted (text : String) : List UInt8 :=
  UInt8.ofNat (Utf8.bytes text).length :: Utf8.bytes text

def Link.bringing (link : Link) (data : List UInt8) : Link :=
  { link with replies := .ok data :: link.replies }

theorem Asks.run_bringing {Result : Type} {conversation : Conversation Result} {event : Event}
    {answer : List UInt8 → Option Result} (asks : Asks conversation event answer) (link : Link)
    (data : List UInt8) :
    (conversation.run (link.bringing data)).1 = (answer data).elim (.error .malformed) .ok := by
  rw [asks]
  rfl

theorem getRevision_asks : Asks getRevision (.read .getRevision 258) revision? :=
  (read_asks .getRevision 258).expect revision?

theorem getBuildInfo_asks : Asks getBuildInfo (.read .getBuildInfo 256) countedText? :=
  (read_asks .getBuildInfo 256).expect countedText?

/-! ## Counted texts -/

/-- A count takes the bytes that are there, and no more of them than it says. -/
theorem exists_countedText? (length : UInt8) (body : List UInt8) :
    ∃ part, part <+: body ∧ part.length = min length.toNat body.length ∧
      countedText? (length :: body) = some (Utf8.decode part) :=
  ⟨body.take length.toNat, List.take_prefix _ _, List.length_take, rfl⟩

theorem countedText?_counted {text : String} (short : (Utf8.bytes text).length ≤ 255)
    (trailing : List UInt8) : countedText? (counted text ++ trailing) = some text := by
  have length : (UInt8.ofNat (Utf8.bytes text).length).toNat = (Utf8.bytes text).length :=
    UInt8.toNat_ofNat_of_lt' (Nat.lt_succ_of_le short)
  rw [counted, List.cons_append, countedText?, length, List.take_left, Utf8.decode_bytes]

theorem countedText?_eq_none_iff (data : List UInt8) : countedText? data = none ↔ data = [] := by
  cases data with
  | nil => exact iff_of_true rfl rfl
  | cons length body => exact iff_of_false (Option.some_ne_none _) (List.cons_ne_nil _ _)

/-! ## Revisions -/

/-- With a byte behind its number, a revision is the text that this byte counts. -/
theorem revision?_of_ne_nil (low high : UInt8) {rest : List UInt8} (more : rest ≠ []) :
    revision? (low :: high :: rest) = countedText? rest := by
  cases rest with
  | nil => exact absurd rfl more
  | cons length body => rfl

theorem revision?_pair (low high : UInt8) :
    revision? [low, high] = some (toString (low.toNat + 256 * high.toNat)) := by
  simp only [revision?, ByteOrder.ofLittle, Nat.mul_zero, Nat.add_zero]

theorem revision?_eq_none_iff (data : List UInt8) : revision? data = none ↔ data.length < 2 := by
  match data with
  | [] => exact iff_of_true rfl (by decide)
  | [_] => exact iff_of_true rfl (Nat.lt_succ_self 1)
  | [low, high] =>
      rw [revision?_pair]
      exact iff_of_false (Option.some_ne_none _) (Nat.lt_irrefl 2)
  | low :: high :: length :: body =>
      rw [revision?_of_ne_nil _ _ (List.cons_ne_nil _ _), countedText?_eq_none_iff]
      refine iff_of_false (List.cons_ne_nil _ _) (Nat.not_lt.2 ?_)
      exact Nat.le_add_left _ _

/-! ## Reading them from the radio -/

theorem elim_eq_error_iff {Result : Type} (result : Option Result) (fault : Fault) :
    result.elim (.error .malformed) .ok = (.error fault : Except Fault Result) ↔
      fault = .malformed ∧ result = none := by
  cases result with
  | none => exact ⟨fun same => ⟨(Except.error.inj same).symm, rfl⟩, fun both => both.1 ▸ rfl⟩
  | some value => exact ⟨nofun, nofun⟩

/--
A counted text of at most 255 bytes is read back, as a build and behind any two bytes
as a revision, whatever follows it.  Two bytes are the decimal form of a number.  Of
any other reply with a count the text is what the count leaves of the bytes behind it,
also if there are fewer of them.  The one fault is that the reply is malformed, exactly
if it is shorter than two bytes for a revision, and if it is empty for a build.
-/
theorem board_texts_are_read_back (link : Link) :
    (∀ (text : String) (low high : UInt8) (trailing : List UInt8),
      (Utf8.bytes text).length ≤ 255 →
        (getRevision.run (link.bringing (low :: high :: (counted text ++ trailing)))).1 =
          .ok text ∧
        (getBuildInfo.run (link.bringing (counted text ++ trailing))).1 = .ok text) ∧
    (∀ low high : UInt8, (getRevision.run (link.bringing [low, high])).1 =
      .ok (toString (low.toNat + 256 * high.toNat))) ∧
    (∀ (low high length : UInt8) (body : List UInt8), ∃ part, part <+: body ∧
      part.length = min length.toNat body.length ∧
      (getRevision.run (link.bringing (low :: high :: length :: body))).1 =
        .ok (Utf8.decode part) ∧
      (getBuildInfo.run (link.bringing (length :: body))).1 = .ok (Utf8.decode part)) ∧
    ∀ (data : List UInt8) (fault : Fault),
      ((getRevision.run (link.bringing data)).1 = .error fault ↔
        fault = .malformed ∧ data.length < 2) ∧
      ((getBuildInfo.run (link.bringing data)).1 = .error fault ↔
        fault = .malformed ∧ data = []) := by
  simp only [getRevision_asks.run_bringing, getBuildInfo_asks.run_bringing]
  refine ⟨fun text low high trailing short => ?_, fun low high => ?_,
    fun low high length body => ?_, fun data fault => ?_⟩
  · have revision : revision? (low :: high :: (counted text ++ trailing)) = _ :=
      revision?_of_ne_nil low high (List.cons_ne_nil _ _)
    rw [revision, countedText?_counted short]
    exact ⟨rfl, rfl⟩
  · rw [revision?_pair]
    rfl
  · obtain ⟨part, isPart, size, read⟩ := exists_countedText? length body
    refine ⟨part, isPart, size, ?_⟩
    rw [revision?_of_ne_nil _ _ (List.cons_ne_nil _ _), read]
    exact ⟨rfl, rfl⟩
  · rw [elim_eq_error_iff, elim_eq_error_iff, revision?_eq_none_iff, countedText?_eq_none_iff]
    exact ⟨Iff.rfl, Iff.rfl⟩

/-- A text with characters of one byte to four, and half a character behind it. -/
theorem board_texts_are_read_back_cut :
    let text : String := "r1 é€😀"
    let reply : List UInt8 := [12, 0x72, 0x31, 0x20, 0xc3, 0xa9, 0xe2, 0x82, 0xac,
      0xf0, 0x9f, 0x98, 0x80, 0xe2, 0x82]
    (Utf8.bytes text).length ≤ 255 ∧
      (getRevision.run (Link.bringing {} (0x39 :: 0x05 :: reply))).1 = .ok text ∧
      (getBuildInfo.run (Link.bringing {} reply)).1 = .ok text := by
  intro text reply
  have short : (Utf8.bytes text).length ≤ 255 := by decide
  have spelled : reply = counted text ++ [0xe2, 0x82] := by decide
  rw [spelled]
  exact ⟨short, (board_texts_are_read_back {}).1 text 0x39 0x05 [0xe2, 0x82] short⟩

end Piconet.Radio
