import Prism.Properties.ManifestCodec

/-!
What the checks of one event decide at the edges of their types: the skew gate and the time window
on every 64-bit timestamp, and validation on every text a key may be.
-/

namespace Prism

theorem wrapI64_of_inI64 {x : Int} (range : InI64 x) : wrapI64 x = x := by
  obtain ⟨low, high⟩ := range
  simp only [minI64, maxI64] at low high
  simp only [wrapI64, Int.bmod_def]
  split <;> omega

/-! ### The skew gate -/

/-- The verdict of the gate is that of the inequality, with the reason of the side that fails. -/
def Event.SkewExact (e : Event) (nowMs : Int) : Prop :=
  (e.checkSkew nowMs = .ok () ↔
    nowMs - maxLatenessMs ≤ e.eventTime ∧ e.eventTime ≤ nowMs + maxSkewAheadMs) ∧
  ((∃ detail, e.checkSkew nowMs = .error ⟨.eventTimeTooLate, detail⟩) ↔
    e.eventTime < nowMs - maxLatenessMs) ∧
  ((∃ detail, e.checkSkew nowMs = .error ⟨.eventTimeInFuture, detail⟩) ↔
    nowMs + maxSkewAheadMs < e.eventTime)

/-- Without a wrap, both comparisons are those of the true difference. -/
theorem skewExact_of_difference {e : Event} {nowMs : Int}
    (difference : wrapI64 (nowMs - e.eventTime) = nowMs - e.eventTime)
    (negated : wrapI64 (-(nowMs - e.eventTime)) = -(nowMs - e.eventTime)) : e.SkewExact nowMs := by
  have late : 0 ≤ maxLatenessMs := by decide
  have ahead : 0 ≤ maxSkewAheadMs := by decide
  unfold Event.SkewExact Event.checkSkew
  simp only [difference, negated]
  split
  · simp
    omega
  · split
    · simp
      omega
    · simp
      omega

/-- A difference of `2 ^ 63` or more wraps to a negative one, which is never too late. -/
theorem wrapI64_difference_neg {x : Int} (low : 2 ^ 63 ≤ x) (high : x < 2 ^ 64) :
    wrapI64 x < 0 := by
  simp only [wrapI64, Int.bmod_def]
  split <;> omega

/-- The gate is exact unless the subtraction wraps. -/
theorem checkSkew_exact_iff (e : Event) (nowMs : Int) (clock : InI64 nowMs) (started : 0 ≤ nowMs)
    (time : InI64 e.eventTime) : e.SkewExact nowMs ↔ nowMs - e.eventTime < 2 ^ 63 := by
  simp only [InI64, minI64, maxI64] at clock time
  constructor
  · rintro ⟨-, late, -⟩
    by_contra wraps
    have negative : wrapI64 (nowMs - e.eventTime) < 0 :=
      wrapI64_difference_neg (by omega) (by omega)
    have bound : maxLatenessMs = 604800000 := by decide
    -- The event is far behind the clock, and the gate says anything but that.
    obtain ⟨detail, verdict⟩ := late.mpr (by omega)
    simp only [Event.checkSkew, show ¬ wrapI64 (nowMs - e.eventTime) > maxLatenessMs by omega,
      if_false] at verdict
    split at verdict <;> simp at verdict
  · intro fits
    refine skewExact_of_difference (wrapI64_of_inI64 ?_) (wrapI64_of_inI64 ?_) <;>
      simp only [InI64, minI64, maxI64] <;> omega

def eventAt (eventTime : Int) : Event :=
  ⟨"e1", "t1", eventTime, 0, "llm.call", ⟨0⟩, false, "hello", "", "", ∅, none⟩

theorem checkSkew_exact_minute_ago :
    (eventAt 0).SkewExact 60000 ↔ (60000 : Int) - 0 < 2 ^ 63 :=
  checkSkew_exact_iff (eventAt 0) 60000 (by decide) (by decide) (by decide)

/-- The oldest timestamp of all passes the gate at the epoch. -/
theorem oldest_event_passes :
    (eventAt minI64).checkSkew 0 = .ok () ∧ minI64 < 0 - maxLatenessMs := by
  decide

/-! ### Time windows -/

/-- The window starts at a multiple of its length and holds the timestamp. -/
def PartitionScheme.WindowHolds (scheme : PartitionScheme) (eventTime : Int) : Prop :=
  scheme.windowOf eventTime ≤ eventTime ∧
  eventTime < scheme.windowOf eventTime + scheme.timeWindowMs ∧
  scheme.timeWindowMs ∣ scheme.windowOf eventTime

section Windows

variable {scheme : PartitionScheme} {time : Int}
  (positive : 0 < scheme.timeWindowMs) (range : InI64 time)
include positive range

/-- The start of the window is not above the timestamp, so only the lower bound can be left. -/
theorem windowOf_eq (inside : minI64 + time % scheme.timeWindowMs ≤ time) :
    scheme.windowOf time = time / scheme.timeWindowMs * scheme.timeWindowMs := by
  have split := Int.mul_ediv_add_emod time scheme.timeWindowMs
  have remainder := Int.emod_nonneg time positive.ne'
  rw [Int.mul_comm] at split
  obtain ⟨low, high⟩ := range
  exact wrapI64_of_inI64 ⟨by omega, by omega⟩

theorem windowHolds_iff (width : scheme.timeWindowMs ≤ maxI64) :
    scheme.WindowHolds time ↔ minI64 + time % scheme.timeWindowMs ≤ time := by
  have split := Int.mul_ediv_add_emod time scheme.timeWindowMs
  have remainder := Int.emod_nonneg time positive.ne'
  have short := Int.emod_lt_of_pos time positive
  rw [Int.mul_comm] at split
  constructor
  · rintro ⟨start, -, -⟩
    by_contra outside
    -- A multiple below the range comes back above it, past the timestamp.
    simp only [InI64, minI64, maxI64] at range width outside
    have wrapped : scheme.windowOf time =
        time / scheme.timeWindowMs * scheme.timeWindowMs + 2 ^ 64 := by
      simp only [PartitionScheme.windowOf, wrapI64, Int.bmod_def]
      split_ifs <;> omega
    omega
  · intro inside
    rw [PartitionScheme.WindowHolds, windowOf_eq positive range inside]
    exact ⟨by omega, by omega, Int.dvd_mul_left _ _⟩

end Windows

/-- Two events are in windows of theirs, which they share just as their quotients do, unless the
window of one of them starts before the first 64-bit timestamp. -/
theorem windows_hold_iff (scheme : PartitionScheme) (positive : 0 < scheme.timeWindowMs)
    (width : scheme.timeWindowMs ≤ maxI64) (a b : Event) (first : InI64 a.eventTime)
    (second : InI64 b.eventTime) :
    (scheme.WindowHolds a.eventTime ∧ scheme.WindowHolds b.eventTime ∧
      (scheme.windowOf a.eventTime = scheme.windowOf b.eventTime ↔
        a.eventTime / scheme.timeWindowMs = b.eventTime / scheme.timeWindowMs)) ↔
    minI64 + a.eventTime % scheme.timeWindowMs ≤ a.eventTime ∧
      minI64 + b.eventTime % scheme.timeWindowMs ≤ b.eventTime := by
  rw [windowHolds_iff positive first width, windowHolds_iff positive second width]
  constructor
  · rintro ⟨inside, inside', -⟩
    exact ⟨inside, inside'⟩
  · rintro ⟨inside, inside'⟩
    refine ⟨inside, inside', ?_⟩
    rw [windowOf_eq positive first inside, windowOf_eq positive second inside']
    exact Int.mul_eq_mul_right_iff positive.ne'

def dailyScheme : PartitionScheme := ⟨64, 86400000, ∅⟩

theorem windows_hold_around_epoch :
    (dailyScheme.WindowHolds (-1) ∧ dailyScheme.WindowHolds 1 ∧
      (dailyScheme.windowOf (-1) = dailyScheme.windowOf 1 ↔
        (-1 : Int) / 86400000 = 1 / 86400000)) ↔
    minI64 + -1 % 86400000 ≤ -1 ∧ minI64 + 1 % 86400000 ≤ 1 :=
  windows_hold_iff dailyScheme (by decide) (by decide) (eventAt (-1)) (eventAt 1) (by decide)
    (by decide)

/-- The oldest timestamp lands in a window of the far future. -/
theorem oldest_event_misplaced :
    InI64 (eventAt minI64).eventTime ∧
      (eventAt minI64).eventTime < dailyScheme.windowOf (eventAt minI64).eventTime := by
  decide

/-! ### Validation -/

namespace Attributes

/-- Byte `n` of a text starts a character, or is its end. -/
def StartsCharacter (text : String) (n : Nat) : Prop :=
  ∃ before after, text.toList = before ++ after ∧ (before.map Char.utf8Size).sum = n

/-- A pair none of the checks of one pair refuses. -/
def Fits (pair : String × AttrValue) : Prop :=
  pair.1 ≠ "" ∧ pair.1.utf8ByteSize ≤ maxAttributeKeyBytes ∧
  pair.2.byteSize ≤ maxAttributeValueBytes ∧ ∀ d, pair.2 = .double d → d.isFinite = true

theorem take_isSome_iff {chars : List Char} {n : Nat} (long : n ≤ (chars.map Char.utf8Size).sum) :
    (sliceTo.take chars n).isSome ↔
      ∃ before after, chars = before ++ after ∧ (before.map Char.utf8Size).sum = n := by
  induction chars generalizing n with
  | nil =>
    have zero : n = 0 := by simpa using long
    subst zero
    simp [sliceTo.take]
  | cons c chars ih =>
    have size := c.utf8Size_pos
    rcases Nat.eq_zero_or_pos n with rfl | some
    · exact iff_of_true (by simp [sliceTo.take]) ⟨[], _, rfl, rfl⟩
    simp only [List.map_cons, List.sum_cons] at long
    rw [sliceTo.take.eq_3 _ _ _ some.ne']
    split
    next inside =>
      -- No cut of the text is shorter than its first character, the empty one apart.
      refine iff_of_false (by simp) ?_
      rintro ⟨_ | ⟨d, before⟩, after, cut, sum⟩
      · simp at sum
        omega
      · obtain ⟨rfl, -⟩ := List.cons.inj cut
        simp only [List.map_cons, List.sum_cons] at sum
        omega
    next whole =>
      rw [Option.isSome_map, ih (by omega)]
      constructor
      · rintro ⟨before, after, rfl, sum⟩
        exact ⟨c :: before, after, rfl, by simp [sum]; omega⟩
      · rintro ⟨_ | ⟨d, before⟩, after, cut, sum⟩
        · simp at sum
          omega
        · obtain ⟨rfl, rfl⟩ := List.cons.inj cut
          simp only [List.map_cons, List.sum_cons] at sum
          exact ⟨before, after, rfl, by omega⟩

theorem sliceTo_isSome_iff {key : String} (long : 32 < key.utf8ByteSize) :
    (sliceTo key (min key.utf8ByteSize 32)).isSome ↔ StartsCharacter key 32 := by
  rw [Nat.min_eq_right long.le, sliceTo, Option.isSome_map]
  refine take_isSome_iff ?_
  have size : (key.toList.map Char.utf8Size).sum = key.utf8ByteSize := by
    simp [← length_utf8, utf8, List.length_flatMap]
  omega

theorem validatePair_eq_ok_iff {key : String} {value : AttrValue} :
    validatePair key value = some (.ok ()) ↔ Fits (key, value) := by
  unfold validatePair Fits
  split_ifs with empty long large
  · simp_all
  · simp [Nat.not_le.mpr long]
  · simp [Nat.not_le.mpr large]
  · have bounds : key ≠ "" ∧ key.utf8ByteSize ≤ maxAttributeKeyBytes ∧
        value.byteSize ≤ maxAttributeValueBytes :=
      ⟨by simpa using empty, Nat.not_lt.mp long, Nat.not_lt.mp large⟩
    cases value with
    | double d =>
      cases finite : d.isFinite <;> simp [bounds, finite]
    | _ => simp [bounds]

/-- The only check that may stop is that of an over-long key. -/
theorem validatePair_isSome_iff {key : String} {value : AttrValue} :
    (validatePair key value).isSome ↔
      (maxAttributeKeyBytes < key.utf8ByteSize → StartsCharacter key 32) := by
  have bound : 32 ≤ maxAttributeKeyBytes := by decide
  unfold validatePair
  split_ifs with empty long large
  · rw [String.isEmpty_iff] at empty
    simp [empty]
  · rw [Option.isSome_map, sliceTo_isSome_iff (by omega)]
    simp [long]
  · simp [long]
  · cases value with
    | double d => cases finite : d.isFinite <;> simp [long, finite]
    | _ => simp [long]

/-- The loop stops at the first pair that does not fit, if it stops. -/
theorem validatePairs_isSome_iff {pairs : List (String × AttrValue)} {total : Nat} :
    (validatePairs pairs total).isSome ↔
      ∀ before key value after, pairs = before ++ (key, value) :: after → (∀ p ∈ before, Fits p) →
        maxAttributeKeyBytes < key.utf8ByteSize → StartsCharacter key 32 := by
  induction pairs generalizing total with
  | nil => simp [validatePairs]
  | cons pair pairs ih =>
    obtain ⟨key, value⟩ := pair
    have own := @validatePair_isSome_iff key value
    rw [validatePairs]
    constructor
    · intro returned before key' value' after cut fit long
      cases before with
      | nil =>
        obtain ⟨same, -⟩ := List.cons.inj cut
        cases same
        refine own.mp ?_ long
        cases checked : validatePair key value with
        | none => simp [checked] at returned
        | some _ => rfl
      | cons pair before =>
        obtain ⟨rfl, rest⟩ := List.cons.inj cut
        obtain ⟨here, later⟩ := List.forall_mem_cons.mp fit
        rw [validatePair_eq_ok_iff.mpr here] at returned
        exact ih.mp returned before key' value' after rest later long
    · intro cuts
      have first := own.mpr (cuts [] key value pairs rfl (by simp))
      cases checked : validatePair key value with
      | none => simp [checked] at first
      | some verdict =>
        cases verdict with
        | error _ => rfl
        | ok _ =>
          refine ih.mpr fun before key' value' after rest fit => ?_
          refine cuts ((key, value) :: before) key' value' after (by simp [rest]) ?_
          exact List.forall_mem_cons.mpr ⟨validatePair_eq_ok_iff.mp checked, fit⟩

end Attributes

/-- Validation returns a verdict unless it reaches an over-long key whose byte 32 is inside a
character. -/
theorem validate_total_iff (e : Event) :
    e.validate.isSome ↔
      (e.validateFields = .ok () → e.attributes.size ≤ maxAttributeKeys →
        ∀ before key value after, e.attributes.toList = before ++ (key, value) :: after →
          (∀ p ∈ before, Attributes.Fits p) → maxAttributeKeyBytes < key.utf8ByteSize →
            Attributes.StartsCharacter key 32) := by
  unfold Event.validate
  cases fields : e.validateFields with
  | error _ => simp
  | ok _ =>
    simp only [Attributes.validate, forall_const]
    split
    next many => simp [Nat.not_le.mpr many]
    next few =>
      rw [Option.isSome_map, Attributes.validatePairs_isSome_iff]
      exact (imp_iff_right (Nat.not_lt.mp few)).symm

/-- Forty-four characters of three bytes each: byte 32 is inside the eleventh. -/
def wideKeyEvent : Event :=
  ⟨"e1", "t1", 0, 0, "llm.call", ⟨0⟩, false, "hello", "", "",
    (∅ : Attributes).insert (String.ofList (List.replicate 44 '≈')) (.bool true), none⟩

theorem wideKey_stops : wideKeyEvent.validate = none := by decide +kernel

end Prism
