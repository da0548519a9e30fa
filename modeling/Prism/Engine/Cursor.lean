import Prism.Lib.Paging
import Prism.Lib.Ranking
import Prism.Part.Catalog

/-!
Cursors: the checksummed token a client presents for the next page, and the keyset position it holds
(`prism-engine/src/sql.rs` and `sharded.rs`).
-/

namespace Prism

/-! ### The token -/

/-- What the JSON library makes of the body of a cursor. -/
structure CursorSerde (β : Type) where
  toVec : β → Except String Bytes
  fromSlice : Bytes → Except String β

def hexU32 (n : UInt32) : String :=
  String.ofList ((List.range 8).map fun i => hexDigit (n.toNat / 16 ^ (7 - i) % 16))

def encodeCursor {β : Type} (serde : CursorSerde β) (body : β) : Result String := do
  let json ← (serde.toVec body).mapError PrismError.decode
  return hexU32 (crc32 json) ++ hex json

def hexValue (b : UInt8) : Option Nat :=
  let n := b.toNat
  if 48 ≤ n ∧ n ≤ 57 then some (n - 48)
  else if 97 ≤ n ∧ n ≤ 102 then some (n - 87)
  else if 65 ≤ n ∧ n ≤ 70 then some (n - 55)
  else none

/-- `from_str_radix` of an unsigned number in base 16: a leading `+` is allowed. -/
def fromStrRadix16 (text : Bytes) : Option Nat :=
  let digits := match text with
    | 43 :: rest => rest
    | _ => text
  if digits.isEmpty then none
  else digits.foldlM (fun n b => (hexValue b).map (n * 16 + ·)) 0

def unhex : Bytes → Option Bytes
  | a :: b :: rest => do
    let byte ← fromStrRadix16 [a, b]
    return UInt8.ofNat byte :: (← unhex rest)
  | _ => some []

def malformedCursor : PrismError := .invalid "cursor is malformed"

def charBoundary (text : Bytes) (i : Nat) : Bool :=
  match text[i]? with
  | some b => b &&& 0xC0 ≠ 0x80
  | none => true

/-- Read a token back. The source stops if the eight digits end inside a character. -/
def decodeCursor {β : Type} (serde : CursorSerde β) (token : String) : Result β := do
  let text := utf8 token
  if text.length < 8 ∨ text.length % 2 ≠ 0 then .error malformedCursor
  if !charBoundary text 8 then .error (.invariant "byte index 8 is not a char boundary")
  match fromStrRadix16 (text.take 8), unhex (text.drop 8) with
  | some want, some bytes =>
    if (crc32 bytes).toNat ≠ want then
      .error (.invalid "cursor failed its checksum; it has been truncated or edited")
    (serde.fromSlice bytes).mapError PrismError.decode
  | _, _ => .error malformedCursor

/-! ### The position -/

structure Keyset where
  lastScore : F32
  lastEventId : String
  deriving DecidableEq, Repr

/-- Whether a row comes after the position: scores descend, and ids ascend among equal scores. -/
def Keyset.before (c : Keyset) (score : F32) (eventId : String) : Bool :=
  match c.lastScore.totalCmp score with
  | .gt => true
  | .eq => compare eventId c.lastEventId = .gt
  | .lt => false

def Keyset.order (a b : Keyset) : Ordering :=
  (b.lastScore.totalCmp a.lastScore).then (compare a.lastEventId b.lastEventId)

instance : Std.TransCmp Keyset.order :=
  inferInstanceAs (Std.TransCmp
    (Ranking.descendingThen F32.totalCmp compare Keyset.lastScore Keyset.lastEventId))

instance : Std.LawfulEqCmp Keyset.order where
  compare_self := Std.ReflCmp.compare_self
  eq_of_compare {a b} tied := by
    obtain ⟨scores, ids⟩ := Ordering.then_eq_eq.mp tied
    have scores := Std.LawfulEqCmp.eq_of_compare scores
    have ids : a.lastEventId = b.lastEventId := Std.LawfulEqOrd.eq_of_compare ids
    cases a
    cases b
    simp_all

theorem Keyset.before_eq (c k : Keyset) :
    c.before k.lastScore k.lastEventId = (c.order k = .lt : Bool) := by
  unfold Keyset.before Keyset.order
  rw [show k.lastScore.totalCmp c.lastScore = (c.lastScore.totalCmp k.lastScore).swap from
    Std.OrientedCmp.eq_swap]
  rw [show compare k.lastEventId c.lastEventId = (compare c.lastEventId k.lastEventId).swap from
    Std.OrientedCmp.eq_swap]
  cases c.lastScore.totalCmp k.lastScore <;> cases compare c.lastEventId k.lastEventId <;> rfl

section Pages

variable {α : Type} (key : α → Keyset) (cur : Option Keyset)

def pageStart (rows : List α) : Nat :=
  match cur with
  | none => 0
  | some c => rows.findIdx fun x => c.before (key x).lastScore (key x).lastEventId

def pageOf (limit : Nat) (rows : List α) : List α × Option α :=
  let start := pageStart key cur rows
  let page := (rows.drop start).take limit
  (page, if start + page.length < rows.length then page.getLast? else none)

theorem pageStart_eq (rows : List α) :
    pageStart key cur rows = rows.findIdx (Paging.isAfter Keyset.order key cur) := by
  cases cur with
  | none =>
    cases rows with
    | nil => rfl
    | cons x rows => simp [pageStart, Paging.isAfter, List.findIdx_cons]
  | some c =>
    simp only [pageStart, Keyset.before_eq]
    rfl

theorem mem_of_pageOf {cur : Option Keyset} {limit : Nat} {rows : List α} {last : α}
    (ends : (pageOf key cur limit rows).2 = some last) : last ∈ rows := by
  simp only [pageOf] at ends
  split at ends
  · exact List.mem_of_mem_drop (List.mem_of_mem_take (List.mem_of_getLast? ends))
  · cases ends

/-- A page of sorted rows is the first of those after the position. -/
theorem pageOf_eq {cur : Option Keyset} {limit : Nat} {rows : List α}
    (sorted : rows.Pairwise fun a b => (Keyset.order (key a) (key b)).isLE) :
    let left := Paging.rest Keyset.order key cur rows
    pageOf key cur limit rows =
      (left.take limit, if limit < left.length then (left.take limit).getLast? else none) := by
  intro left
  have dropped : rows.drop (pageStart key cur rows) = left := by
    rw [pageStart_eq]
    exact Paging.drop_findIdx Keyset.order key sorted
  have size : rows.length - pageStart key cur rows = left.length := by
    rw [← dropped, List.length_drop]
  have more : pageStart key cur rows + (left.take limit).length < rows.length ↔
      limit < left.length := by
    rw [List.length_take]
    omega
  simp only [pageOf, dropped, more]

end Pages

end Prism
