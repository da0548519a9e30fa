import Prism.Lib.Bytes

/-!
An append-only byte log of frames. A frame is the length of its payload, a checksum of the
payload, and the payload. A scan reads frames from the front and stops at the first place that
is not a whole frame.
-/

namespace FrameLog

variable (checksum : Bytes → UInt32)

def headerLength : Nat := 8

def frame (payload : Bytes) : Bytes :=
  Bytes.le 4 payload.length ++ Bytes.le 4 (checksum payload).toNat ++ payload

def frames (payloads : List Bytes) : Bytes := payloads.flatMap (frame checksum)

variable (bytes : Bytes)

/-- The payload of the frame at the front of `bytes` and what follows it, if a whole frame with the
right checksum is there. -/
def split : Option (Bytes × Bytes) :=
  if bytes.length < headerLength then none
  else
    let length := Bytes.ofLe (bytes.take 4)
    let expected := Bytes.ofLe ((bytes.drop 4).take 4)
    let body := bytes.drop headerLength
    if body.length < length then none
    else if (checksum (body.take length)).toNat ≠ expected then none
    else some (body.take length, body.drop length)

/-- The payloads read from the front with the positions of their frames, and the bytes left unread
where the scan stopped. -/
def scan : Nat → Nat → Bytes → List (Nat × Bytes) × Bytes
  | 0, _, bytes => ([], bytes)
  | fuel + 1, position, bytes =>
    match split checksum bytes with
    | none => ([], bytes)
    | some (payload, rest) =>
      let (found, unread) := scan fuel (position + headerLength + payload.length) rest
      ((position, payload) :: found, unread)

/-- The bytes past the last frame that a scan of the whole log reads. -/
def unread : Bytes := (scan checksum bytes.length 0 bytes).2

variable {checksum} (payload : Bytes)

@[simp] theorem length_frame : (frame checksum payload).length = headerLength + payload.length := by
  simp [frame, headerLength]; omega

@[simp] theorem frames_nil : frames checksum [] = [] := rfl

@[simp] theorem frames_cons (rest : List Bytes) :
    frames checksum (payload :: rest) = frame checksum payload ++ frames checksum rest := rfl

@[simp] theorem frames_append (xs ys : List Bytes) :
    frames checksum (xs ++ ys) = frames checksum xs ++ frames checksum ys := by
  simp [frames]

theorem split_frame (rest : Bytes) (small : payload.length < 2 ^ 32) :
    split checksum (frame checksum payload ++ rest) = some (payload, rest) := by
  have header : (frame checksum payload ++ rest).take 4 = Bytes.le 4 payload.length := by
    simp [frame]
  have crc : ((frame checksum payload ++ rest).drop 4).take 4 =
      Bytes.le 4 (checksum payload).toNat := by
    simp [frame]
  have body : (frame checksum payload ++ rest).drop headerLength = payload ++ rest := by
    simp [frame, List.drop_append, headerLength]
  have long : ¬ (frame checksum payload ++ rest).length < headerLength := by simp; omega
  have crcSmall : (checksum payload).toNat < 256 ^ 4 := (checksum payload).toNat_lt
  simp only [split, long, if_false, header, crc, body, Bytes.ofLe_le_of_lt crcSmall,
    Bytes.ofLe_le_of_lt (show payload.length < 256 ^ 4 by simpa using small)]
  simp

/-- A frame cut short is not read. -/
theorem split_cut (cut : Bytes) (small : payload.length < 2 ^ 32)
    (before : cut <+: frame checksum payload) (short : cut.length < (frame checksum payload).length) :
    split checksum cut = none := by
  by_cases header : cut.length < headerLength
  · simp [split, header]
  · obtain ⟨missing, whole⟩ := before
    have first : cut.take 4 = Bytes.le 4 payload.length := by
      have same : (cut ++ missing).take 4 = cut.take 4 :=
        List.take_append_of_le_length (by simp only [headerLength] at header; omega)
      rw [← same, whole]
      simp [frame]
    have value : Bytes.ofLe (cut.take 4) = payload.length := by
      rw [first, Bytes.ofLe_le_of_lt (by simpa using small)]
    have overrun : (cut.drop headerLength).length < payload.length := by
      simp only [length_frame] at short
      simp only [List.length_drop]
      omega
    simp only [split, header, if_false, value, overrun, if_true]

/-- The positions of consecutive frames. -/
def positions : Nat → List Bytes → List Nat
  | _, [] => []
  | position, payload :: rest =>
    position :: positions (position + headerLength + payload.length) rest

variable (written : List Bytes) (tail : Bytes)

theorem scan_frames (position fuel : Nat) (small : ∀ payload ∈ written, payload.length < 2 ^ 32)
    (stops : split checksum tail = none) (enough : written.length < fuel) :
    scan checksum fuel position (frames checksum written ++ tail) =
      ((positions position written).zip written, tail) := by
  induction written generalizing position fuel with
  | nil =>
    cases fuel with
    | zero => rfl
    | succ fuel => simp [scan, stops, positions]
  | cons payload rest ih =>
    cases fuel with
    | zero => simp at enough
    | succ fuel =>
      have found := ih (position + headerLength + payload.length) fuel
        (fun p mem => small p (by simp [mem])) (by simpa using enough)
      simp [frames_cons, scan, split_frame payload _ (small payload (by simp)), found, positions]

theorem length_positions (position : Nat) (written : List Bytes) :
    (positions position written).length = written.length := by
  induction written generalizing position with
  | nil => rfl
  | cons payload rest ih => simp [positions, ih]

theorem length_le_frames : headerLength * written.length ≤ (frames checksum written).length := by
  induction written with
  | nil => simp
  | cons payload rest ih =>
    simp only [List.length_cons, frames_cons, List.length_append, length_frame]
    rw [Nat.mul_succ]
    omega

private theorem enough_fuel (nonempty : written ≠ []) :
    written.length < (frames checksum written ++ tail).length := by
  have long := @length_le_frames checksum written
  have positive := List.length_pos_iff.mpr nonempty
  simp only [headerLength] at long
  simp only [List.length_append]
  omega

theorem scan_log (small : ∀ payload ∈ written, payload.length < 2 ^ 32)
    (stops : split checksum tail = none) :
    scan checksum (frames checksum written ++ tail).length 0 (frames checksum written ++ tail) =
      ((positions 0 written).zip written, tail) := by
  by_cases nonempty : written = []
  · subst nonempty
    cases tail with
    | nil => rfl
    | cons byte rest => simp [scan, stops, positions]
  · exact scan_frames written tail 0 _ small stops (enough_fuel written tail nonempty)

theorem unread_log (small : ∀ payload ∈ written, payload.length < 2 ^ 32)
    (stops : split checksum tail = none) :
    unread checksum (frames checksum written ++ tail) = tail := by
  simp only [unread, scan_log written tail small stops]

end FrameLog
