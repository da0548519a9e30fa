import Prism.Properties.Publication

/-!
What happens to every event of a batch before the log: interleaving moves events but loses none,
admission and the idempotency stage account for each of them.
-/

namespace Prism

open OrderedMap

/-! ### Interleaving -/

theorem heads_tails_perm (queues : List (List Event)) :
    (queues.filterMap List.head? ++ (queues.map List.tail).flatten).Perm queues.flatten := by
  induction queues with
  | nil => simp
  | cons queue rest ih =>
    cases queue with
    | nil =>
      rw [List.filterMap_cons_none (f := List.head?) rfl]
      simpa using ih
    | cons e queue =>
      rw [List.filterMap_cons_some (f := List.head?) (b := e) rfl]
      simp only [List.map_cons, List.tail_cons, List.flatten_cons, List.cons_append, List.perm_cons]
      -- The tail of the first queue moves over the heads of the others.
      have moved : (rest.filterMap List.head? ++ queue).Perm (queue ++ rest.filterMap List.head?) :=
        List.perm_append_comm
      have spread := moved.append_right (rest.map List.tail).flatten
      rw [List.append_assoc, List.append_assoc] at spread
      exact spread.trans (ih.append_left queue)

/-- Enough rounds take every event. -/
theorem takeRounds_perm (fuel : Nat) (queues : List (List Event))
    (enough : ∀ queue ∈ queues, queue.length ≤ fuel) :
    (takeRounds fuel queues).Perm queues.flatten := by
  have exhausted : ∀ queues : List (List Event), queues.filterMap List.head? = [] →
      queues.flatten = [] := by
    intro queues none
    rw [List.filterMap_eq_nil_iff] at none
    exact List.flatten_eq_nil_iff.mpr fun queue mem => List.head?_eq_none_iff.mp (none queue mem)
  induction fuel generalizing queues with
  | zero =>
    have empty : queues.flatten = [] := by
      refine List.flatten_eq_nil_iff.mpr fun queue mem => ?_
      exact List.length_eq_zero_iff.mp (Nat.le_zero.mp (enough queue mem))
    rw [empty]
    exact List.Perm.refl _
  | succ fuel ih =>
    unfold takeRounds
    split
    next none =>
      rw [exhausted queues none]
    next =>
      have shorter : ∀ queue ∈ queues.map List.tail, queue.length ≤ fuel := by
        intro queue mem
        obtain ⟨longer, inside, rfl⟩ := List.mem_map.mp mem
        have := enough longer inside
        rw [List.length_tail]
        omega
      exact ((ih _ shorter).append_left _).trans (heads_tails_perm queues)

theorem interleaveByTenant_perm (events : List Event) :
    (interleaveByTenant events).Perm events := by
  have grouped := groupBy_perm Event.tenantId events
  rw [List.flatMap_def] at grouped
  refine (takeRounds_perm _ _ fun queue mem => ?_).trans grouped
  -- A queue is part of the permuted batch, so it is no longer than the batch.
  have among : queue.length ≤ ((groupBy Event.tenantId events).toList.map
      Prod.snd).flatten.length := (List.sublist_flatten_of_mem mem).length_le
  rwa [grouped.length_eq] at among

/-! ### Admission -/

/-- The event as admission sees it: it carries the time it was observed. -/
def Event.stamp (nowMs : Int) (e : Event) : Event := { e with observedTime := nowMs }

variable {e : Event}

/-- One event is accepted and widens the dictionary, or gets a letter. -/
theorem admitEvent_cases {nowMs : Int} {a a' : Admitting}
    (admitted : admitEvent nowMs a e = some a') :
    (a'.accepted = a.accepted ++ [e.stamp nowMs] ∧ a'.rejected = a.rejected ∧
        a.dict.check e.attributes = .ok () ∧ a'.dict = a.dict.insertAll e.attributes) ∨
      (a'.accepted = a.accepted ∧ a'.dict = a.dict ∧
        ∃ letter, letter.event = e.stamp nowMs ∧ a'.rejected = a.rejected ++ [letter]) := by
  obtain ⟨validated, _, rfl⟩ := Option.map_eq_some_iff.mp admitted
  -- The four checks refuse alike; only an event that passes them all is accepted.
  have refused : ∀ (q : QuotaEnforcer) (r : Rejection),
      ∃ letter : DeadLetter, letter.event = e.stamp nowMs ∧
        (({ a with quotas := q } : Admitting).reject (e.stamp nowMs) r).rejected =
          a.rejected ++ [letter] := fun q r => ⟨_, rfl, rfl⟩
  cases validated with
  | error r => exact .inr ⟨rfl, rfl, refused a.quotas r⟩
  | ok _ =>
    dsimp only
    cases Event.checkSkew { e with observedTime := nowMs } nowMs with
    | error r => exact .inr ⟨rfl, rfl, refused a.quotas r⟩
    | ok _ =>
      dsimp only
      cases a.dict.check e.attributes with
      | error r => exact .inr ⟨rfl, rfl, refused a.quotas r⟩
      | ok _ =>
        dsimp only
        cases (a.quotas.charge { e with observedTime := nowMs } nowMs).2 with
        | error r => exact .inr ⟨rfl, rfl, refused _ r⟩
        | ok _ => exact .inl ⟨rfl, rfl, rfl, rfl⟩

variable {events : List Event}

theorem admitAll_sorts {nowMs : Int} {a a' : Admitting}
    (admitted : admitAll nowMs a events = some a') :
    ∃ kept dead, a'.accepted = a.accepted ++ kept ∧ a'.rejected = a.rejected ++ dead ∧
      Sorts (events.map (Event.stamp nowMs)) kept dead := by
  induction events generalizing a with
  | nil =>
    cases admitted
    exact ⟨[], [], by simp, by simp, Sorts.nil⟩
  | cons e rest ih =>
    obtain ⟨next, first, others⟩ := Option.bind_eq_some_iff.mp admitted
    obtain ⟨kept, dead, accepted, rejected, sorts⟩ := ih others
    rcases admitEvent_cases first with ⟨taken, same, _⟩ | ⟨same, _, letter, own, lettered⟩
    · refine ⟨e.stamp nowMs :: kept, dead, ?_, ?_, sorts.pass⟩
      · rw [accepted, taken, List.append_assoc, List.singleton_append]
      · rw [rejected, same]
    · refine ⟨kept, letter :: dead, ?_, ?_, sorts.refuse own⟩
      · rw [accepted, same]
      · rw [rejected, lettered, List.append_assoc, List.singleton_append]

/-- Admission accounts for every event of the batch, whatever the order it sees them in. -/
theorem admitEvents_sorts {dict : KeyDictionary} {quotas : QuotaEnforcer} {nowMs : Int}
    {admitted : Admitting} (done : admitEvents events dict quotas nowMs = some admitted) :
    Sorts (events.map (Event.stamp nowMs)) admitted.accepted admitted.rejected := by
  obtain ⟨kept, dead, accepted, rejected, sorts⟩ := admitAll_sorts done
  simp only [List.nil_append] at accepted rejected
  rw [accepted, rejected]
  have moved := (interleaveByTenant_perm events).map (Event.stamp nowMs)
  refine ⟨sorts.passed.trans moved.subperm, fun e mem => ?_⟩
  exact sorts.accounted e (moved.mem_iff.mpr mem)

/-! ### The idempotency stage -/

namespace IdempotencyIndex

def verdict (ix : IdempotencyIndex) (e : Event) : Verdict :=
  ix.check e.dedupKey.1 e.dedupKey.2 e.contentHash

variable {ix : IdempotencyIndex}

theorem verdict_eq_new : ix.verdict e = .new ↔ ix[e.ck]? = none := by
  unfold verdict check Event.ck
  cases ix[Prism.ck e.dedupKey.1 e.dedupKey.2]? with
  | none => simp
  | some entry =>
    dsimp only
    split <;> simp

theorem verdict_eq_replay :
    ix.verdict e = .replay ↔ ∃ entry, ix[e.ck]? = some entry ∧ entry.contentHash = e.contentHash := by
  unfold verdict check Event.ck
  cases ix[Prism.ck e.dedupKey.1 e.dedupKey.2]? with
  | none => simp
  | some entry =>
    dsimp only
    split <;> simp_all

theorem verdict_eq_conflict {stored : String} : ix.verdict e = .conflict stored ↔
      ∃ entry, ix[e.ck]? = some entry ∧ entry.contentHash = stored ∧ stored ≠ e.contentHash := by
  unfold verdict check Event.ck
  cases ix[Prism.ck e.dedupKey.1 e.dedupKey.2]? with
  | none => simp
  | some entry =>
    dsimp only
    split
    next same =>
      simp only [reduceCtorEq, Option.some_inj, exists_eq_left', ne_eq, false_iff, not_and, not_not]
      rintro rfl
      exact same
    next other =>
      simp only [Verdict.conflict.injEq, Option.some_inj, exists_eq_left', ne_eq]
      exact ⟨fun same => ⟨same, same ▸ other⟩, And.left⟩

theorem getElem?_record (ix : IdempotencyIndex) (e : Event) (key : String) :
    (ix.record e)[key]? = if e.ck = key then some ⟨e.contentHash, e.eventTime⟩ else ix[key]? := by
  unfold record
  rw [Std.ExtTreeMap.getElem?_insert]
  simp

/-- An entry after recording events was there before or is of one of them. -/
theorem getElem?_recordAll {key : String} {entry : IdemEntry}
    (found : (ix.recordAll events)[key]? = some entry) :
    ix[key]? = some entry ∨ ∃ e ∈ events, e.ck = key ∧ entry.contentHash = e.contentHash := by
  induction events generalizing ix with
  | nil => exact .inl found
  | cons e rest ih =>
    rcases ih found with earlier | ⟨e', mem, own⟩
    · rw [getElem?_record] at earlier
      split at earlier
      next same =>
        cases earlier
        exact .inr ⟨e, by simp, same, rfl⟩
      · exact .inl earlier
    · exact .inr ⟨e', by simp [mem], own⟩

def conflictOf (ix : IdempotencyIndex) (e : Event) : Option DeadLetter :=
  match ix.verdict e with
  | .conflict stored => some (conflictLetter e stored)
  | _ => none

end IdempotencyIndex

/-- The stage splits its events by what the loaded index says of each. -/
theorem dedup_eq (ix : IdempotencyIndex) (events : List Event) : dedup ix events =
      ⟨events.filter (ix.verdict · = .new), events.filter (ix.verdict · = .replay),
        events.filterMap ix.conflictOf⟩ := by
  have general : ∀ d : Deduped, events.foldl (dedupEvent ix) d =
      ⟨d.accepted ++ events.filter (ix.verdict · = .new),
        d.suppressed ++ events.filter (ix.verdict · = .replay),
        d.conflicts ++ events.filterMap ix.conflictOf⟩ := by
    induction events with
    | nil => simp
    | cons e rest ih =>
      intro d
      rw [List.foldl_cons, ih]
      cases said : ix.verdict e with
      | new =>
        have checked : ix.check e.dedupKey.1 e.dedupKey.2 e.contentHash = .new := said
        simp [dedupEvent, IdempotencyIndex.conflictOf, said, checked]
      | replay =>
        have checked : ix.check e.dedupKey.1 e.dedupKey.2 e.contentHash = .replay := said
        simp [dedupEvent, IdempotencyIndex.conflictOf, said, checked]
      | conflict stored =>
        have checked : ix.check e.dedupKey.1 e.dedupKey.2 e.contentHash = .conflict stored := said
        simp [dedupEvent, IdempotencyIndex.conflictOf, said, checked]
  simpa [dedup] using general ⟨[], [], []⟩

/-- Every event is accepted, suppressed or dead-lettered by the idempotency stage. -/
theorem dedup_accounts (ix : IdempotencyIndex) (mem : e ∈ events) :
    e ∈ (dedup ix events).accepted ∨ e ∈ (dedup ix events).suppressed ∨
      ∃ letter ∈ (dedup ix events).conflicts, letter.event = e := by
  rw [dedup_eq]
  cases said : ix.verdict e with
  | new => exact .inl (by simp [mem, said])
  | replay => exact .inr (.inl (by simp [mem, said]))
  | conflict stored =>
    refine .inr (.inr ⟨conflictLetter e stored, List.mem_filterMap.mpr ⟨e, mem, ?_⟩, rfl⟩)
    simp [IdempotencyIndex.conflictOf, said]

end Prism
