import Mathlib.Algebra.BigOperators.Group.Finset.Piecewise
import Mathlib.Algebra.Order.BigOperators.Group.Finset
import Prism.Engine.DeviceAdmission

/-!
# The shares of the device

After any calls the counter and the table agree with the reservations that are alive, so the tenants
that hold any leave room for the share of one more, up to the number of shares in the budget.
-/

namespace Prism

open OrderedMap

def heldBy (live : List Reservation) (tenant : String) : Nat :=
  ((live.filter (·.tenant = tenant)).map (·.bytes)).sum

def Device.holders (d : Device) : Finset String := (d.live.map (·.tenant)).toFinset

variable {live : List Reservation} {totalBudget perTenantCap : Nat} {d : Device}

theorem heldBy_cons (r : Reservation) (tenant : String) :
    heldBy (r :: live) tenant = (if r.tenant = tenant then r.bytes else 0) + heldBy live tenant := by
  by_cases own : r.tenant = tenant <;> simp [heldBy, own]

/-- Every reservation is held by one of the tenants, unless it is empty. -/
theorem sum_heldBy {tenants : Finset String}
    (within : ∀ r ∈ live, r.tenant ∈ tenants ∨ r.bytes = 0) :
    tenants.sum (heldBy live) = (live.map (·.bytes)).sum := by
  induction live with
  | nil => simp [heldBy]
  | cons r live ih =>
    have later := ih fun r mem => within r (List.mem_cons_of_mem _ mem)
    simp only [heldBy_cons, Finset.sum_add_distrib, Finset.sum_ite_eq, later, List.map_cons,
      List.sum_cons]
    obtain inside | empty := within r List.mem_cons_self
    · rw [if_pos inside]
    · simp [empty]

theorem heldBy_cons_le {tenant : String} {bytes : Nat}
    (share : ∀ asked, heldBy live asked ≤ perTenantCap)
    (fits : heldBy live tenant + bytes ≤ perTenantCap) (asked : String) :
    heldBy (⟨tenant, bytes⟩ :: live) asked ≤ perTenantCap := by
  rw [heldBy_cons]
  split
  next own => exact own ▸ Nat.add_comm _ _ ▸ fits
  next => simpa using share asked

theorem DeviceAdmission.getElem?_release (g : DeviceAdmission) (r : Reservation) (tenant : String) :
    (g.release r).byTenant[tenant]?.getD 0 =
      g.byTenant[tenant]?.getD 0 - if r.tenant = tenant then r.bytes else 0 := by
  simp only [release]
  cases found : g.byTenant[r.tenant]? with
  | none =>
    by_cases own : r.tenant = tenant
    · simp [← own, found]
    · simp [own]
  | some t =>
    by_cases own : r.tenant = tenant
    · subst own
      by_cases zero : t - r.bytes = 0 <;> simp [found, zero]
    · by_cases zero : t - r.bytes = 0
      · simp [zero, own, getElem?_erase_of_ne own]
      · simp [zero, own, getElem?_insert_of_ne own]

/-- The books of the admission. An entry of the table that has come to zero may be there or not. -/
structure Device.Accounted (totalBudget perTenantCap : Nat) (d : Device) : Prop where
  budget : d.admission.totalBudget = totalBudget
  cap : d.admission.perTenantCap = perTenantCap
  total : d.admission.inUse = (d.live.map (·.bytes)).sum
  table : ∀ tenant, d.admission.byTenant[tenant]?.getD 0 = heldBy d.live tenant
  share : ∀ tenant, heldBy d.live tenant ≤ perTenantCap

namespace Device.Accounted

variable (books : d.Accounted totalBudget perTenantCap)
include books

theorem tryReserve (tenant : String) (bytes : Nat) :
    (d.step (.tryReserve tenant bytes)).Accounted totalBudget perTenantCap := by
  simp only [Device.step, DeviceAdmission.tryReserve]
  split
  · exact books
  next fits =>
    split
    · exact books
    rw [books.table, books.cap, Nat.not_lt] at fits
    refine ⟨books.budget, books.cap, ?_, fun asked => ?_, heldBy_cons_le books.share fits⟩
    · simp [books.total, Nat.add_comm]
    · simp only [Option.toList_some, List.singleton_append, heldBy_cons]
      by_cases own : tenant = asked
      · subst own
        simp [books.table, Nat.add_comm]
      · simp [getElem?_insert_of_ne own, own, books.table]

theorem drop {r : Reservation} (there : r ∈ d.live) :
    Accounted totalBudget perTenantCap ⟨d.admission.release r, d.live.erase r⟩ := by
  have same := List.perm_cons_erase there
  have held (tenant : String) : heldBy d.live tenant =
      (if r.tenant = tenant then r.bytes else 0) + heldBy (d.live.erase r) tenant :=
    ((same.filter _).map _).sum_nat.trans (heldBy_cons r tenant)
  refine ⟨books.budget, books.cap, ?_, fun tenant => ?_, fun tenant => ?_⟩
  · have total := books.total.trans (same.map (·.bytes)).sum_nat
    simp [DeviceAdmission.release, total]
  · rw [DeviceAdmission.getElem?_release, books.table, held, Nat.add_sub_cancel_left]
  · exact (Nat.le_add_left _ _).trans (held tenant ▸ books.share tenant)

theorem step (call : DeviceCall) : (d.step call).Accounted totalBudget perTenantCap := by
  cases call with
  | tryReserve tenant bytes => exact books.tryReserve tenant bytes
  | drop r =>
    by_cases there : r ∈ d.live
    · simpa [Device.step, there] using books.drop there
    · simpa [Device.step, there] using books

theorem table_sum : d.admission.inUse = (d.admission.byTenant.toList.map (·.2)).sum := by
  have values : ∀ k b, d.admission.byTenant[k]? = some b → b = heldBy d.live k := by
    intro k b found
    rw [← books.table k, found, Option.getD_some]
  have keys := nodup_keys d.admission.byTenant
  rw [Std.ExtTreeMap.map_fst_toList_eq_keys] at keys
  rw [toList_eq_map_keys values, List.map_map, books.total]
  refine (sum_heldBy fun r mem => ?_).symm.trans (List.sum_toFinset (heldBy d.live) keys)
  rw [List.mem_toFinset, Std.ExtTreeMap.mem_keys]
  by_cases there : r.tenant ∈ d.admission.byTenant
  · exact .inl there
  · have none := books.table r.tenant
    rw [Std.ExtTreeMap.getElem?_eq_none there, Option.getD_none] at none
    have least : r.bytes ≤ heldBy d.live r.tenant :=
      List.single_le_sum (fun _ _ => Nat.zero_le _) _ (List.mem_map_of_mem (by simp [mem]))
    exact .inr (by omega)

end Device.Accounted

theorem Device.after_accounted (totalBudget perTenantCap : Nat) (calls : List DeviceCall) :
    (after totalBudget perTenantCap calls).Accounted totalBudget perTenantCap := by
  induction calls using List.reverseRecOn with
  | nil => exact ⟨rfl, rfl, rfl, fun _ => by simp [after, DeviceAdmission.new, heldBy], by
      simp [after, heldBy]⟩
  | append_singleton calls call ih =>
    rw [after, List.foldl_concat]
    exact ih.step call

/-- **Tenants do not eat into each other's share.** After any calls, the counter is the total of the
live reservations and of the table, and each tenant is within its share. With a budget of `s`
shares, a request within the share of its tenant is granted as long as the tenants that hold
reservations, the asking one counted, are at most `s`. -/
theorem admission_isolates (totalBudget perTenantCap s : Nat)
    (room : s * perTenantCap ≤ totalBudget) (calls : List DeviceCall) :
    let d := Device.after totalBudget perTenantCap calls
    d.admission.inUse = (d.live.map (·.bytes)).sum ∧
      d.admission.inUse = (d.admission.byTenant.toList.map (·.2)).sum ∧
      (∀ tenant, heldBy d.live tenant ≤ perTenantCap) ∧
      ∀ tenant bytes, heldBy d.live tenant + bytes ≤ perTenantCap →
        (insert tenant d.holders).card ≤ s →
          (d.admission.tryReserve tenant bytes).1 = some ⟨tenant, bytes⟩ := by
  intro d
  have books : d.Accounted totalBudget perTenantCap := Device.after_accounted _ _ calls
  refine ⟨books.total, books.table_sum, books.share, fun tenant bytes fits few => ?_⟩
  -- As if it had been granted, each holder is within its share.
  have total : (insert tenant d.holders).sum (heldBy (⟨tenant, bytes⟩ :: d.live)) =
      bytes + d.admission.inUse := by
    rw [sum_heldBy, books.total, List.map_cons, List.sum_cons]
    intro r mem
    obtain rfl | old := List.mem_cons.mp mem
    · exact .inl (Finset.mem_insert_self _ _)
    · refine .inl (Finset.mem_insert_of_mem ?_)
      simpa [Device.holders] using ⟨r, old, rfl⟩
  have shares := Finset.sum_le_card_nsmul (insert tenant d.holders)
    (heldBy (⟨tenant, bytes⟩ :: d.live)) perTenantCap fun asked _ =>
      heldBy_cons_le books.share fits asked
  have all := (Nat.mul_le_mul_right perTenantCap few).trans room
  rw [total, nsmul_eq_mul, Nat.cast_id] at shares
  unfold DeviceAdmission.tryReserve
  rw [books.table, books.cap, books.budget, if_neg (by omega), if_neg (by omega)]

theorem admission_isolates_second :
    ((Device.after 100 25 [.tryReserve "alpha" 25]).admission.tryReserve "bravo" 25).1 =
      some ⟨"bravo", 25⟩ :=
  (admission_isolates 100 25 4 (by decide) [.tryReserve "alpha" 25]).2.2.2 "bravo" 25
    (by decide +kernel) (by decide +kernel)

/-- One share is the whole device. Only one tenant ever holds any of it, and the next, which holds
none, is refused. -/
theorem admission_refuses_newcomer :
    let calls : List DeviceCall := [.tryReserve "alpha" 10, .tryReserve "bravo" 1]
    (∀ n ∈ List.range 3, (Device.after 10 10 (calls.take n)).holders.card ≤ 1) ∧
      let d := Device.after 10 10 (calls.take 1)
      heldBy d.live "bravo" + 1 ≤ 10 ∧ (d.admission.tryReserve "bravo" 1).1 = none := by
  decide +kernel

end Prism
