import Prism.Lib.OrderedMap

/-!
Admission to the memory of the device: a reservation is granted within the share of its tenant and
the budget of the device, and goes back when it is dropped.
-/

namespace Prism

/-- The budgets and what is reserved, as numbers without bound: no sum overflows. -/
structure DeviceAdmission where
  totalBudget : Nat
  perTenantCap : Nat
  inUse : Nat
  byTenant : BTreeMap String Nat

structure Reservation where
  tenant : String
  bytes : Nat
  deriving DecidableEq

namespace DeviceAdmission

def new (totalBudget perTenantCap : Nat) : DeviceAdmission := ⟨totalBudget, perTenantCap, 0, ∅⟩

/-- A request that does not fit is answered `none`; the caller then stays on the CPU. -/
def tryReserve (g : DeviceAdmission) (tenant : String) (bytes : Nat) :
    Option Reservation × DeviceAdmission :=
  let held := g.byTenant[tenant]?.getD 0
  if held + bytes > g.perTenantCap then
    (none, g)
  else if g.inUse + bytes > g.totalBudget then
    (none, g)
  else
    (some ⟨tenant, bytes⟩,
      { g with inUse := g.inUse + bytes, byTenant := g.byTenant.insert tenant (held + bytes) })

/-- The drop of a reservation. The subtractions saturate, and an entry that comes to zero goes. -/
def release (g : DeviceAdmission) (r : Reservation) : DeviceAdmission :=
  { g with
    inUse := g.inUse - r.bytes
    byTenant := match g.byTenant[r.tenant]? with
      | some t =>
        if t - r.bytes = 0 then g.byTenant.erase r.tenant
        else g.byTenant.insert r.tenant (t - r.bytes)
      | none => g.byTenant }

end DeviceAdmission

/-- The admission and the reservations that are alive. -/
structure Device where
  admission : DeviceAdmission
  live : List Reservation

inductive DeviceCall
  | tryReserve (tenant : String) (bytes : Nat)
  | drop (r : Reservation)

/-- One call of some thread, which holds the lock meanwhile. -/
def Device.step (d : Device) : DeviceCall → Device
  | .tryReserve tenant bytes =>
    let answer := d.admission.tryReserve tenant bytes
    ⟨answer.2, answer.1.toList ++ d.live⟩
  | .drop r => if r ∈ d.live then ⟨d.admission.release r, d.live.erase r⟩ else d

def Device.after (totalBudget perTenantCap : Nat) (calls : List DeviceCall) : Device :=
  calls.foldl step ⟨.new totalBudget perTenantCap, []⟩

end Prism
