import Kclpp.Leases.Lease

/-!
# Maps of leases

`lease_map_t`. Every insertion in the code stores a lease under its own key, so
the map carries that as a field, and an operation names the lease only.
`insert` is `std::map::insert`, which keeps what is there, and `insertOrUpdate`
replaces it.
-/

open Std OrderedMap

namespace Kclpp

namespace Leases

/-- `lease_map_t`, with every lease under its own key. -/
structure LeaseMap where
  leases : TreeMap LeaseKey Lease
  keyed : ∀ key lease, lookup leases key = some lease → lease.leaseKey = key

namespace LeaseMap

def get (m : LeaseMap) (key : LeaseKey) : Option Lease := lookup m.leases key

def empty : LeaseMap where
  leases := ∅
  keyed := by simp

def insertOrUpdate (m : LeaseMap) (lease : Lease) : LeaseMap where
  leases := m.leases.insert lease.leaseKey lease
  keyed := by
    intro key found h
    rw [lookup_insert] at h
    split_ifs at h with hkey
    · cases h
      exact hkey
    · exact m.keyed key found h

/-- `std::map::insert`: a lease that is there already stays. -/
def insert (m : LeaseMap) (lease : Lease) : LeaseMap where
  leases := m.leases.insertIfNew lease.leaseKey lease
  keyed := by
    intro key found h
    rw [lookup_insertIfNew] at h
    split_ifs at h with hkey
    · cases h
      exact hkey.1
    · exact m.keyed key found h

/-- `util::removeIfExists`. -/
def erase (m : LeaseMap) (key : LeaseKey) : LeaseMap where
  leases := m.leases.erase key
  keyed := by
    intro k found h
    rw [lookup_erase] at h
    split_ifs at h
    exact m.keyed k found h

def toList (m : LeaseMap) : List Lease := m.leases.toList.map Prod.snd

def size (m : LeaseMap) : ℕ := m.toList.length

@[simp] theorem get_empty (key : LeaseKey) : empty.get key = none := by
  simp [get, empty]

@[simp] theorem get_insertOrUpdate (m : LeaseMap) (lease : Lease)
    (key : LeaseKey) :
    (m.insertOrUpdate lease).get key =
      if lease.leaseKey = key then some lease else m.get key := by
  simp [get, insertOrUpdate]

@[simp] theorem get_insert (m : LeaseMap) (lease : Lease) (key : LeaseKey) :
    (m.insert lease).get key =
      if lease.leaseKey = key then some ((m.get key).getD lease)
      else m.get key := by
  unfold get insert
  rw [lookup_insertIfNew]
  by_cases hkey : lease.leaseKey = key
  · subst hkey
    cases lookup m.leases lease.leaseKey <;> simp
  · simp [hkey]

@[simp] theorem get_erase (m : LeaseMap) (k key : LeaseKey) :
    (m.erase k).get key = if k = key then none else m.get key := by
  simp [get, erase]

theorem leaseKey_of_get {m : LeaseMap} {key : LeaseKey} {lease : Lease}
    (h : m.get key = some lease) : lease.leaseKey = key :=
  m.keyed key lease h

theorem mem_toList_iff (m : LeaseMap) (lease : Lease) :
    lease ∈ m.toList ↔ m.get lease.leaseKey = some lease := by
  simp only [toList, List.mem_map, Prod.exists, exists_eq_right,
    mem_toList_iff_lookup]
  constructor
  · rintro ⟨key, h⟩
    rw [m.keyed key lease h]
    exact h
  · intro h
    exact ⟨lease.leaseKey, h⟩

theorem toList_pairwise_leaseKey_ne (m : LeaseMap) :
    m.toList.Pairwise fun lease lease' => lease.leaseKey ≠ lease'.leaseKey := by
  rw [toList, List.pairwise_map]
  refine (toList_pairwise_ne m.leases).imp_of_mem ?_
  rintro ⟨key, lease⟩ ⟨key', lease'⟩ h h' hne
  rw [m.keyed key lease ((mem_toList_iff_lookup _ _ _).mp h),
    m.keyed key' lease' ((mem_toList_iff_lookup _ _ _).mp h')]
  exact hne

theorem exists_toList_eq_append {m : LeaseMap} {key : LeaseKey} {lease : Lease}
    (h : m.get key = some lease) :
    ∃ before after, m.toList = before ++ lease :: after ∧
      (∀ l ∈ before, l.leaseKey ≠ key) ∧ ∀ l ∈ after, l.leaseKey ≠ key := by
  have hkey := leaseKey_of_get h
  have hmem : lease ∈ m.toList := by
    rw [mem_toList_iff, hkey]
    exact h
  obtain ⟨before, after, heq⟩ := List.append_of_mem hmem
  have hpw := m.toList_pairwise_leaseKey_ne
  rw [heq, List.pairwise_append, List.pairwise_cons] at hpw
  refine ⟨before, after, heq, ?_, ?_⟩
  · intro l hl
    rw [← hkey]
    exact hpw.2.2 l hl lease List.mem_cons_self
  · intro l hl
    rw [← hkey]
    exact (hpw.2.1.1 l hl).symm

theorem leaseKey_ne_of_get_eq_none {m : LeaseMap} {key : LeaseKey}
    (h : m.get key = none) : ∀ l ∈ m.toList, l.leaseKey ≠ key := by
  rintro l hl rfl
  rw [(m.mem_toList_iff l).mp hl] at h
  cases h

theorem leaseKey_mem_map_filter_iff {m : LeaseMap} {lease : Lease}
    (h : lease ∈ m.toList) (p : Lease → Bool) :
    lease.leaseKey ∈ (m.toList.filter p).map (fun lease => lease.leaseKey) ↔
      p lease = true := by
  simp only [List.mem_map, List.mem_filter]
  constructor
  · rintro ⟨lease', ⟨hmem, hp⟩, hkey⟩
    rw [mem_toList_iff] at h hmem
    rw [hkey, h] at hmem
    cases hmem
    exact hp
  · intro hp
    exact ⟨lease, ⟨h, hp⟩, rfl⟩

end LeaseMap

end Leases

end Kclpp
