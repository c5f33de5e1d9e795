import Kclpp.Transition.Run

/-!
# A cell with a version

The pattern behind optimistic concurrency, with nothing in it but versions. Any
number of parties observe the version of a cell and later swap the cell's
content, naming a version they have observed; the swap is accepted when that is
still the version of the cell, which then goes up by one. `circulating` lists
the versions that some party holds, and `accepted` those of the swaps accepted
so far, newest first.

No version is accepted twice (`accepted_nodup_of_run`), and once a swap has been
accepted no version observed before it is accepted again (`lt_version_of_run`).
-/

namespace Transition

/-- A cell, the versions in circulation and the versions swapped. -/
structure VersionedCell where
  version : ℕ
  circulating : List ℕ
  accepted : List ℕ
  deriving DecidableEq, Repr

/-- What a party does with the cell. -/
inductive CellRequest where
  | observe
  | swap (expected : ℕ)
  deriving DecidableEq, Repr

namespace VersionedCell

def step (cell : VersionedCell) : CellRequest → Option VersionedCell
  | .observe => some { cell with circulating := cell.version :: cell.circulating }
  | .swap expected =>
      if expected ∈ cell.circulating then
        if expected = cell.version then
          some { cell with
            version := cell.version + 1
            accepted := expected :: cell.accepted }
        else some cell
      else none

/-- No version in circulation is ahead of the cell, and the accepted ones are
behind it, each behind the next. -/
structure Fenced (cell : VersionedCell) : Prop where
  circulating_le : ∀ v ∈ cell.circulating, v ≤ cell.version
  accepted_lt : ∀ v ∈ cell.accepted, v < cell.version
  accepted_pairwise : cell.accepted.Pairwise (· > ·)

theorem step_swap_version (cell : VersionedCell)
    (h : cell.version ∈ cell.circulating) :
    step cell (.swap cell.version) =
      some { cell with
        version := cell.version + 1
        accepted := cell.version :: cell.accepted } := by
  simp [step, h]

/-- The state after a swap: the cell itself, or the next version. -/
theorem step_swap_cases {cell cell' : VersionedCell} {v : ℕ}
    (h : step cell (.swap v) = some cell') :
    cell' = cell ∨ v = cell.version ∧
      cell' = { cell with
        version := cell.version + 1
        accepted := cell.version :: cell.accepted } := by
  simp only [step] at h
  split_ifs at h with hmem hv
  · cases h
    exact Or.inr ⟨hv, by rw [hv]⟩
  · cases h
    exact Or.inl rfl

theorem Fenced.step {cell cell' : VersionedCell} (hinv : Fenced cell)
    (r : CellRequest) (h : VersionedCell.step cell r = some cell') :
    Fenced cell' := by
  cases r with
  | observe =>
      cases h
      refine ⟨?_, hinv.accepted_lt, hinv.accepted_pairwise⟩
      intro v hv
      rcases List.mem_cons.mp hv with rfl | hv
      · exact le_rfl
      · exact hinv.circulating_le v hv
  | swap v =>
      rcases step_swap_cases h with rfl | ⟨-, rfl⟩
      · exact hinv
      · refine ⟨?_, ?_, ?_⟩
        · intro w hw
          exact Nat.le_succ_of_le (hinv.circulating_le w hw)
        · intro w hw
          rcases List.mem_cons.mp hw with rfl | hw
          · exact Nat.lt_succ_self _
          · exact Nat.lt_succ_of_lt (hinv.accepted_lt w hw)
        · exact List.pairwise_cons.mpr
            ⟨hinv.accepted_lt, hinv.accepted_pairwise⟩

theorem version_le_of_step {cell cell' : VersionedCell} (r : CellRequest)
    (h : step cell r = some cell') : cell.version ≤ cell'.version := by
  cases r with
  | observe =>
      cases h
      exact le_rfl
  | swap v =>
      rcases step_swap_cases h with rfl | ⟨-, rfl⟩
      · exact le_rfl
      · exact Nat.le_succ _

theorem fenced_of_run {cell cell' : VersionedCell} {rs : List CellRequest}
    (hinv : Fenced cell) (h : run step cell rs = some cell') : Fenced cell' :=
  run_invariant (fun _ r _ hc hstep => Fenced.step hc r hstep) hinv h

theorem version_le_of_run {cell cell' : VersionedCell} {rs : List CellRequest}
    (h : run step cell rs = some cell') : cell.version ≤ cell'.version :=
  run_relation (R := fun c c' => c.version ≤ c'.version) (fun _ => le_rfl)
    (fun _ _ _ h₁ h₂ => h₁.trans h₂) (fun _ r _ hstep => version_le_of_step r hstep) h

theorem accepted_nodup_of_run {cell cell' : VersionedCell}
    {rs : List CellRequest} (hinv : Fenced cell)
    (h : run step cell rs = some cell') : cell'.accepted.Nodup :=
  (fenced_of_run hinv h).accepted_pairwise.imp fun hgt => ne_of_gt hgt

/-- Once the cell has gone up, every version that was in circulation is behind
it for good. -/
theorem lt_version_of_run {cell cell₁ cell' : VersionedCell}
    {rs : List CellRequest} (hinv : Fenced cell)
    (hlt : cell.version < cell₁.version) (h : run step cell₁ rs = some cell')
    {v : ℕ} (hv : v ∈ cell.circulating) : v < cell'.version :=
  calc
    v ≤ cell.version := hinv.circulating_le v hv
    _ < cell₁.version := hlt
    _ ≤ cell'.version := version_le_of_run h

end VersionedCell

end Transition
