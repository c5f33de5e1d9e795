import Kclpp.Kinesis.ShardIterator

/-!
# A shard as a chain of tokens

Kinesis answers a token with a batch of records and the token of the next batch.
`tokenAfter n` is the token `n` batches on and `batches n` the batches on the
way. A token of `none` is the end of the shard; a shard is closed where the
chain reaches it, and from there on the list of its batches does not grow.
-/

namespace Kclpp

namespace Kinesis

section ShardChain

variable {α : Type*} (kinesis : ShardIteratorID → GetRecordsResult α)

/-- The token after the batch of `token`. -/
def tokenAfterBatch (token : ShardIteratorID) : Option ShardIteratorID :=
  nextToken (kinesis token).nextShardIterator

def tokenAfter : ℕ → Option ShardIteratorID → Option ShardIteratorID
  | _, none => none
  | 0, some token => some token
  | n + 1, some token => tokenAfter n (tokenAfterBatch kinesis token)

def batches : ℕ → Option ShardIteratorID → List (List α)
  | _, none => []
  | 0, some _ => []
  | n + 1, some token =>
      (kinesis token).records :: batches n (tokenAfterBatch kinesis token)

@[simp] theorem tokenAfter_none (n : ℕ) : tokenAfter kinesis n none = none := by
  cases n <;> rfl

@[simp] theorem tokenAfter_zero (token : Option ShardIteratorID) :
    tokenAfter kinesis 0 token = token := by
  cases token <;> rfl

theorem tokenAfter_succ_some (n : ℕ) (token : ShardIteratorID) :
    tokenAfter kinesis (n + 1) (some token) =
      tokenAfter kinesis n (tokenAfterBatch kinesis token) := rfl

@[simp] theorem batches_none (n : ℕ) : batches kinesis n none = [] := by
  cases n <;> rfl

@[simp] theorem batches_zero (token : Option ShardIteratorID) :
    batches kinesis 0 token = [] := by
  cases token <;> rfl

theorem batches_succ_some (n : ℕ) (token : ShardIteratorID) :
    batches kinesis (n + 1) (some token) =
      (kinesis token).records ::
        batches kinesis n (tokenAfterBatch kinesis token) := rfl

theorem tokenAfter_succ_of_some (n : ℕ) (start : Option ShardIteratorID)
    (token : ShardIteratorID) (h : tokenAfter kinesis n start = some token) :
    tokenAfter kinesis (n + 1) start = tokenAfterBatch kinesis token := by
  induction n generalizing start with
  | zero =>
      rw [tokenAfter_zero] at h
      rw [h, tokenAfter_succ_some, tokenAfter_zero]
  | succ n ih =>
      cases start with
      | none => cases (tokenAfter_none kinesis _).symm.trans h
      | some first => exact ih _ h

theorem batches_succ_of_some (n : ℕ) (start : Option ShardIteratorID)
    (token : ShardIteratorID) (h : tokenAfter kinesis n start = some token) :
    batches kinesis (n + 1) start =
      batches kinesis n start ++ [(kinesis token).records] := by
  induction n generalizing start with
  | zero =>
      rw [tokenAfter_zero] at h
      rw [h, batches_succ_some, batches_zero, batches_zero, List.nil_append]
  | succ n ih =>
      cases start with
      | none => cases (tokenAfter_none kinesis _).symm.trans h
      | some first =>
          rw [batches_succ_some, batches_succ_some, List.cons_append]
          exact congrArg _ (ih _ h)

/-- The batches on the way to a token are a prefix of those on the way to a later
one. -/
theorem batches_initial (n m : ℕ) (start : Option ShardIteratorID) (h : n ≤ m) :
    batches kinesis n start <+: batches kinesis m start := by
  induction n generalizing m start with
  | zero =>
      rw [batches_zero]
      exact List.nil_prefix
  | succ n ih =>
      cases m with
      | zero => cases h
      | succ m =>
          cases start with
          | none => rw [batches_none, batches_none]
          | some first =>
              rw [batches_succ_some, batches_succ_some, List.prefix_cons_inj]
              exact ih m _ (Nat.le_of_succ_le_succ h)

theorem batches_succ_of_closed (n : ℕ) (start : Option ShardIteratorID)
    (h : tokenAfter kinesis n start = none) :
    batches kinesis (n + 1) start = batches kinesis n start := by
  induction n generalizing start with
  | zero =>
      rw [tokenAfter_zero] at h
      rw [h, batches_none, batches_none]
  | succ n ih =>
      cases start with
      | none => rw [batches_none, batches_none]
      | some first =>
          rw [batches_succ_some, batches_succ_some]
          exact congrArg _ (ih _ h)

theorem tokenAfter_succ_of_closed (n : ℕ) (start : Option ShardIteratorID)
    (h : tokenAfter kinesis n start = none) :
    tokenAfter kinesis (n + 1) start = none := by
  induction n generalizing start with
  | zero =>
      rw [tokenAfter_zero] at h
      rw [h, tokenAfter_none]
  | succ n ih =>
      cases start with
      | none => rw [tokenAfter_none]
      | some first => exact ih _ h

/-- A chain that has ended after `n` batches has ended after `n` more than the
first. -/
theorem tokenAfter_tokenAfterBatch_of_closed (n : ℕ) (token : ShardIteratorID)
    (h : tokenAfter kinesis n (some token) = none) :
    tokenAfter kinesis n (tokenAfterBatch kinesis token) = none := by
  rw [← tokenAfter_succ_some]
  exact tokenAfter_succ_of_closed kinesis n (some token) h

/-- The batches of a closed shard are the first one and those of the chain after
it. -/
theorem batches_some_of_closed (n : ℕ) (token : ShardIteratorID)
    (h : tokenAfter kinesis n (some token) = none) :
    batches kinesis n (some token) =
      (kinesis token).records ::
        batches kinesis n (tokenAfterBatch kinesis token) := by
  rw [← batches_succ_some]
  exact (batches_succ_of_closed kinesis n (some token) h).symm

end ShardChain

end Kinesis

end Kclpp
