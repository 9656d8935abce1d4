import PosttrainPlatform.Model.Values

/-!
# `app/retry_policy.py`
-/

namespace PosttrainPlatform

/-- `RETRYABLE_CLASSIFICATIONS`. -/
def retryableClassifications : List String := ["transient", "unknown"]

/-- `is_retryable`. -/
def isRetryable (classification : String) (attemptNumber maxAttempts : ℕ) : Bool :=
  retryableClassifications.contains classification && decide (attemptNumber < maxAttempts)

/-- The delay before jitter. -/
def cappedDelay (settings : Settings) (attemptNumber : ℕ) : ℚ :=
  min (settings.baseDelaySeconds * 2 ^ ((attemptNumber : ℤ) - 1)) settings.maxDelaySeconds

/-- `compute_next_retry_at`, for the random fraction `draw` of the jitter range. -/
def computeNextRetryAt (settings : Settings) (attemptNumber : ℕ) (now : Time) (draw : ℚ) : Time :=
  now + (cappedDelay settings attemptNumber +
    draw * (cappedDelay settings attemptNumber * settings.jitterRatio))

end PosttrainPlatform
