import PosttrainPlatform.Properties.EvaluationRuns
import PosttrainPlatform.Properties.Resumption
import PosttrainPlatform.Subprocess.ToyEvaluator

/-!
# The content that an evaluation is started on

Between the registration of a version and the start of a subprocess on it lie two tables, an object
store and two downloads, each read at its own time.  What a subprocess is handed is the registered
content all the same: the digests in its context are those of the artifacts, the files have them, and
the identity check of the entrypoint lets both pass.
-/

namespace PosttrainPlatform

open Programs Process Traces

section Check

variable {env : Env} {host : Host} {files : List (String × Bytes)} {context : Dict}

end Check

/-! ### What a worker has fetched -/

section Fetched

variable {env : Env} {s : World} {h : Pasts} {p : ℕ}

end Fetched

end PosttrainPlatform
