import Mathlib.Data.Rat.Floor
import Mathlib.Algebra.Order.Floor.Ring
import Mathlib.Algebra.Order.Ring.Rat
import Mathlib.Tactic.NormNum
import Mathlib.Tactic.Linarith
import Mathlib.Data.Fintype.Pi
import PosttrainPlatform.Lib.Doubles
import PosttrainPlatform.Lib.Table

/-!
# Values the platform computes with

Identifiers are opaque natural numbers, clock readings and delays are rationals.  Configurations are
unvalidated JSON objects, so the amounts a job requests stay JSON values until Postgres evaluates
them; `Env` collects the settings and the functions of the surrounding software that the code calls
(text conversions of the database, the digest of a byte string).
-/

namespace PosttrainPlatform

open Doubles

abbrev JobId := ℕ
abbrev WorkerId := ℕ
abbrev RunId := ℕ
abbrev ArtifactId := ℕ
abbrev Time := ℚ
abbrev Bytes := List ℕ
abbrev Hash := ℕ

/-- A decoded JSON value (a Python object as `json.loads` returns it, which knows `NaN` and
`Infinity`). -/
inductive Json
  | null
  | bool (b : Bool)
  | num (q : ℚ)
  | nan
  | infinity (negative : Bool)
  | str (s : String)
  | arr (xs : List Json)
  | obj (kvs : List (String × Json))

def Json.isNull : Json → Bool
  | .null => true
  | _ => false

mutual

/-- A `JSON` or `JSONB` column takes the value: Postgres's JSON has no `NaN` and no `Infinity`. -/
def Json.storable : Json → Bool
  | .nan | .infinity _ => false
  | .arr vs => Json.allStorable vs
  | .obj kvs => Json.fieldsStorable kvs
  | .null | .bool _ | .num _ | .str _ => true

def Json.allStorable : List Json → Bool
  | [] => true
  | v :: vs => v.storable && Json.allStorable vs

def Json.fieldsStorable : List (String × Json) → Bool
  | [] => true
  | (_, v) :: kvs => v.storable && Json.fieldsStorable kvs

end

/-- The number that a value is to Python, whose booleans are integers. -/
def Json.number? : Json → Option Number
  | .num q => some (.finite q)
  | .bool b => some (.finite (if b then 1 else 0))
  | .nan => some .nan
  | .infinity negative => some (.infinity negative)
  | .null | .str _ | .arr _ | .obj _ => none

/-- A number as a JSON value. -/
def Json.ofNumber : Number → Json
  | .finite q => .num q
  | .nan => .nan
  | .infinity negative => .infinity negative

theorem Json.storable_ofNumber (x : Number) : (Json.ofNumber x).storable = x.isFinite := by
  cases x <;> rfl

mutual

/-- Python's `==`; two dicts are equal whatever the order of their keys. -/
def Json.pyEq : Json → Json → Bool
  | .null, w => w.isNull
  | .str s, .str t => s == t
  | .arr vs, .arr ws => Json.allEq vs ws
  | .obj kvs, .obj other => kvs.length == other.length && Json.fieldsEq kvs other
  | .bool b, w => w.number?.any fun y => (Number.finite (if b then 1 else 0)).beq y
  | .num q, w => w.number?.any fun y => (Number.finite q).beq y
  | .infinity negative, w => w.number?.any fun y => (Number.infinity negative).beq y
  | .nan, _ | .str _, _ | .arr _, _ | .obj _, _ => false

def Json.allEq : List Json → List Json → Bool
  | [], [] => true
  | v :: vs, w :: ws => v.pyEq w && Json.allEq vs ws
  | [], _ :: _ | _ :: _, [] => false

def Json.fieldsEq : List (String × Json) → List (String × Json) → Bool
  | [], _ => true
  | (key, v) :: kvs, other =>
      (match other.lookup key with
      | some w => v.pyEq w
      | none => false) && Json.fieldsEq kvs other

end

/-- A Python dict with string keys. -/
abbrev Dict := List (String × Json)

/-- `d.get(key)`. -/
def Dict.get? (d : Dict) (key : String) : Option Json := d.lookup key

/-- `d.get(key, default)`. -/
def Dict.getD (d : Dict) (key : String) (dflt : Json) : Json := (d.get? key).getD dflt

/-- The three resource dimensions of the cluster. -/
inductive Dim
  | cpu
  | memoryMb
  | gpu
  deriving DecidableEq

instance : Fintype Dim := ⟨{.cpu, .memoryMb, .gpu}, fun d => by cases d <;> simp⟩

/-- One amount per resource dimension. -/
abbrev Resources (α : Type) := Dim → α

def Resources.of {α : Type} (cpu memoryMb gpu : α) : Resources α
  | .cpu => cpu
  | .memoryMb => memoryMb
  | .gpu => gpu

/-- Convert every amount, failing as soon as one of them does. -/
def Resources.mapM {α β : Type} (f : α → Option β) (r : Resources α) : Option (Resources β) :=
  match f (r .cpu), f (r .memoryMb), f (r .gpu) with
  | some c, some m, some g => some (Resources.of c m g)
  | _, _, _ => none

theorem Resources.mapM_eq_some {α β : Type} {f : α → Option β} {r : Resources α}
    {r' : Resources β} : Resources.mapM f r = some r' ↔ ∀ d, f (r d) = some (r' d) := by
  unfold Resources.mapM
  constructor
  · split
    · rename_i c m g hc hm hg
      intro h d
      cases h
      cases d <;> assumption
    · intro h
      cases h
  · intro h
    rw [h .cpu, h .memoryMb, h .gpu]
    refine congrArg some (funext fun d => ?_)
    cases d <;> rfl

/-- The settings of `app.config` that the modelled functions read. -/
structure Settings where
  leaseDurationSeconds : ℚ
  maxAttempts : ℕ
  baseDelaySeconds : ℚ
  maxDelaySeconds : ℚ
  jitterRatio : ℚ
  agingRate : ℚ
  priorityCeiling : ℚ
  maxAdmissionsPerPass : ℕ
  defaultCpu : ℤ
  defaultMemoryMb : ℤ
  defaultGpu : ℤ
  uploadLeaseDurationSeconds : ℚ
  artifactPendingGracePeriodSeconds : ℚ := 300
  /-- The `app` logger is enabled for INFO, as `log_level` has it by default. -/
  logInfo : Bool := true

/-- The defaults of `app.config`. -/
def Settings.default : Settings where
  leaseDurationSeconds := 30
  maxAttempts := 3
  baseDelaySeconds := 2
  maxDelaySeconds := 60
  jitterRatio := 1 / 5
  agingRate := 1 / 20
  priorityCeiling := 100
  maxAdmissionsPerPass := 50
  defaultCpu := 1
  defaultMemoryMb := 512
  defaultGpu := 0
  uploadLeaseDurationSeconds := 60

/-- The settings, and the functions outside the repository that it calls. -/
structure Env where
  settings : Settings
  /-- Postgres's input conversion of a text literal to `integer`. -/
  int4in : String → Option ℤ
  /-- What Postgres stores for a bound value in a `VARCHAR` column; `none` is an error. -/
  textColumn : Json → Option String
  /-- Whether a bound value can be stored in a `FLOAT` column. -/
  floatColumn : Json → Bool
  /-- What a `FLOAT` column holds for a bound value that it takes. -/
  float8in : Json → Number
  /-- Python's `str()` of a decoded JSON value. -/
  pyStr : Json → String
  /-- `json.dumps`. -/
  jsonDumps : Json → String
  /-- `hashlib.sha256(data).hexdigest()`. -/
  sha256 : Bytes → Hash

/-- An environment with the default settings, in which no text is a number and the digest of a byte
string is its sum. -/
def Env.standard : Env where
  settings := .default
  int4in _ := none
  textColumn
    | .str s => some s
    | _ => none
  floatColumn
    | .null | .num _ | .nan | .infinity _ => true
    | _ => false
  float8in
    | .num q => Number.round q
    | .infinity negative => .infinity negative
    | _ => .nan
  pyStr
    | .str s => s
    | _ => ""
  jsonDumps _ := ""
  sha256 data := data.sum

/-- A nullable text column takes the value. -/
def Env.storesText (env : Env) (v : Json) : Bool := v.isNull || (env.textColumn v).isSome

/-! ### Amounts as Postgres computes them -/

/-- The operand a bound value is in an integer expression; `none` is a type error. -/
inductive Operand
  | value (q : ℚ)
  | null

def sqlOperand (env : Env) : Json → Option Operand
  | .num q => some (.value q)
  | .null => some .null
  | .str s => (env.int4in s).map fun n => .value n
  | .bool _ | .nan | .infinity _ | .arr _ | .obj _ => none

def Operand.value? : Operand → Option ℚ
  | .value q => some q
  | .null => none

/-- The assignment cast from `numeric` to `integer` rounds ties away from zero. -/
def roundHalfAway (q : ℚ) : ℤ := if 0 ≤ q then ⌊q + 1 / 2⌋ else ⌈q - 1 / 2⌉

/-- Storing a number in an `INTEGER` column; `none` is "integer out of range". -/
def int4Column (q : ℚ) : Option ℤ :=
  if -2147483648 ≤ roundHalfAway q ∧ roundHalfAway q ≤ 2147483647 then some (roundHalfAway q)
  else none

/-- An integer is stored unchanged. -/
theorem roundHalfAway_intCast (n : ℤ) : roundHalfAway (n : ℚ) = n := by
  unfold roundHalfAway
  split
  · rw [Int.floor_intCast_add, show ⌊(1 / 2 : ℚ)⌋ = 0 by norm_num, add_zero]
  · rw [sub_eq_add_neg, Int.ceil_intCast_add, show ⌈(-(1 / 2) : ℚ)⌉ = 0 by norm_num, add_zero]

/-- The two ways to round agree except half way between integers. -/
theorem ceil_sub_half (q : ℚ) :
    ⌈q - 1 / 2⌉ = if Int.fract q = 1 / 2 then ⌊q + 1 / 2⌋ - 1 else ⌊q + 1 / 2⌋ := by
  have hq : q = ⌊q⌋ + Int.fract q := (Int.floor_add_fract q).symm
  have h0 := Int.fract_nonneg q
  have h1 := Int.fract_lt_one q
  have hfloor : ⌊q + 1 / 2⌋ = ⌊q⌋ + ⌊Int.fract q + 1 / 2⌋ := by
    conv_lhs => rw [hq]
    rw [add_assoc, Int.floor_intCast_add]
  have hceil : ⌈q - 1 / 2⌉ = ⌊q⌋ + ⌈Int.fract q - 1 / 2⌉ := by
    conv_lhs => rw [hq]
    rw [add_sub_assoc, Int.ceil_intCast_add]
  rw [hfloor, hceil]
  split
  · rename_i hhalf
    rw [hhalf]
    norm_num
  · rename_i hhalf
    obtain hlt | hgt := lt_or_gt_of_ne hhalf
    · have hf : ⌊Int.fract q + 1 / 2⌋ = 0 := Int.floor_eq_iff.mpr
        ⟨by push_cast; linarith, by push_cast; linarith⟩
      have hc : ⌈Int.fract q - 1 / 2⌉ = 0 := Int.ceil_eq_iff.mpr
        ⟨by push_cast; linarith, by push_cast; linarith⟩
      rw [hf, hc]
    · have hf : ⌊Int.fract q + 1 / 2⌋ = 1 := Int.floor_eq_iff.mpr
        ⟨by push_cast; linarith, by push_cast; linarith⟩
      have hc : ⌈Int.fract q - 1 / 2⌉ = 1 := Int.ceil_eq_iff.mpr
        ⟨by push_cast; linarith, by push_cast; linarith⟩
      rw [hf, hc]

/-- **Rounding commutes with the addition of an integer**, unless it is decided half way between two
integers and on different sides of zero. -/
theorem roundHalfAway_intCast_add (a : ℤ) (q : ℚ) :
    roundHalfAway (a + q) = a + roundHalfAway q ↔
      (Int.fract q = 1 / 2 → (0 ≤ q ↔ 0 ≤ a + q)) := by
  have hfloor : ⌊(a : ℚ) + q + 1 / 2⌋ = a + ⌊q + 1 / 2⌋ := by
    rw [add_assoc, Int.floor_intCast_add]
  unfold roundHalfAway
  rw [ceil_sub_half, ceil_sub_half, hfloor, Int.fract_intCast_add]
  by_cases hhalf : Int.fract q = 1 / 2
  · by_cases hq : 0 ≤ q <;> by_cases haq : 0 ≤ (a : ℚ) + q <;> simp [hhalf, hq, haq] <;> omega
  · simp only [hhalf, if_false, ite_self, false_implies]

theorem int4Column_eq_some {q : ℚ} {n : ℤ} (h : int4Column q = some n) : n = roundHalfAway q := by
  unfold int4Column at h
  split at h
  · exact (Option.some.inj h).symm
  · cases h

end PosttrainPlatform
