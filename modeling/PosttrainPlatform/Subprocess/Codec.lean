import PosttrainPlatform.Subprocess.Process

/-!
# A JSON encoding

The subprocesses of the concrete runs write their files in postfix form: the tokens of a value end with
one that puts it together.  A token is a number, whose remainder modulo 8 is its kind.
-/

namespace PosttrainPlatform.Codec

/-- What has been read: the characters of a text, the parts of a number, and the values, the newest
first.  A value has a key if it is a field. -/
structure Reader where
  chars : List Char
  parts : List ℕ
  values : List (String × Json)

/-- The values that are written with one token. -/
def constant : ℕ → Json
  | 0 => .null
  | 1 => .bool false
  | 2 => .bool true
  | 3 => .nan
  | 4 => .infinity false
  | _ => .infinity true

/-- A number from its denominator and its numerator, or what comes before that of a negative one. -/
def number (negative : Bool) : List ℕ → Json
  | den :: n :: _ => .num (mkRat (if negative then .negSucc n else .ofNat n) den)
  | _ => .null

/-- The newest value gets a key. -/
def named (key : String) : List (String × Json) → List (String × Json)
  | (_, v) :: values => (key, v) :: values
  | [] => []

/-- The effect of a token. -/
def Reader.read (r : Reader) (token : ℕ) : Reader :=
  match token % 8 with
  | 0 => { r with values := ("", constant (token / 8)) :: r.values }
  | 1 => { r with chars := Char.ofNat (token / 8) :: r.chars }
  | 2 => { r with parts := token / 8 :: r.parts }
  | 3 => { r with parts := [], values := ("", number (token / 8 != 0) r.parts) :: r.values }
  | 4 => { r with chars := [], values := ("", .str (String.ofList r.chars.reverse)) :: r.values }
  | 5 => { r with chars := [], values := named (String.ofList r.chars.reverse) r.values }
  | 6 => { r with values :=
      ("", .arr ((r.values.take (token / 8)).reverse.map Prod.snd)) :: r.values.drop (token / 8) }
  | _ => { r with values :=
      ("", .obj (r.values.take (token / 8)).reverse) :: r.values.drop (token / 8) }

def loads (data : Bytes) : Option Json :=
  match (data.foldl Reader.read ⟨[], [], []⟩).values with
  | [(_, v)] => some v
  | _ => none

def charTokens (s : String) : List ℕ := s.toList.map fun c => 8 * c.toNat + 1

mutual

def dumps : Json → Bytes
  | .null => [0]
  | .bool b => [if b then 16 else 8]
  | .num q =>
      match q.num with
      | .ofNat n => [8 * n + 2, 8 * q.den + 2, 3]
      | .negSucc n => [8 * n + 2, 8 * q.den + 2, 11]
  | .nan => [24]
  | .infinity negative => [if negative then 40 else 32]
  | .str s => charTokens s ++ [4]
  | .arr vs => dumpsAll vs ++ [8 * vs.length + 6]
  | .obj kvs => dumpsFields kvs ++ [8 * kvs.length + 7]

def dumpsAll : List Json → Bytes
  | [] => []
  | v :: vs => dumps v ++ dumpsAll vs

def dumpsFields : List (String × Json) → Bytes
  | [] => []
  | (key, v) :: kvs => dumps v ++ (charTokens key ++ [5]) ++ dumpsFields kvs

end

/-! ### The round trip -/

section RoundTrip

variable (chars : List Char) (parts : List ℕ) (values : List (String × Json))

theorem read_char (c : Char) :
    Reader.read ⟨chars, parts, values⟩ (8 * c.toNat + 1) = ⟨c :: chars, parts, values⟩ := by
  have hkind : (8 * c.toNat + 1) % 8 = 1 := by omega
  have hpayload : (8 * c.toNat + 1) / 8 = c.toNat := by omega
  simp only [Reader.read, hkind, hpayload, Char.ofNat_toNat]

theorem read_part (n : ℕ) :
    Reader.read ⟨chars, parts, values⟩ (8 * n + 2) = ⟨chars, n :: parts, values⟩ := by
  have hkind : (8 * n + 2) % 8 = 2 := by omega
  have hpayload : (8 * n + 2) / 8 = n := by omega
  simp only [Reader.read, hkind, hpayload]

theorem read_arr (n : ℕ) : Reader.read ⟨chars, parts, values⟩ (8 * n + 6) =
    ⟨chars, parts, ("", .arr ((values.take n).reverse.map Prod.snd)) :: values.drop n⟩ := by
  have hkind : (8 * n + 6) % 8 = 6 := by omega
  have hpayload : (8 * n + 6) / 8 = n := by omega
  simp only [Reader.read, hkind, hpayload]

theorem read_obj (n : ℕ) : Reader.read ⟨chars, parts, values⟩ (8 * n + 7) =
    ⟨chars, parts, ("", .obj (values.take n).reverse) :: values.drop n⟩ := by
  have hkind : (8 * n + 7) % 8 = 7 := by omega
  have hpayload : (8 * n + 7) / 8 = n := by omega
  simp only [Reader.read, hkind, hpayload]

theorem read_charTokens (s : String) :
    (charTokens s).foldl Reader.read ⟨chars, parts, values⟩ =
      ⟨s.toList.reverse ++ chars, parts, values⟩ := by
  unfold charTokens
  induction s.toList generalizing chars with
  | nil => rfl
  | cons c cs ih =>
      rw [List.map_cons, List.foldl_cons, read_char, ih, List.reverse_cons, List.append_assoc]
      rfl

mutual

theorem read_dumps (v : Json) (values : List (String × Json)) :
    (dumps v).foldl Reader.read ⟨[], [], values⟩ = ⟨[], [], ("", v) :: values⟩ := by
  cases v with
  | null => rfl
  | bool b => cases b <;> rfl
  | nan => rfl
  | infinity negative => cases negative <;> rfl
  | num q =>
      have hq : mkRat q.num q.den = q := Rat.mkRat_self q
      unfold dumps
      split
      · rename_i n hn
        rw [hn] at hq
        rw [List.foldl_cons, read_part, List.foldl_cons, read_part]
        show (⟨[], [], ("", .num (mkRat (.ofNat n) q.den)) :: values⟩ : Reader) = _
        rw [hq]
      · rename_i n hn
        rw [hn] at hq
        rw [List.foldl_cons, read_part, List.foldl_cons, read_part]
        show (⟨[], [], ("", .num (mkRat (.negSucc n) q.den)) :: values⟩ : Reader) = _
        rw [hq]
  | str s =>
      rw [dumps, List.foldl_append, read_charTokens, List.append_nil]
      show (⟨[], [], ("", .str (String.ofList s.toList.reverse.reverse)) :: values⟩ : Reader) = _
      rw [List.reverse_reverse, String.ofList_toList]
  | arr vs =>
      rw [dumps, List.foldl_append, read_dumpsAll vs values]
      show Reader.read _ _ = _
      have hlength : (vs.map fun v => ("", v)).reverse.length = vs.length := by simp
      rw [read_arr, ← hlength, List.take_left, List.drop_left, List.reverse_reverse, List.map_map]
      show (⟨[], [], ("", .arr (vs.map id)) :: values⟩ : Reader) = _
      rw [List.map_id]
  | obj kvs =>
      rw [dumps, List.foldl_append, read_dumpsFields kvs values]
      show Reader.read _ _ = _
      have hlength : kvs.reverse.length = kvs.length := List.length_reverse
      rw [read_obj, ← hlength, List.take_left, List.drop_left, List.reverse_reverse]

theorem read_dumpsAll (vs : List Json) (values : List (String × Json)) :
    (dumpsAll vs).foldl Reader.read ⟨[], [], values⟩ =
      ⟨[], [], (vs.map fun v => ("", v)).reverse ++ values⟩ := by
  cases vs with
  | nil => rfl
  | cons v vs =>
      rw [dumpsAll, List.foldl_append, read_dumps v values, read_dumpsAll vs (("", v) :: values),
        List.map_cons, List.reverse_cons, List.append_assoc]
      rfl

theorem read_dumpsFields (kvs : List (String × Json)) (values : List (String × Json)) :
    (dumpsFields kvs).foldl Reader.read ⟨[], [], values⟩ = ⟨[], [], kvs.reverse ++ values⟩ := by
  cases kvs with
  | nil => rfl
  | cons kv kvs =>
      obtain ⟨key, v⟩ := kv
      rw [dumpsFields, List.foldl_append, List.foldl_append, read_dumps v values,
        List.foldl_append, read_charTokens, List.append_nil]
      show (dumpsFields kvs).foldl Reader.read
        ⟨[], [], (String.ofList key.toList.reverse.reverse, v) :: values⟩ = _
      rw [List.reverse_reverse, String.ofList_toList, read_dumpsFields kvs ((key, v) :: values),
        List.reverse_cons, List.append_assoc]
      rfl

end

end RoundTrip

/-- **What was written is read back.** -/
theorem loads_dumps (v : Json) : loads (dumps v) = some v := by
  unfold loads
  rw [read_dumps]

end PosttrainPlatform.Codec

namespace PosttrainPlatform

/-- A Python whose JSON files are in postfix form, in which no text is a number and only numbers can be
compared. -/
def Python.standard : Python where
  dumps := Codec.dumps
  loads := Codec.loads
  loads_dumps := Codec.loads_dumps
  float _ := none
  less _ _ := none

/-! ### A digest -/

/-- A digest without collisions: each byte is the number of zeros before the next one bit. -/
def Codec.digest : Bytes → Hash
  | [] => 0
  | b :: data => 2 ^ b * (2 * digest data + 1)

theorem Codec.pow_two_mul_odd {a b x y : ℕ} (h : 2 ^ a * (2 * x + 1) = 2 ^ b * (2 * y + 1)) :
    a = b ∧ x = y := by
  have heven : ∀ n z : ℕ, 2 ^ (n + 1) * (2 * z + 1) = 2 * (2 ^ n * (2 * z + 1)) := by
    intro n z
    ring
  induction a generalizing b with
  | zero =>
      rw [pow_zero, one_mul] at h
      cases b with
      | zero =>
          rw [pow_zero, one_mul] at h
          omega
      | succ b =>
          rw [heven] at h
          omega
  | succ a ih =>
      rw [heven] at h
      cases b with
      | zero =>
          rw [pow_zero, one_mul] at h
          omega
      | succ b =>
          rw [heven] at h
          obtain ⟨hexponents, hrest⟩ := ih (Nat.eq_of_mul_eq_mul_left two_pos h)
          exact ⟨congrArg Nat.succ hexponents, hrest⟩

theorem Codec.digest_injective : Function.Injective digest := by
  have hpos : ∀ b (data : Bytes), 0 < 2 ^ b * (2 * digest data + 1) := by
    intro b data
    positivity
  intro data
  induction data with
  | nil =>
      intro data' h
      cases data' with
      | nil => rfl
      | cons b' data' => exact absurd h (hpos b' data').ne
  | cons b data ih =>
      intro data' h
      cases data' with
      | nil => exact absurd h (hpos b data).ne'
      | cons b' data' =>
          obtain ⟨hb, hrest⟩ := pow_two_mul_odd h
          rw [hb, ih hrest]

/-- The standard environment with that digest. -/
def Env.digesting : Env := { Env.standard with sha256 := Codec.digest }

/-- The same, where an integer has its decimal text. -/
def Env.decimal : Env := { Env.digesting with
  pyStr := fun
    | .str s => s
    | .num q => toString q.num
    | _ => "" }

theorem natRepr_injective : Function.Injective Nat.repr := by
  intro a b h
  have hdigits := congrArg String.toList h
  rw [Nat.toList_repr, Nat.toList_repr] at hdigits
  have hvalue := congrArg (fun cs => Nat.ofDigitChars 10 cs 0) hdigits
  simpa only [Nat.ofDigitChars_toDigits (by decide : 1 < 10) (by decide : 10 ≤ 10)] using hvalue

/-- Different numbers of steps have different texts. -/
theorem Env.decimal_texts : Function.Injective fun n : ℕ => Env.decimal.pyStr (.num n) := by
  intro a b h
  have htext : toString (a : ℚ).num = toString (b : ℚ).num := h
  rw [Rat.num_natCast, Rat.num_natCast] at htext
  exact natRepr_injective htext

end PosttrainPlatform
