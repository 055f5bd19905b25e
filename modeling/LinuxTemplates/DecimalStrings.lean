import Mathlib.Data.List.TakeWhile
import Mathlib.Data.Nat.Digits.Lemmas

/-!
# Decimal numbers in strings

`atoi` skips white space and a sign and takes the digits that follow. It goes through
`strtol`, which keeps its result within 64 bits, and drops the upper half of it.
-/

namespace LinuxTemplates.DecimalStrings

def isSpace (b : UInt8) : Bool := b = 32 ∨ (9 ≤ b ∧ b ≤ 13)

def isDigit (b : UInt8) : Bool := 48 ≤ b ∧ b ≤ 57

def digitsValue (s : List UInt8) : ℕ := s.foldl (fun v b => 10 * v + (b.toNat - 48)) 0

/-- The number that a sign and digits stand for, whatever comes behind them. -/
def signedValue (s : List UInt8) : ℤ :=
  match s with
  | 43 :: s => digitsValue (s.takeWhile isDigit)
  | 45 :: s => -digitsValue (s.takeWhile isDigit)
  | s => digitsValue (s.takeWhile isDigit)

def strtol (s : List UInt8) : Int64 := Int64.ofIntClamp (signedValue (s.dropWhile isSpace))

def atoi (s : List UInt8) : Int32 := (strtol s).toInt32

/-- The digits of a number, without leading zeros. -/
def decimal (n : ℕ) : List UInt8 :=
  if n = 0 then [48] else (Nat.digits 10 n).reverse.map (fun d => 48 + UInt8.ofNat d)

/-- The two parts of a string around the first `c`; without `c` there is no second part. -/
def splitFirst (c : UInt8) : List UInt8 → List UInt8 × Option (List UInt8)
  | [] => ([], none)
  | b :: s => if b = c then ([], some s) else ((b :: (splitFirst c s).1), (splitFirst c s).2)

theorem splitFirst_of_notMem {c : UInt8} {s : List UInt8} (h : c ∉ s) :
    splitFirst c s = (s, none) := by
  induction s with
  | nil => rfl
  | cons b s ih =>
    have hb : ¬ b = c := fun heq => h (heq ▸ List.mem_cons_self)
    have hs : c ∉ s := fun hmem => h (List.mem_cons_of_mem _ hmem)
    rw [splitFirst, if_neg hb, ih hs]

theorem splitFirst_append {c : UInt8} {a : List UInt8} (h : c ∉ a) (b : List UInt8) :
    splitFirst c (a ++ c :: b) = (a, some b) := by
  induction a with
  | nil => rw [List.nil_append, splitFirst, if_pos rfl]
  | cons x a ih =>
    have hx : ¬ x = c := fun heq => h (heq ▸ List.mem_cons_self)
    have ha : c ∉ a := fun hmem => h (List.mem_cons_of_mem _ hmem)
    rw [List.cons_append, splitFirst, if_neg hx, ih ha]

theorem splitFirst_cases (c : UInt8) (s : List UInt8) :
    (c ∉ s ∧ splitFirst c s = (s, none)) ∨
      ∃ a b, c ∉ a ∧ s = a ++ c :: b ∧ splitFirst c s = (a, some b) := by
  by_cases h : c ∈ s
  · obtain ⟨a, b, rfl, ha⟩ := List.eq_append_cons_of_mem h
    exact .inr ⟨a, b, ha, rfl, splitFirst_append ha b⟩
  · exact .inl ⟨h, splitFirst_of_notMem h⟩

/-! ## Numbers that are written and read -/

theorem isDigit_digit {d : ℕ} (h : d < 10) : isDigit (48 + UInt8.ofNat d) = true := by
  interval_cases d <;> decide

theorem value_digit {d : ℕ} (h : d < 10) : (48 + UInt8.ofNat d).toNat - 48 = d := by
  interval_cases d <;> decide

theorem digits_decimal (n : ℕ) : ∀ b ∈ decimal n, isDigit b = true := by
  intro b hb
  unfold decimal at hb
  split at hb
  · obtain rfl := List.mem_singleton.mp hb
    decide
  · obtain ⟨d, hd, rfl⟩ := List.mem_map.mp hb
    exact isDigit_digit (Nat.digits_lt_base (by decide) (List.mem_reverse.mp hd))

theorem foldr_digits {ds : List ℕ} (h : ∀ d ∈ ds, d < 10) :
    digitsValue (ds.reverse.map (fun d => 48 + UInt8.ofNat d)) = Nat.ofDigits 10 ds := by
  induction ds with
  | nil => rfl
  | cons d ds ih =>
    have hd := value_digit (h d List.mem_cons_self)
    have hds := ih (fun x hx => h x (List.mem_cons_of_mem _ hx))
    rw [digitsValue] at hds
    rw [Nat.ofDigits_cons, ← hds, List.reverse_cons, List.map_append, digitsValue,
      List.foldl_append]
    simp only [List.map_cons, List.map_nil, List.foldl_cons, List.foldl_nil, hd]
    omega

theorem digitsValue_decimal (n : ℕ) : digitsValue (decimal n) = n := by
  unfold decimal
  split
  · rename_i hn
    rw [hn]
    rfl
  · rw [foldr_digits (fun d hd => Nat.digits_lt_base (by decide) hd), Nat.ofDigits_digits]

theorem not_isSpace_of_isDigit {b : UInt8} (h : isDigit b = true) : isSpace b = false := by
  simp only [isDigit, isSpace, decide_eq_true_eq, decide_eq_false_iff_not] at h ⊢
  rw [UInt8.le_iff_toNat_le, UInt8.le_iff_toNat_le] at h
  rw [UInt8.le_iff_toNat_le, UInt8.le_iff_toNat_le, ← UInt8.toNat_inj]
  have h0 : UInt8.toNat 48 = 48 := rfl
  have h9 : UInt8.toNat 9 = 9 := rfl
  have h13 : UInt8.toNat 13 = 13 := rfl
  have h32 : UInt8.toNat 32 = 32 := rfl
  omega

/-- Digits alone are neither skipped nor taken for a sign. -/
theorem signedValue_digits {s : List UInt8} (h : ∀ b ∈ s, isDigit b = true) :
    signedValue (s.dropWhile isSpace) = digitsValue s := by
  have hall : s.takeWhile isDigit = s := List.takeWhile_eq_self_iff.mpr h
  have hskip : s.dropWhile isSpace = s := by
    cases s with
    | nil => rfl
    | cons b s =>
      rw [List.dropWhile_cons, not_isSpace_of_isDigit (h b List.mem_cons_self)]
      rfl
  rw [hskip]
  unfold signedValue
  split
  · exact absurd (h 43 List.mem_cons_self) (by decide)
  · exact absurd (h 45 List.mem_cons_self) (by decide)
  · rw [hall]

theorem atoi_of_signedValue {s : List UInt8} {v : ℤ} (h : signedValue (s.dropWhile isSpace) = v)
    (hmin : -2147483648 ≤ v) (hmax : v < 2147483648) : (atoi s).toInt = v := by
  have hmin' : Int64.minValue.toInt ≤ v := le_trans (by decide) hmin
  have hmax' : v ≤ Int64.maxValue.toInt := le_trans hmax.le (by decide)
  have hclamp : Int64.ofIntClamp v = Int64.ofIntLE v hmin' hmax' :=
    Int64.ofIntLE_eq_ofIntClamp.symm
  rw [atoi, strtol, h, hclamp, Int64.toInt32_ofIntLE, Int32.toInt_ofInt, Int32.size, Int.bmod_def]
  omega

/-- What is written for a number that an `int` can hold is read as that number. -/
theorem atoi_decimal {n : ℕ} (h : n < 2147483648) : (atoi (decimal n)).toInt64 = Int64.ofNat n := by
  have hvalue : signedValue ((decimal n).dropWhile isSpace) = n := by
    rw [signedValue_digits (digits_decimal n), digitsValue_decimal]
  have hint := atoi_of_signedValue hvalue (by omega) (by omega)
  apply Int64.toInt_inj.mp
  rw [Int32.toInt_toInt64, hint, Int64.toInt_ofNat']
  rw [Int64.size, Int.bmod_def]
  omega

end LinuxTemplates.DecimalStrings
