import Mathlib.Data.List.TakeWhile

/-!
# NUL-terminated strings

The bytes of a C string are those before the first NUL.
-/

namespace LinuxTemplates.CStrings

def upToNul (bs : List UInt8) : List UInt8 := bs.takeWhile (· ≠ 0)

def strlen (bs : List UInt8) : ℕ := (upToNul bs).length

theorem upToNul_of_nulFree {bs : List UInt8} (h : 0 ∉ bs) : upToNul bs = bs := by
  rw [upToNul, List.takeWhile_eq_self_iff]
  intro b hb
  have hne : b ≠ 0 := fun h0 => h (h0 ▸ hb)
  simpa using hne

theorem take_strlen {bs : List UInt8} (h : 0 ∉ bs) : bs.take (strlen bs) = bs := by
  rw [strlen, upToNul_of_nulFree h, List.take_length]

/-- Reads the string that starts at the first byte of `memory`; `none` stands for a reader
that finds no NUL and leaves the memory. -/
def cString (memory : List UInt8) : Option (List UInt8) :=
  if 0 ∈ memory then some (upToNul memory) else none

theorem cString_eq_some_iff {memory str : List UInt8} :
    cString memory = some str ↔ 0 ∈ memory ∧ upToNul memory = str := by
  by_cases h : 0 ∈ memory
  · rw [cString, if_pos h, Option.some_inj, and_iff_right h]
  · simp [cString, h]

theorem upToNul_append_nul {bs : List UInt8} (h : 0 ∉ bs) (rest : List UInt8) :
    upToNul (bs ++ 0 :: rest) = bs := by
  have hall : ∀ b ∈ bs, decide (b ≠ 0) = true := by
    intro b hb
    exact decide_eq_true (fun h0 => h (h0 ▸ hb))
  rw [upToNul, List.takeWhile_append_of_pos hall]
  simp

/-- What stands behind a NUL does not count, whether or not another one stands before it. -/
theorem upToNul_append_zero (bs rest : List UInt8) : upToNul (bs ++ 0 :: rest) = upToNul bs := by
  induction bs with
  | nil => rfl
  | cons b bs ih =>
    rw [upToNul, upToNul] at ih ⊢
    rw [List.cons_append, List.takeWhile_cons, List.takeWhile_cons, ih]

end LinuxTemplates.CStrings
