import LinuxTemplates.CMemory
import LinuxTemplates.DecimalStrings
import LinuxTemplates.TimerfdElapsed

/-!
# `ItimerspecFromStr`

A timer is written `1/2:3/4`: seconds and nanoseconds to the first expiration, then those
of the period. The function cuts a copy of the string into pieces by overwriting its
separators, and frees the copy.
-/

namespace LinuxTemplates.TimerfdProgram
open CMemory DecimalStrings

def colon : UInt8 := 58
def slash : UInt8 := 47

structure Itimerspec where
  itValue : Timespec
  itInterval : Timespec

/-- `atoi` of the string at a pointer. -/
def atoiAt (m : Memory) (p : Ptr) : Option Int32 := (m.string p).map atoi

/-- Overwrites a separator, if there is one, with NUL. -/
def cutAt (m : Memory) : Option Ptr → Option Memory
  | some p => m.store p 0
  | none => some m

/-- The statements that both parts of the string go through: the first `/` is overwritten,
what stands before it gives the seconds and what stands behind it the nanoseconds. -/
def timespecAt (m : Memory) (str : Ptr) : Option (Timespec × Memory) := do
  let nsPtr ← m.strchr str slash
  let m ← cutAt m nsPtr
  let sec ← atoiAt m str
  let nsec ← match nsPtr with
    | some p => atoiAt m (p.add 1)
    | none => some 0
  return (⟨sec.toInt64, nsec.toInt64⟩, m)

/-- `none` stands for an access that is undefined: outside a block, or through the NULL
that `strdup` returns without memory. -/
def itimerspecFromStr (malloc : Bool) (m : Memory) (str : Ptr) : Option (Itimerspec × Memory) := do
  let (dup, m) ← m.strdup malloc str
  let dupStr ← dup
  let secPtr ← m.strchr dupStr colon
  let m ← cutAt m secPtr
  let (value, m) ← timespecAt m dupStr
  let (interval, m) ← match secPtr with
    | some p => timespecAt m (p.add 1)
    | none => some (⟨0, 0⟩, m)
  let m ← m.free dupStr
  return (⟨value, interval⟩, m)

/-! ## The format -/

/-- Seconds, and nanoseconds behind the first `/`. -/
def timespecOf (part : List UInt8) : Timespec :=
  ⟨(atoi (splitFirst slash part).1).toInt64,
    (((splitFirst slash part).2.map atoi).getD 0).toInt64⟩

/-- The value, and the interval behind the first `:`. -/
def itimerspecOf (s : List UInt8) : Itimerspec :=
  ⟨timespecOf (splitFirst colon s).1, ((splitFirst colon s).2.map timespecOf).getD ⟨0, 0⟩⟩

/-- Wherever the string stands, every access is in order, the result is `time` and all that
is left is a freed block. -/
def Decodes (s : List UInt8) (time : Itimerspec) : Prop :=
  ∀ (m : Memory) (str : Ptr) (rest : List UInt8), m.bytes str = s ++ 0 :: rest →
    itimerspecFromStr true m str = some (time, m.push [])

/-! ## Both parts of the string -/

section Parts
variable {m : Memory} {part : List UInt8}

theorem atoiAt_push {bs s rest : List UInt8} {k : ℕ} (h : 0 ∉ s) (hk : bs.drop k = s ++ 0 :: rest) :
    atoiAt (m.push bs) (m.fresh k) = some (atoi s) := by
  rw [atoiAt, Memory.string_push h hk, Option.map_some]

/-- A part that ends in NUL is decoded, and what stands around it stays. -/
theorem timespecAt_push (pre post : List UInt8) (h : 0 ∉ part) :
    ∃ cut : List UInt8, cut.length = part.length ∧
      timespecAt (m.push (pre ++ (part ++ 0 :: post))) (m.fresh pre.length) =
        some (timespecOf part, m.push (pre ++ (cut ++ 0 :: post))) := by
  have hpart : (pre ++ (part ++ 0 :: post)).drop pre.length = part ++ 0 :: post := List.drop_left
  rcases splitFirst_cases slash part with ⟨hno, hsplit⟩ | ⟨a, b, ha, rfl, hsplit⟩
  · refine ⟨part, rfl, ?_⟩
    simp only [timespecAt, Memory.strchr_push_of_not_mem h hpart hno, cutAt, atoiAt_push h hpart,
      timespecOf, hsplit, Option.bind_eq_bind, Option.bind_some]
    rfl
  · have hnul : 0 ∉ a ∧ 0 ∉ b := by
      refine ⟨fun hmem => h (List.mem_append_left _ hmem), fun hmem => h ?_⟩
      exact List.mem_append_right _ (List.mem_cons_of_mem _ hmem)
    have hfind := Memory.strchr_push_append (m := m) h hpart ha
    have hstore : (m.push (pre ++ ((a ++ slash :: b) ++ 0 :: post))).store
        (m.fresh (pre.length + a.length)) 0 =
          some (m.push (pre ++ ((a ++ 0 :: b) ++ 0 :: post))) := by
      rw [Memory.store_push]
      · simp
      · simp
    have hsec : (pre ++ ((a ++ 0 :: b) ++ 0 :: post)).drop pre.length =
        a ++ 0 :: (b ++ 0 :: post) := by simp
    have hnsec : (pre ++ ((a ++ 0 :: b) ++ 0 :: post)).drop (pre.length + a.length + 1) =
        b ++ 0 :: post := by
      rw [← List.drop_drop, ← List.drop_drop, hsec, List.drop_left]
      rfl
    refine ⟨a ++ 0 :: b, by simp, ?_⟩
    simp only [timespecAt, hfind, cutAt, hstore, atoiAt_push hnul.1 hsec, Memory.fresh_add,
      atoiAt_push hnul.2 hnsec, timespecOf, hsplit, Option.bind_eq_bind, Option.bind_some]
    rfl

end Parts

/-- Without `:` the whole string is the value. -/
theorem decodes_of_notMem {s : List UInt8} (h : 0 ∉ s) (hno : colon ∉ s) :
    Decodes s (itimerspecOf s) := by
  intro m str rest hstr
  have hwhole : (s ++ 0 :: []).drop 0 = s ++ 0 :: [] := rfl
  obtain ⟨cut, -, hvalue⟩ := timespecAt_push (m := m) [] [] h
  rw [List.nil_append, List.nil_append, List.length_nil] at hvalue
  have hfree : (m.push (cut ++ 0 :: [])).free (m.fresh 0) = some (m.push []) :=
    Memory.free_push (List.append_ne_nil_of_right_ne_nil _ (List.cons_ne_nil _ _))
  simp only [itimerspecFromStr, Memory.strdup_eq h hstr, Memory.strchr_push_of_not_mem h hwhole hno,
    cutAt, hvalue, hfree, itimerspecOf, splitFirst_of_notMem hno, Option.bind_eq_bind,
    Option.bind_some]
  rfl

/-- The NUL that replaces `:` keeps the search for `/` inside the value. -/
theorem decodes_append {value interval : List UInt8} (h : 0 ∉ value ++ colon :: interval)
    (hno : colon ∉ value) :
    Decodes (value ++ colon :: interval) ⟨timespecOf value, timespecOf interval⟩ := by
  intro m str rest hstr
  have hwhole : ((value ++ colon :: interval) ++ 0 :: []).drop 0 =
      (value ++ colon :: interval) ++ 0 :: [] := rfl
  have hfind := Memory.strchr_push_append (m := m) h hwhole hno
  rw [Nat.zero_add] at hfind
  have hstore : (m.push ((value ++ colon :: interval) ++ 0 :: [])).store (m.fresh value.length) 0 =
      some (m.push (value ++ 0 :: (interval ++ 0 :: []))) := by
    rw [Memory.store_push]
    · simp
    · simp
  have hvalueNul : 0 ∉ value := fun hmem => h (List.mem_append_left _ hmem)
  have hintervalNul : 0 ∉ interval := fun hmem =>
    h (List.mem_append_right _ (List.mem_cons_of_mem _ hmem))
  obtain ⟨cut, hlength, hvalue⟩ := timespecAt_push (m := m) [] (interval ++ 0 :: []) hvalueNul
  rw [List.nil_append, List.nil_append, List.length_nil] at hvalue
  obtain ⟨cut', -, hinterval⟩ := timespecAt_push (m := m) (cut ++ [0]) [] hintervalNul
  rw [List.length_append, hlength, List.append_assoc, List.singleton_append,
    List.length_singleton] at hinterval
  have hfree : (m.push ((cut ++ [0]) ++ (cut' ++ 0 :: []))).free (m.fresh 0) = some (m.push []) :=
    Memory.free_push (List.append_ne_nil_of_right_ne_nil _ (by simp))
  simp only [itimerspecFromStr, Memory.strdup_eq h hstr, hfind, cutAt, hstore, hvalue,
    Memory.fresh_add, hinterval, hfree, Option.bind_eq_bind, Option.bind_some]
  rfl

/-! ## Written timers -/

theorem notMem_decimal {c : UInt8} (hc : isDigit c = false) (n : ℕ) : c ∉ decimal n := by
  intro hmem
  rw [digits_decimal n c hmem] at hc
  cases hc

theorem timespecOf_decimal {sec : ℕ} (h : sec < 2147483648) :
    timespecOf (decimal sec) = ⟨.ofNat sec, 0⟩ := by
  rw [timespecOf, splitFirst_of_notMem (notMem_decimal (by decide) sec), atoi_decimal h]
  rfl

theorem timespecOf_decimal_slash {sec nsec : ℕ} (h : sec < 2147483648) (h' : nsec < 2147483648) :
    timespecOf (decimal sec ++ slash :: decimal nsec) = ⟨.ofNat sec, .ofNat nsec⟩ := by
  rw [timespecOf, splitFirst_append (notMem_decimal (by decide) sec), atoi_decimal h,
    Option.map_some, Option.getD_some, atoi_decimal h']

/-- A written part holds digits and `/` only. -/
theorem notMem_decimal_slash {c : UInt8} (hc : isDigit c = false) (hne : c ≠ slash)
    (sec nsec : ℕ) : c ∉ decimal sec ++ slash :: decimal nsec := by
  rw [List.mem_append, List.mem_cons]
  rintro (hmem | hslash | hmem)
  · exact notMem_decimal hc sec hmem
  · exact hne hslash
  · exact notMem_decimal hc nsec hmem

theorem decodes_value {value : List UInt8} {time : Timespec} (h : 0 ∉ value) (hno : colon ∉ value)
    (htime : timespecOf value = time) : Decodes value ⟨time, ⟨0, 0⟩⟩ := by
  have hdecodes := decodes_of_notMem h hno
  rw [itimerspecOf, splitFirst_of_notMem hno, htime] at hdecodes
  exact hdecodes

theorem decodes_value_interval {value interval : List UInt8} {time period : Timespec}
    (h : 0 ∉ value) (hno : colon ∉ value) (h' : 0 ∉ interval) (htime : timespecOf value = time)
    (hperiod : timespecOf interval = period) :
    Decodes (value ++ colon :: interval) ⟨time, period⟩ := by
  rw [← htime, ← hperiod]
  apply decodes_append _ hno
  rw [List.mem_append, List.mem_cons]
  rintro (hmem | hcolon | hmem)
  · exact h hmem
  · exact absurd hcolon (by decide)
  · exact h' hmem

/-- Every string is decoded as it is split, and the six ways to write a timer give back the
numbers written. -/
theorem itimerspecFromStr_decodes :
    (∀ s : List UInt8, 0 ∉ s → Decodes s (itimerspecOf s)) ∧
      ∀ a b c d : ℕ, a < 2147483648 → b < 2147483648 → c < 2147483648 → d < 2147483648 →
        Decodes (decimal a) ⟨⟨.ofNat a, 0⟩, ⟨0, 0⟩⟩ ∧
        Decodes (decimal a ++ slash :: decimal b) ⟨⟨.ofNat a, .ofNat b⟩, ⟨0, 0⟩⟩ ∧
        Decodes (decimal a ++ colon :: decimal c) ⟨⟨.ofNat a, 0⟩, ⟨.ofNat c, 0⟩⟩ ∧
        Decodes ((decimal a ++ slash :: decimal b) ++ colon :: decimal c)
          ⟨⟨.ofNat a, .ofNat b⟩, ⟨.ofNat c, 0⟩⟩ ∧
        Decodes (decimal a ++ colon :: (decimal c ++ slash :: decimal d))
          ⟨⟨.ofNat a, 0⟩, ⟨.ofNat c, .ofNat d⟩⟩ ∧
        Decodes ((decimal a ++ slash :: decimal b) ++ colon :: (decimal c ++ slash :: decimal d))
          ⟨⟨.ofNat a, .ofNat b⟩, ⟨.ofNat c, .ofNat d⟩⟩ := by
  constructor
  · intro s h
    rcases splitFirst_cases colon s with ⟨hno, -⟩ | ⟨value, interval, hno, rfl, hsplit⟩
    · exact decodes_of_notMem h hno
    · rw [itimerspecOf, hsplit]
      exact decodes_append h hno
  · intro a b c d ha hb hc hd
    have hnul (n : ℕ) : 0 ∉ decimal n := notMem_decimal (by decide) n
    have hcolon (n : ℕ) : colon ∉ decimal n := notMem_decimal (by decide) n
    have hnul' (n k : ℕ) : 0 ∉ decimal n ++ slash :: decimal k :=
      notMem_decimal_slash (by decide) (by decide) n k
    have hcolon' (n k : ℕ) : colon ∉ decimal n ++ slash :: decimal k :=
      notMem_decimal_slash (by decide) (by decide) n k
    have htime := timespecOf_decimal ha
    have htime' := timespecOf_decimal_slash ha hb
    have hperiod := timespecOf_decimal hc
    have hperiod' := timespecOf_decimal_slash hc hd
    refine ⟨?_, ?_, ?_, ?_, ?_, ?_⟩
    · exact decodes_value (hnul a) (hcolon a) htime
    · exact decodes_value (hnul' a b) (hcolon' a b) htime'
    · exact decodes_value_interval (hnul a) (hcolon a) (hnul c) htime hperiod
    · exact decodes_value_interval (hnul' a b) (hcolon' a b) (hnul c) htime' hperiod
    · exact decodes_value_interval (hnul a) (hcolon a) (hnul' c d) htime hperiod'
    · exact decodes_value_interval (hnul' a b) (hcolon' a b) (hnul' c d) htime' hperiod'

/-- `1/2:3`, whose copy is freed in the end. -/
theorem itimerspecFromStr_decodes_freed :
    itimerspecFromStr true ⟨[[49, 47, 50, 58, 51, 0]]⟩ ⟨0, 0⟩ =
      some (⟨⟨1, 2⟩, ⟨3, 0⟩⟩, ⟨[[49, 47, 50, 58, 51, 0], []]⟩) :=
  itimerspecFromStr_decodes.1 [49, 47, 50, 58, 51] (by decide) ⟨[[49, 47, 50, 58, 51, 0]]⟩ ⟨0, 0⟩
    [] rfl

end LinuxTemplates.TimerfdProgram
