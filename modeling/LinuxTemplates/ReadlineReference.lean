import LinuxTemplates.ReadlineFraming

/-!
# `Readline` and its reference

For any outcomes of its reads a call delivers the bytes up to the first newline, end of
file or failure, cut to its buffer. The number it returns counts the bytes it kept, not
the bytes it read.
-/

namespace LinuxTemplates.ReadlineProgram
open DelimitedStreams

/-- The outcome is an end of file or a failure that is not an interruption. -/
def ReadOutcome.closes : ReadOutcome → Bool
  | .data _ => false
  | .fail errno => errno != EINTR
  | .eof => true

/-- The bytes before the first end of file or failure, cut after the first newline. -/
def delivered (os : List ReadOutcome) : List UInt8 :=
  through isNewline (bytes (os.takeWhile (fun o => !o.closes)))

/-- The outcomes that a call takes, the one that ends it included. -/
def consumed (os : List ReadOutcome) : List ReadOutcome := through ReadOutcome.ends os

/-! ## The outcome that ends a call -/

section Ending
variable {pre : List ReadOutcome} {o : ReadOutcome}

theorem newline_notMem_bytes (h : ∀ x ∈ pre, x.ends = false) : newline ∉ bytes pre := by
  intro hmem
  obtain ⟨x, hx, hb⟩ := List.mem_filterMap.mp hmem
  cases x with
  | data ch =>
    obtain rfl : ch = newline := Option.some.inj hb
    have he := h _ hx
    simp [ReadOutcome.ends] at he
  | fail errno => cases hb
  | eof => cases hb

theorem isNewline_bytes (h : ∀ x ∈ pre, x.ends = false) : ∀ b ∈ bytes pre, isNewline b = false := by
  intro b hb
  have hne : b ≠ newline := fun heq => newline_notMem_bytes h (heq ▸ hb)
  simpa [isNewline] using hne

theorem closes_of_not_ends (h : ∀ x ∈ pre, x.ends = false) : ∀ x ∈ pre, x.closes = false := by
  intro x hx
  have he := h x hx
  cases x with
  | data ch => rfl
  | fail errno => simpa [ReadOutcome.ends, ReadOutcome.closes] using he
  | eof => simp [ReadOutcome.ends] at he

theorem takeWhile_not_closes (h : ∀ x ∈ pre, x.ends = false) (rest : List ReadOutcome) :
    (pre ++ rest).takeWhile (fun o => !o.closes) = pre ++ rest.takeWhile (fun o => !o.closes) := by
  apply List.takeWhile_append_of_pos
  intro x hx
  simp [closes_of_not_ends h x hx]

theorem delivered_of_not_ends (h : ∀ x ∈ pre, x.ends = false) : delivered pre = bytes pre := by
  have htake := takeWhile_not_closes h []
  simp only [List.append_nil, List.takeWhile_nil] at htake
  rw [delivered, htake, through_of_forall (isNewline_bytes h)]

/-- What is delivered does not depend on the outcomes after the one that ends the call. -/
theorem delivered_of_ends (h : ∀ x ∈ pre, x.ends = false) (ho : o.ends = true)
    (rest : List ReadOutcome) :
    delivered (pre ++ o :: rest) = bytes (pre ++ [o]) := by
  rw [delivered, takeWhile_not_closes h, bytes_append, through_append (isNewline_bytes h),
    bytes_append]
  congr 1
  cases o with
  | data ch =>
    obtain rfl : ch = newline := by simpa [ReadOutcome.ends] using ho
    simp [ReadOutcome.closes, bytes, ReadOutcome.byte, through, isNewline]
  | fail errno =>
    have hc : errno ≠ EINTR := by simpa [ReadOutcome.ends] using ho
    simp [ReadOutcome.closes, hc, bytes, ReadOutcome.byte, through]
  | eof => simp [ReadOutcome.closes, bytes, ReadOutcome.byte, through]

theorem consumed_of_ends (h : ∀ x ∈ pre, x.ends = false) (ho : o.ends = true)
    (rest : List ReadOutcome) :
    consumed (pre ++ o :: rest) = pre ++ [o] := by
  rw [consumed, through_append h]
  simp [through, ho]

theorem find?_closes (h : ∀ x ∈ pre, x.ends = false) (ho : o.closes = true)
    (rest : List ReadOutcome) :
    (pre ++ o :: rest).find? ReadOutcome.closes = some o := by
  have hnone : pre.find? ReadOutcome.closes = none :=
    List.find?_eq_none.mpr (fun x hx => by simp [closes_of_not_ends h x hx])
  rw [List.find?_append, hnone]
  simp [ho]

end Ending

/-! ## The number returned -/

/-- A `size_t` returned as a `ssize_t`. -/
def ssize (k : ℕ) : ℤ := (UInt64.ofNat k).toInt64.toInt

theorem ssize_of_le {k : ℕ} (h : k ≤ SSIZE_MAX) : ssize k = k := toInt_toInt64_ofNat h

theorem ssize_of_gt {k : ℕ} (h : SSIZE_MAX < k) (h' : k < 18446744073709551616) :
    ssize k = k - 18446744073709551616 := by
  simp only [SSIZE_MAX] at h
  have hk : (UInt64.ofNat k).toBitVec.toNat = k := by
    rw [UInt64.toNat_toBitVec, UInt64.toNat_ofNat']
    exact Nat.mod_eq_of_lt h'
  change (UInt64.ofNat k).toBitVec.toInt = _
  rw [BitVec.toInt_eq_toNat_cond, hk]
  split <;> omega

theorem ssize_eq_zero_iff {k : ℕ} (h : k < 18446744073709551616) : ssize k = 0 ↔ k = 0 := by
  rcases Nat.lt_or_ge SSIZE_MAX k with hgt | hle
  · rw [ssize_of_gt hgt h]
    omega
  · rw [ssize_of_le hle]
    omega

/-- No count below `SIZE_MAX` looks like an error. -/
theorem ssize_ne_neg_one {k : ℕ} (h : k < 18446744073709551615) : ssize k ≠ -1 := by
  rcases Nat.lt_or_ge SSIZE_MAX k with hgt | hle
  · rw [ssize_of_gt hgt (by omega)]
    omega
  · rw [ssize_of_le hle]
    omega

theorem min_lt_size (len : ℕ) (n : UInt64) : min len (n.toNat - 1) < 18446744073709551615 := by
  have hn := n.toNat_lt
  omega

/-! ## What a call leaves behind -/

theorem delivery_ne_neg_one {n : UInt64} (hn : 2 ≤ n) (b : Buffer) (line : List UInt8) :
    (delivery n b line).ret ≠ -1 := by
  rw [delivery_ret hn]
  exact ssize_ne_neg_one (min_lt_size _ _)

theorem delivery_eq_zero_iff {n : UInt64} (hn : 2 ≤ n) (b : Buffer) (line : List UInt8) :
    (delivery n b line).ret = 0 ↔ line = [] := by
  have h2 : 2 ≤ n.toNat := UInt64.le_iff_toNat_le.mp hn
  have hlt := min_lt_size line.length n
  rw [delivery_ret hn, ← List.length_eq_zero_iff]
  refine (ssize_eq_zero_iff (by omega)).trans ?_
  omega

/-- The cells above the terminator keep their contents. -/
theorem delivery_above {n : UInt64} (hn : 2 ≤ n) (b : Buffer) (line : List UInt8) {i : ℕ}
    (hi : min line.length (n.toNat - 1) < i) :
    (delivery n b line).buffer.cells i = b.cells i := by
  by_cases hl : line = []
  · simp [delivery, hl]
  · have hne : i ≠ min (n.toNat - 1) line.length := by omega
    have hle : (line.take (n.toNat - 1)).length ≤ i := by
      rw [List.length_take]
      omega
    simp [delivery, hl, Locals.finish, Locals.after, Buffer.store, Buffer.fill, toNat_pred hn,
      hne, List.getElem?_eq_none hle]

/-- The result of a call on `fd` as the reference has it, when a count `m` comes back as
`value m`. -/
structure MatchesReference (value : ℕ → ℤ) (n : UInt64) (b : Buffer) (fd : Descriptor)
    (c : Call) : Prop where
  failed : c.ret = -1 ↔
    newline ∉ delivered fd.pending ∧ ∃ e, fd.pending.find? ReadOutcome.closes = some (.fail e)
  empty : c.ret = 0 ↔
    delivered fd.pending = [] ∧ fd.pending.find? ReadOutcome.closes = some .eof
  kept : ¬ (newline ∉ delivered fd.pending ∧
      ∃ e, fd.pending.find? ReadOutcome.closes = some (.fail e)) →
    ¬ (delivered fd.pending = [] ∧ fd.pending.find? ReadOutcome.closes = some .eof) →
    c.ret = value (min (delivered fd.pending).length (n.toNat - 1)) ∧
    ∃ b', c.buffer = some b' ∧
      (List.range (min (delivered fd.pending).length (n.toNat - 1))).map b'.cells =
        (delivered fd.pending).take (n.toNat - 1) ∧
      b'.cells (min (delivered fd.pending).length (n.toNat - 1)) = 0 ∧
      ∀ i, min (delivered fd.pending).length (n.toNat - 1) < i → b'.cells i = b.cells i
  consumed : consumed fd.pending ++ c.fd.pending = fd.pending ∧ c.fd.last = fd.last

theorem readline_of_ends {pre rest : List ReadOutcome} {o : ReadOutcome} (last : ReadOutcome)
    (h : ∀ x ∈ pre, x.ends = false) (ho : o.ends = true) (b : Buffer) (n : UInt64) :
    readline ⟨pre ++ o :: rest, last⟩ (some b) n =
      some ⟨((Locals.after n b (bytes pre)).conclude o).ret,
        some ((Locals.after n b (bytes pre)).conclude o).buffer, ⟨rest, last⟩⟩ := by
  have hneg : ¬ n < 0 := UInt64.not_lt_zero
  simp only [readline, hneg, if_false, ← after_nil n b, readLoop_of_ends h ho, List.nil_append,
    Option.map_some]

section Reference
variable {n : UInt64} {b : Buffer}

/-- A call that met a newline or an end of file. -/
theorem matches_delivery (hn : 2 ≤ n) (fd : Descriptor) {rest : List ReadOutcome}
    (hok : ¬ (newline ∉ delivered fd.pending ∧
      ∃ e, fd.pending.find? ReadOutcome.closes = some (.fail e)))
    (heof : delivered fd.pending = [] → fd.pending.find? ReadOutcome.closes = some .eof)
    (hrest : consumed fd.pending ++ rest = fd.pending) :
    MatchesReference ssize n b fd ⟨(delivery n b (delivered fd.pending)).ret,
      some (delivery n b (delivered fd.pending)).buffer, ⟨rest, fd.last⟩⟩ where
  failed := iff_of_false (delivery_ne_neg_one hn b _) hok
  empty := (delivery_eq_zero_iff hn b _).trans (and_iff_left_of_imp heof).symm
  kept _ hne := by
    have hl : delivered fd.pending ≠ [] := fun hnil => hne ⟨hnil, heof hnil⟩
    exact ⟨delivery_ret hn b _, _, rfl, delivery_contents hn b _, delivery_terminated hn b hl,
      fun i => delivery_above hn b _⟩
  consumed := ⟨hrest, rfl⟩

/-- For every sequence of outcomes with a newline, a failure or an end of file the call
returns what the reference says, its count as a `ssize_t`. -/
theorem readline_reference (hn : 2 ≤ n) (b : Buffer) {fd : Descriptor}
    (h : ∃ o ∈ fd.pending, o.ends = true) :
    ∃ c, readline fd (some b) n = some c ∧ MatchesReference ssize n b fd c ∧
      ∀ k ≤ SSIZE_MAX, ssize k = k := by
  obtain ⟨pending, last⟩ := fd
  rcases split_at_delimiter ReadOutcome.ends pending with hall | ⟨pre, o, rest, rfl, hpre, ho⟩
  · obtain ⟨o, ho, hends⟩ := h
    exact absurd (hall o ho) (by simp [hends])
  refine ⟨_, readline_of_ends last hpre ho b n, ?_, fun k => ssize_of_le⟩
  have hL := delivered_of_ends hpre ho rest
  have hrest : consumed (pre ++ o :: rest) ++ rest = pre ++ o :: rest := by
    rw [consumed_of_ends hpre ho, List.append_assoc, List.singleton_append]
  cases o with
  | data ch =>
    obtain rfl : ch = newline := by simpa [ReadOutcome.ends] using ho
    have hbytes : bytes (pre ++ [.data newline]) = bytes pre ++ [newline] := bytes_append _ _
    rw [conclude_newline, ← hbytes, ← hL]
    refine matches_delivery hn ⟨_, last⟩ ?_ ?_ hrest
    · rintro ⟨hno, -⟩
      simp [hL, hbytes] at hno
    · intro hnil
      simp [hL, hbytes] at hnil
  | eof =>
    have hbytes : bytes (pre ++ [.eof]) = bytes pre := by simp [bytes, ReadOutcome.byte]
    have hfind := find?_closes (o := .eof) hpre rfl rest
    rw [conclude_eof hn, ← hbytes, ← hL]
    refine matches_delivery hn ⟨_, last⟩ ?_ (fun _ => hfind) hrest
    rintro ⟨-, e, he⟩
    cases hfind.symm.trans he
  | fail errno =>
    have hbytes : bytes (pre ++ [.fail errno]) = bytes pre := by simp [bytes, ReadOutcome.byte]
    have hfind := find?_closes (o := .fail errno) hpre ho rest
    have hfail : newline ∉ delivered (pre ++ .fail errno :: rest) ∧
        ∃ e, (pre ++ .fail errno :: rest).find? ReadOutcome.closes = some (.fail e) := by
      refine ⟨?_, errno, hfind⟩
      rw [hL, hbytes]
      exact newline_notMem_bytes hpre
    have hret : (-1 : ℤ) ≠ 0 := by decide
    refine ⟨iff_of_true rfl hfail, iff_of_false hret ?_, fun hno => absurd hfail hno,
      hrest, rfl⟩
    rintro ⟨-, he⟩
    cases hfind.symm.trans he

end Reference

/-- A stream without a newline in which the end of file comes after `k` bytes. -/
def longReads (k : ℕ) : List ReadOutcome := List.replicate k (.data 0) ++ [.eof]

theorem longReads_inner (k : ℕ) : ∀ o ∈ List.replicate k (ReadOutcome.data 0), o.ends = false := by
  intro o ho
  obtain rfl := List.eq_of_mem_replicate ho
  rfl

theorem bytes_replicate (k : ℕ) :
    bytes (List.replicate k (ReadOutcome.data 0)) = List.replicate k 0 :=
  List.filterMap_replicate_of_some (f := ReadOutcome.byte) rfl

theorem delivered_longReads (k : ℕ) : delivered (longReads k) = List.replicate k 0 := by
  rw [longReads, delivered_of_ends (longReads_inner k) rfl, bytes_append, bytes_replicate]
  exact List.append_nil _

/-- A count above `SSIZE_MAX` comes back negative. -/
theorem ret_longReads {k : ℕ} (hk : SSIZE_MAX < k) {n : UInt64} (hn : 2 ≤ n)
    (hkn : k ≤ n.toNat - 1) (b : Buffer) {c : Call}
    (h : readline ⟨longReads k, .eof⟩ (some b) n = some c) : c.ret < 0 := by
  have hlt := n.toNat_lt
  have hcount : min (List.replicate k (0 : UInt8)).length (n.toNat - 1) = k := by
    rw [List.length_replicate]
    omega
  rw [longReads, readline_of_ends .eof (longReads_inner k) rfl, conclude_eof hn,
    bytes_replicate] at h
  obtain rfl := Option.some.inj h
  rw [delivery_ret hn, hcount]
  change ssize k < 0
  rw [ssize_of_gt hk (by omega)]
  omega

/-- With room for more than `SSIZE_MAX` bytes, which no process has, the count itself is not
returned. -/
theorem not_readline_reference :
    (2 : UInt64) ≤ 18446744073709551615 ∧
    (∃ o ∈ longReads 9223372036854775808, o.ends = true) ∧
    ¬ ∃ c, readline ⟨longReads 9223372036854775808, .eof⟩ (some ⟨fun _ => 0, []⟩)
        18446744073709551615 = some c ∧
      MatchesReference (fun m => m) 18446744073709551615 ⟨fun _ => 0, []⟩
        ⟨longReads 9223372036854775808, .eof⟩ c := by
  refine ⟨by decide, ⟨.eof, List.mem_append_right _ (List.mem_singleton_self _), rfl⟩, ?_⟩
  rintro ⟨c, hc, hm⟩
  have hneg := ret_longReads (by decide) (by decide) (by decide) _ hc
  have hL := delivered_longReads 9223372036854775808
  have hkept := (hm.kept ?_ ?_).1
  · rw [hkept] at hneg
    omega
  · rintro ⟨-, e, he⟩
    have hfind := find?_closes (o := .eof) (longReads_inner 9223372036854775808) rfl []
    cases hfind.symm.trans he
  · rintro ⟨hnil, -⟩
    rw [hL, List.replicate_eq_nil_iff] at hnil
    cases hnil

theorem readline_reference_interrupted :
    ∃ c, readline ⟨[.data 97, .fail EINTR, .data 98, .data newline], .eof⟩
        (some ⟨fun _ => 7, []⟩) 3 = some c ∧
      MatchesReference ssize 3 ⟨fun _ => 7, []⟩
        ⟨[.data 97, .fail EINTR, .data 98, .data newline], .eof⟩ c ∧
      ∀ k ≤ SSIZE_MAX, ssize k = k :=
  readline_reference (by decide) _ ⟨.data newline, by simp, rfl⟩

end LinuxTemplates.ReadlineProgram
