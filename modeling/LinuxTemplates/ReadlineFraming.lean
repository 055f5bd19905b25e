import LinuxTemplates.ReadlineProgram

/-!
# Line framing by successive calls of `Readline`

On a stream of newline-terminated lines with a tail, interrupted anywhere, the `i`-th
call delivers the `i`-th line cut to its buffer and moves on to the next line.
-/

namespace LinuxTemplates.ReadlineProgram
open DelimitedStreams

def isNewline (ch : UInt8) : Bool := ch == newline

/-- Bytes and interruptions only. -/
def Interrupted (reads : List ReadOutcome) : Prop :=
  ∀ o ∈ reads, o = .fail EINTR ∨ ∃ ch, o = .data ch

theorem Interrupted.ends_eq {reads : List ReadOutcome} (h : Interrupted reads) :
    ∀ o ∈ reads, o.ends = ((o.byte).map isNewline).getD false := by
  intro o ho
  rcases h o ho with rfl | ⟨ch, rfl⟩ <;> simp [ReadOutcome.ends, ReadOutcome.byte, isNewline]

theorem Interrupted.past {reads : List ReadOutcome} (h : Interrupted reads) :
    Interrupted (past ReadOutcome.ends reads) := by
  intro o ho
  apply h o
  rw [← through_append_past (p := ReadOutcome.ends) reads]
  exact List.mem_append_right _ ho

theorem Interrupted.bytes_past {reads : List ReadOutcome} (h : Interrupted reads) :
    bytes (DelimitedStreams.past ReadOutcome.ends reads) =
      DelimitedStreams.past isNewline (bytes reads) :=
  filterMap_past h.ends_eq

theorem Interrupted.bytes_through {reads : List ReadOutcome} (h : Interrupted reads) :
    bytes (through ReadOutcome.ends reads) = through isNewline (bytes reads) :=
  filterMap_through h.ends_eq

theorem Interrupted.bytes_iterate {reads : List ReadOutcome} (h : Interrupted reads) (k : ℕ) :
    bytes ((DelimitedStreams.past ReadOutcome.ends)^[k] reads) =
      (DelimitedStreams.past isNewline)^[k] (bytes reads) := by
  induction k generalizing reads with
  | zero => rfl
  | succ k ih =>
    rw [Function.iterate_succ_apply, Function.iterate_succ_apply, ih h.past, h.bytes_past]

/-- The call on an interrupted stream: one line, and the rest of the stream. -/
def lineCall (b : Buffer) (n : UInt64) (reads : List ReadOutcome) : Call :=
  let r := delivery n b (through isNewline (bytes reads))
  ⟨r.ret, some r.buffer, ⟨past ReadOutcome.ends reads, .eof⟩⟩

theorem readline_eq_lineCall {reads : List ReadOutcome} (h : Interrupted reads) {n : UInt64}
    (hn : 2 ≤ n) (b : Buffer) :
    readline ⟨reads, .eof⟩ (some b) n = some (lineCall b n reads) := by
  have hneg : ¬ n < 0 := UInt64.not_lt_zero
  simp only [readline, hneg, if_false, lineCall, ← h.bytes_through, ← after_nil n b]
  rcases split_at_delimiter ReadOutcome.ends reads with hall | ⟨os, o, rest, rfl, hos, ho⟩
  · rw [readLoop_of_last hall rfl, through_of_forall hall, past_of_forall hall, List.nil_append,
      conclude_eof hn]
    rfl
  · rw [readLoop_of_ends hos ho, through_append hos, past_append hos]
    obtain ⟨rfl⟩ : o = .data newline := by
      rcases h o (by simp) with rfl | ⟨ch, rfl⟩
      · simp [ReadOutcome.ends] at ho
      · simpa [ReadOutcome.ends] using ho
    simp only [through, past, ho, if_true, bytes_append, List.nil_append, conclude_newline]
    rfl

/-- Calls one after the other on one descriptor, each with its buffer and size. -/
def readlines (fd : Descriptor) : List (Buffer × UInt64) → Option (List Call)
  | [] => some []
  | (b, n) :: calls => (readline fd (some b) n).bind
      fun c => (readlines c.fd calls).map (c :: ·)

theorem readlines_eq {reads : List ReadOutcome} (h : Interrupted reads)
    {calls : List (Buffer × UInt64)} (hn : ∀ c ∈ calls, 2 ≤ c.2) :
    readlines ⟨reads, .eof⟩ calls = some (calls.mapIdx
      fun i c => lineCall c.1 c.2 ((past ReadOutcome.ends)^[i] reads)) := by
  induction calls generalizing reads with
  | nil => rfl
  | cons c calls ih =>
    obtain ⟨b, n⟩ := c
    have hrest := ih h.past (fun c hc => hn c (List.mem_cons_of_mem _ hc))
    rw [readlines, readline_eq_lineCall h (hn (b, n) List.mem_cons_self)]
    simp only [Option.bind_some, lineCall, hrest, Option.map_some, List.mapIdx_cons,
      Function.iterate_zero, id, Function.iterate_succ_apply]

/-! ## What a call delivers -/

def SSIZE_MAX : ℕ := 9223372036854775807

def INT_MAX : ℕ := 2147483647

/-- The call returns the first `min |line| (n - 1)` bytes of the line. -/
structure Delivers (line : List UInt8) (n : UInt64) (c : Call) : Prop where
  ret : c.ret = (UInt64.ofNat (min line.length (n.toNat - 1))).toInt64.toInt
  count : min line.length (n.toNat - 1) ≤ SSIZE_MAX → c.ret = (min line.length (n.toNat - 1) : ℕ)
  contents : ∃ b, c.buffer = some b ∧
    (List.range (min line.length (n.toNat - 1))).map b.cells = line.take (n.toNat - 1)

/-- A `size_t` up to `SSIZE_MAX` is unchanged as a `ssize_t`. -/
theorem toInt_toInt64_ofNat {k : ℕ} (h : k ≤ SSIZE_MAX) :
    (UInt64.ofNat k).toInt64.toInt = k := by
  simp only [SSIZE_MAX] at h
  have hk : (UInt64.ofNat k).toBitVec.toNat = k := by
    rw [UInt64.toNat_toBitVec, UInt64.toNat_ofNat']
    exact Nat.mod_eq_of_lt (by omega)
  change (UInt64.ofNat k).toBitVec.toInt = k
  rw [BitVec.toInt_eq_toNat_of_lt (by omega), hk]

theorem cells_store_fill (b : Buffer) (bs : List UInt8) :
    (List.range bs.length).map ((b.fill bs).store bs.length 0).cells = bs := by
  refine List.ext_getElem (by simp) fun i hi hi' => ?_
  have hne : i ≠ bs.length := Nat.ne_of_lt hi'
  simp [Buffer.store, Buffer.fill, hne, List.getElem?_eq_getElem hi']

theorem delivery_ret {n : UInt64} (hn : 2 ≤ n) (b : Buffer) (line : List UInt8) :
    (delivery n b line).ret = (UInt64.ofNat (min line.length (n.toNat - 1))).toInt64.toInt := by
  by_cases hl : line = []
  · simp [delivery, hl]
  · simp [delivery, hl, Locals.finish, Locals.after, toNat_pred hn, Nat.min_comm]

theorem delivery_count {n : UInt64} (hn : 2 ≤ n) (b : Buffer) {line : List UInt8}
    (hle : min line.length (n.toNat - 1) ≤ SSIZE_MAX) :
    (delivery n b line).ret = (min line.length (n.toNat - 1) : ℕ) :=
  (delivery_ret hn b line).trans (toInt_toInt64_ofNat hle)

theorem delivery_contents {n : UInt64} (hn : 2 ≤ n) (b : Buffer) (line : List UInt8) :
    (List.range (min line.length (n.toNat - 1))).map (delivery n b line).buffer.cells =
      line.take (n.toNat - 1) := by
  by_cases hl : line = []
  · simp [hl]
  · have hcells := cells_store_fill b (line.take (n.toNat - 1))
    simpa [delivery, hl, Locals.finish, Locals.after, toNat_pred hn, Nat.min_comm] using hcells

theorem delivery_terminated {n : UInt64} (hn : 2 ≤ n) (b : Buffer) {line : List UInt8}
    (hl : line ≠ []) :
    (delivery n b line).buffer.cells (min line.length (n.toNat - 1)) = 0 := by
  simp [delivery, hl, Locals.finish, Locals.after, Buffer.store, toNat_pred hn, Nat.min_comm]

theorem delivers_delivery {n : UInt64} (hn : 2 ≤ n) (b : Buffer) (line : List UInt8)
    (fd : Descriptor) :
    Delivers line n ⟨(delivery n b line).ret, some (delivery n b line).buffer, fd⟩ :=
  ⟨delivery_ret hn b line, delivery_count hn b, _, rfl, delivery_contents hn b line⟩

/-- As an `int` the value returned is positive unless the call met the end of file. -/
theorem delivery_le_zero_iff {n : UInt64} (hn : 2 ≤ n) (hmax : n.toNat ≤ INT_MAX) (b : Buffer)
    (line : List UInt8) : Int32.ofInt (delivery n b line).ret ≤ 0 ↔ line = [] := by
  have h2 : 2 ≤ n.toNat := UInt64.le_iff_toNat_le.mp hn
  have hlen : min line.length (n.toNat - 1) ≤ n.toNat - 1 := Nat.min_le_right _ _
  simp only [INT_MAX] at hmax
  rw [delivery_count hn b (by simp only [SSIZE_MAX]; omega), Int32.le_iff_toInt_le,
    Int32.toInt_ofInt_of_le (by omega) (by omega), ← List.length_eq_zero_iff, Int32.toInt_zero]
  omega

/-- The bytes that the return value counts. -/
def Returned.text (r : Returned) : List UInt8 := (List.range r.ret.toNat).map r.buffer.cells

/-- A line cut to a buffer of `n` bytes, as a string. -/
structure Returned.Holds (r : Returned) (line : List UInt8) (n : ℕ) : Prop where
  ret : r.ret = (min line.length (n - 1) : ℕ)
  text : r.text = line.take (n - 1)
  terminated : r.buffer.cells r.ret.toNat = 0

theorem holds_delivery {n : UInt64} (hn : 2 ≤ n) (hmax : n.toNat ≤ INT_MAX) (b : Buffer)
    {line : List UInt8} (hl : line ≠ []) : (delivery n b line).Holds line n.toNat := by
  have hret := @delivery_count n hn b line (by simp only [SSIZE_MAX, INT_MAX] at hmax ⊢; omega)
  refine ⟨hret, ?_, ?_⟩
  · rw [Returned.text, hret, Int.toNat_natCast]
    exact delivery_contents hn b line
  · rw [hret, Int.toNat_natCast]
    exact delivery_terminated hn b hl

/-- Call `i` delivers piece `i` of the text, the lines first and then the tail, and leaves
the descriptor where the next piece starts, whatever the sizes of the buffers were. -/
theorem readline_framing (t : Text isNewline) {reads : List ReadOutcome}
    (h : Interrupted reads) (hb : bytes reads = t.stream) {calls : List (Buffer × UInt64)}
    (hn : ∀ c ∈ calls, 2 ≤ c.2) :
    ∃ results, readlines ⟨reads, .eof⟩ calls = some results ∧ results.length = calls.length ∧
      ∀ i b n c, calls[i]? = some (b, n) → results[i]? = some c →
        Delivers (t.pieces.getD i []) n c ∧
        c.fd = ⟨(past ReadOutcome.ends)^[i + 1] reads, .eof⟩ ∧
        bytes c.fd.pending = (t.pieces.drop (i + 1)).flatten := by
  refine ⟨_, readlines_eq h hn, List.length_mapIdx, ?_⟩
  intro i b n c hcall hres
  have hcut := cut_iterate t
  have hbytes : ∀ k, bytes ((past ReadOutcome.ends)^[k] reads) =
      (past isNewline)^[k] t.stream := by
    intro k
    rw [← hb]
    exact h.bytes_iterate k
  simp only [List.getElem?_mapIdx, hcall, Option.map_some, Option.some.injEq] at hres
  subst hres
  refine ⟨?_, ?_, ?_⟩
  · have hline := (hcut i).1
    rw [← hbytes] at hline
    rw [← hline]
    exact delivers_delivery (hn (b, n) (List.mem_of_getElem? hcall)) b _ _
  · rw [lineCall, Function.iterate_succ_apply']
  · have hrest := (hcut (i + 1)).2
    rw [← hbytes, Function.iterate_succ_apply'] at hrest
    exact hrest

/-- Two lines, of which the first does not fit into two bytes, and a tail. -/
def cutText : Text isNewline :=
  ⟨[⟨[97, 98], newline, by simp [isNewline, newline], rfl⟩, ⟨[], newline, by simp, rfl⟩], [99],
    by simp [isNewline, newline]⟩

def cutReads : List ReadOutcome :=
  [.data 97, .data 98, .data newline, .fail EINTR, .data newline, .data 99]

def cutCalls : List (Buffer × UInt64) :=
  [(⟨fun _ => 0, []⟩, 2), (⟨fun _ => 0, []⟩, 2), (⟨fun _ => 0, []⟩, 30), (⟨fun _ => 0, []⟩, 2)]

theorem readline_framing_cut :
    ∃ results, readlines ⟨cutReads, .eof⟩ cutCalls = some results ∧
      results.length = cutCalls.length ∧
      ∀ i b n c, cutCalls[i]? = some (b, n) → results[i]? = some c →
        Delivers (cutText.pieces.getD i []) n c ∧
        c.fd = ⟨(past ReadOutcome.ends)^[i + 1] cutReads, .eof⟩ ∧
        bytes c.fd.pending = (cutText.pieces.drop (i + 1)).flatten :=
  readline_framing cutText (by simp [Interrupted, cutReads]) rfl (by decide)

end LinuxTemplates.ReadlineProgram
