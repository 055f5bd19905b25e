import LinuxTemplates.TimerfdSystem
import Mathlib.Algebra.Order.BigOperators.Group.List

/-!
# What the loop of `timerfd.cpp` has counted

The sum of the counts read and of the expirations not yet read is what the schedule of the
timer says. The states between two turns are those of the loop on the counts read so far.
-/

namespace LinuxTemplates.TimerfdSystem
open TransitionSystems IntervalTimers CMemory DecimalStrings TimerfdProgram

variable {env : Env} {s s' : State}

/-! ## The arguments -/

theorem bytes_argv {i : ℕ} {arg : List UInt8} (h : env.argv[i]? = some arg) :
    env.memory.bytes ⟨i, 0⟩ = arg ++ 0 :: [] := by
  simp [Env.memory, Memory.bytes, Memory.block, h]

theorem decodes_of_nulFree {str : List UInt8} (h : 0 ∉ str) : Decodes str (itimerspecOf str) := by
  rcases splitFirst_cases colon str with ⟨hno, -⟩ | ⟨value, interval, hno, rfl, hsplit⟩
  · exact decodes_of_notMem h hno
  · rw [itimerspecOf, hsplit]
    exact decodes_append h hno

/-- The timer and the limit of the loop are those of the two arguments. -/
def Parsed (env : Env) (time : Itimerspec) (maxLoop : Int32) : Prop :=
  ∃ timer loops, env.argv[1]? = some timer ∧ env.argv[2]? = some loops ∧
    time = itimerspecOf timer ∧ maxLoop = atoi loops

theorem arguments_parsed (hlen : 3 ≤ env.argv.length) (hmalloc : env.malloc = true) :
    ∃ time maxLoop, arguments env = some (time, maxLoop) ∧ Parsed env time maxLoop := by
  have h1 : env.argv[1]? = some env.argv[1] := List.getElem?_eq_getElem (by omega)
  have h2 : env.argv[2]? = some env.argv[2] := List.getElem?_eq_getElem (by omega)
  have hnul : 0 ∉ env.argv[1] := env.nulFree _ (List.getElem_mem _)
  have hnul' : 0 ∉ env.argv[2] := env.nulFree _ (List.getElem_mem _)
  have hdecodes := decodes_of_nulFree hnul env.memory ⟨1, 0⟩ [] (bytes_argv h1)
  have hblock : 2 < env.memory.blocks.length := by
    rw [Env.memory, List.length_map]
    exact hlen
  have hbytes : (env.memory.push []).bytes ⟨2, 0⟩ = env.argv[2] ++ 0 :: [] := by
    rw [Memory.bytes_push_of_lt hblock, bytes_argv h2]
  have hatoi : atoiAt (env.memory.push []) ⟨2, 0⟩ = some (atoi env.argv[2]) := by
    rw [atoiAt, Memory.string_eq_some hnul' hbytes, Option.map_some]
  refine ⟨_, _, ?_, _, _, h1, h2, rfl, rfl⟩
  simp only [arguments, Env.argvAt, show 1 < env.argv.length by omega,
    show 2 < env.argv.length by omega, if_true, hmalloc, Option.bind_eq_bind, Option.bind_some,
    hdecodes, hatoi]
  rfl

theorem itimerspecFromStr_without (m : Memory) (str : Ptr) :
    itimerspecFromStr false m str = none := by
  cases hstr : m.string str <;> simp [itimerspecFromStr, Memory.strdup, hstr]

theorem arguments_some {time : Itimerspec} {maxLoop : Int32}
    (h : arguments env = some (time, maxLoop)) :
    3 ≤ env.argv.length ∧ env.malloc = true ∧ Parsed env time maxLoop := by
  have hlen : 3 ≤ env.argv.length := by
    by_contra hlt
    rcases Nat.lt_or_ge 1 env.argv.length with h1 | h1
    · simp [arguments, Env.argvAt, show ¬ 2 < env.argv.length by omega] at h
    · simp [arguments, Env.argvAt, show ¬ 1 < env.argv.length by omega] at h
  have hmalloc : env.malloc = true := by
    by_contra hfalse
    rw [Bool.not_eq_true] at hfalse
    simp [arguments, hfalse, itimerspecFromStr_without] at h
  obtain ⟨time', maxLoop', hsome, hparsed⟩ := arguments_parsed hlen hmalloc
  rw [h, Option.some.injEq, Prod.mk.injEq] at hsome
  obtain ⟨rfl, rfl⟩ := hsome
  exact ⟨hlen, hmalloc, hparsed⟩

theorem arguments_none (h : arguments env = none) :
    env.argv.length < 3 ∨ env.malloc = false := by
  by_contra hnot
  rw [not_or, Nat.not_lt, Bool.not_eq_false] at hnot
  obtain ⟨time, maxLoop, hsome, -⟩ := arguments_parsed hnot.1 hnot.2
  rw [hsome] at h
  cases h

/-! ## The invariant -/

/-- The timer was armed as the first argument says. -/
structure Armed (env : Env) (s : State) : Prop where
  parsed : Parsed env s.time s.maxLoop
  value : Valid s.time.itValue
  interval : Valid s.time.itInterval
  delay_eq : (s.schedule.delay : ℤ) = s.time.itValue.nanos
  interval_eq : (s.schedule.interval : ℤ) = s.time.itInterval.nanos

/-- No turn has begun. -/
structure Fresh (s : State) : Prop where
  counts : s.counts = []
  reports : s.reports = []
  totalLoop : s.totalLoop = 0
  error : s.error = none

/-- All counts have been reported. -/
structure Turned (s : State) (status : Status) : Prop where
  length : s.counts.length = s.reports.length
  totalLoop : s.totalLoop = totalAfter 0 s.deliveries
  error : s.error = none
  loop : loop s.start s.maxLoop 0 (s.deliveries.map Delivery.turn) = ⟨s.reports, status⟩

/-- One more count has been read. -/
structure Counted (s : State) (counts : List ℕ) (n : ℕ) : Prop where
  counts_eq : s.counts = counts ++ [n]
  length : counts.length = s.reports.length
  numLoop : s.numLoop = numLoop (UInt64.ofNat n)
  totalLoop : s.totalLoop = totalAfter 0 s.deliveries + s.numLoop
  error : s.error = none
  loop : loop s.start s.maxLoop 0 (s.deliveries.map Delivery.turn) = ⟨s.reports, .blocked⟩

/-- The lines printed so far are those of the loop on the counts that they report. -/
def Lines (s : State) : Prop :=
  (loop s.start s.maxLoop 0 (s.deliveries.map Delivery.turn)).reports = s.reports

def MainOk (env : Env) (s : State) : Prop :=
  match s.main with
  | .arguments => Fresh s
  | .create | .settime => Parsed env s.time s.maxLoop ∧ Fresh s
  | .clockStart => Armed env s ∧ Fresh s
  | .test => Armed env s ∧ Turned s (if s.totalLoop < s.maxLoop then .blocked else .returned 0)
  | .read => Armed env s ∧ Turned s .blocked ∧ s.totalLoop < s.maxLoop
  | .clockNow => Armed env s ∧ ∃ counts n, Counted s counts n
  | .returned ret => (ret = -1 ∧ s.error ≠ none ∧ Lines s) ∨
    (ret = 0 ∧ Armed env s ∧ Turned s (.returned 0) ∧ s.maxLoop ≤ s.totalLoop)
  | .crashed => Fresh s ∧ (env.argv.length < 3 ∨ env.malloc = false)

structure Inv (env : Env) (s : State) : Prop where
  follows : s.timer.Follows s.schedule s.clock s.counts.sum
  pos : ∀ n ∈ s.counts, 0 < n
  total : s.totalLoop.toInt = (s.counts.sum : ℤ).bmod 4294967296
  main : MainOk env s

/-- Steps of the kernel and failures leave all but the timer alone. -/
theorem Turned.frame {status : Status} (h : Turned s status) (hcounts : s'.counts = s.counts)
    (hreports : s'.reports = s.reports) (htotal : s'.totalLoop = s.totalLoop)
    (herror : s'.error = s.error) (hstart : s'.start = s.start) (hmax : s'.maxLoop = s.maxLoop) :
    Turned s' status := by
  have hdeliveries : s'.deliveries = s.deliveries := by
    rw [State.deliveries, State.deliveries, hcounts, hreports]
  exact ⟨by rw [hcounts, hreports, h.length], by rw [htotal, hdeliveries, h.totalLoop],
    by rw [herror, h.error], by rw [hstart, hmax, hdeliveries, hreports, h.loop]⟩

theorem Fresh.frame (h : Fresh s) (hcounts : s'.counts = s.counts)
    (hreports : s'.reports = s.reports) (htotal : s'.totalLoop = s.totalLoop)
    (herror : s'.error = s.error) : Fresh s' :=
  ⟨hcounts ▸ h.counts, hreports ▸ h.reports, htotal ▸ h.totalLoop, herror ▸ h.error⟩

theorem deliveries_nil (h : Fresh s) : s.deliveries = [] := by
  rw [State.deliveries, h.counts, List.zipWith_nil_left]

theorem turned_start (h : Fresh s) :
    Turned s (if s.totalLoop < s.maxLoop then .blocked else .returned 0) := by
  refine ⟨by rw [h.counts, h.reports]; rfl, by rw [deliveries_nil h, h.totalLoop]; rfl, h.error, ?_⟩
  rw [deliveries_nil h, h.reports, h.totalLoop, List.map_nil, loop]

/-- The count that has just been read is not among the deliveries. -/
theorem deliveries_counted {counts : List ℕ} {n : ℕ} (hcounts : s.counts = counts ++ [n])
    (hlength : counts.length = s.reports.length) : s.deliveries =
      List.zipWith (fun n (report : Report) => (UInt64.ofNat n, report.now)) counts s.reports := by
  rw [State.deliveries, hcounts]
  conv_lhs => rw [← List.append_nil s.reports]
  rw [List.zipWith_append hlength, List.zipWith_nil_right, List.append_nil]

theorem Turned.read (h : Turned s .blocked) (n : ℕ) (hcounts : s'.counts = s.counts ++ [n])
    (hreports : s'.reports = s.reports) (hnum : s'.numLoop = numLoop (UInt64.ofNat n))
    (htotal : s'.totalLoop = s.totalLoop + s'.numLoop) (herror : s'.error = s.error)
    (hstart : s'.start = s.start) (hmax : s'.maxLoop = s.maxLoop) : Counted s' s.counts n := by
  have hlength : s.counts.length = s'.reports.length := by rw [h.length, hreports]
  have hdeliveries : s'.deliveries = s.deliveries := by
    rw [deliveries_counted hcounts hlength, hreports, State.deliveries]
  exact ⟨hcounts, hlength, hnum, by rw [htotal, hdeliveries, h.totalLoop],
    by rw [herror, h.error], by rw [hstart, hmax, hdeliveries, hreports, h.loop]⟩

theorem Counted.report {counts : List ℕ} {n : ℕ} (h : Counted s counts n) (now : Timespec)
    (hcounts : s'.counts = s.counts) (hreports : s'.reports = s.reports ++ [⟨now,
      elapsed s.start now, unsignedLongLong s.numLoop, unsignedLongLong s.totalLoop⟩])
    (htotal : s'.totalLoop = s.totalLoop) (herror : s'.error = s.error)
    (hstart : s'.start = s.start) (hmax : s'.maxLoop = s.maxLoop) :
    Turned s' (if s'.totalLoop < s'.maxLoop then .blocked else .returned 0) := by
  have hdeliveries : s'.deliveries = s.deliveries ++ [(UInt64.ofNat n, now)] := by
    rw [deliveries_counted h.counts_eq h.length, State.deliveries, hcounts, h.counts_eq, hreports,
      List.zipWith_append h.length]
    rfl
  have hafter : s'.totalLoop = totalAfter 0 s'.deliveries := by
    rw [htotal, hdeliveries, totalAfter_append, h.totalLoop, h.numLoop]
  refine ⟨?_, hafter, by rw [herror, h.error], ?_⟩
  · rw [hcounts, hreports, h.counts_eq, List.length_append, List.length_append, h.length]
    rfl
  · rw [hstart, hmax, hdeliveries, loop_append _ h.loop, ← hdeliveries, ← hafter, htotal, hreports,
      h.numLoop]

theorem Fresh.lines (h : Fresh s) : Lines s := by
  rw [Lines, deliveries_nil h, h.reports, List.map_nil, TimerfdProgram.loop]

theorem Turned.lines {status : Status} (h : Turned s status) : Lines s := by
  rw [Lines, h.loop]

theorem Counted.lines {counts : List ℕ} {n : ℕ} (h : Counted s counts n) : Lines s := by
  rw [Lines, h.loop]

theorem MainOk.lines (h : MainOk env s) : Lines s := by
  rw [MainOk] at h
  cases hp : s.main <;> simp only [hp] at h
  case arguments => exact h.lines
  case create | settime | clockStart => exact h.2.lines
  case test => exact h.2.lines
  case read => exact h.2.1.lines
  case clockNow =>
    obtain ⟨-, counts, n, hcounted⟩ := h
    exact hcounted.lines
  case returned =>
    rcases h with ⟨-, -, hlines⟩ | ⟨-, -, hturned, -⟩
    · exact hlines
    · exact hturned.lines
  case crashed => exact h.1.lines

/-! ## One step -/

theorem nanos_nonneg {t : Timespec} (h : Valid t) : 0 ≤ t.nanos := by
  have hsec := h.1
  have hnsec := h.2.1
  rw [Timespec.nanos]
  omega

/-- The low half of a count is added modulo 2^32. -/
theorem total_read {total : Int32} {sum n : ℕ} (h : total.toInt = (sum : ℤ).bmod 4294967296) :
    (total + numLoop (UInt64.ofNat n)).toInt = ((sum + n : ℕ) : ℤ).bmod 4294967296 := by
  rw [toInt_add_numLoop, h, UInt64.toNat_ofNat', Int.bmod_add_bmod]
  push_cast
  rw [Int.bmod_eq_bmod_iff_bmod_sub_eq_zero]
  have hdvd : (4294967296 : ℤ) ∣ (n : ℤ) % 18446744073709551616 - n := by omega
  obtain ⟨k, hk⟩ := hdvd
  have hsub : (sum : ℤ) + n % 18446744073709551616 - (sum + n) = 4294967296 * k := by omega
  rw [hsub, Int.bmod_eq_zero_of_dvd]
  exact Dvd.intro k rfl

theorem Armed.frame (h : Armed env s) (htime : s'.time = s.time) (hmax : s'.maxLoop = s.maxLoop)
    (hschedule : s'.schedule = s.schedule) : Armed env s' :=
  ⟨by rw [htime, hmax]; exact h.parsed, by rw [htime]; exact h.value, by rw [htime]; exact h.interval,
    by rw [hschedule, htime]; exact h.delay_eq, by rw [hschedule, htime]; exact h.interval_eq⟩

/-- A call that fails ends the run, and the lines stay as they are. -/
theorem mainOk_fail (message : String) (h : MainOk env s) : MainOk env (s.fail message) :=
  .inl ⟨rfl, Option.some_ne_none _, h.lines⟩

theorem main_inv (h : Inv env s) (hs : main env s = some s') : Inv env s' := by
  have hmain := h.main
  cases hp : s.main with
  | arguments =>
    simp only [MainOk, hp] at hmain
    simp only [main, hp] at hs
    cases harg : arguments env with
    | none =>
      simp only [harg, Option.some.injEq] at hs
      subst hs
      exact ⟨h.follows, h.pos, h.total, hmain.frame rfl rfl rfl rfl, arguments_none harg⟩
    | some parsed =>
      simp only [harg, Option.some.injEq] at hs
      subst hs
      exact ⟨h.follows, h.pos, h.total, (arguments_some harg).2.2, hmain.frame rfl rfl rfl rfl⟩
  | create =>
    simp only [MainOk, hp] at hmain
    simp only [main, hp, Option.some.injEq] at hs
    subst hs
    exact ⟨h.follows, h.pos, h.total, hmain.1, hmain.2.frame rfl rfl rfl rfl⟩
  | settime =>
    simp only [MainOk, hp] at hmain
    simp only [main, hp] at hs
    obtain ⟨hparsed, hfresh⟩ := hmain
    split at hs
    · rename_i hvalid
      obtain rfl := Option.some.inj hs
      refine ⟨?_, h.pos, h.total, ⟨hparsed, hvalid.1, hvalid.2, ?_, ?_⟩,
        hfresh.frame rfl rfl rfl rfl⟩
      · simp only [hfresh.counts, List.sum_nil]
        exact Timer.follows_arm _ _ _
      · exact Int.toNat_of_nonneg (nanos_nonneg hvalid.1)
      · exact Int.toNat_of_nonneg (nanos_nonneg hvalid.2)
    · obtain rfl := Option.some.inj hs
      exact ⟨h.follows, h.pos, h.total, mainOk_fail _ h.main⟩
  | clockStart =>
    simp only [MainOk, hp] at hmain
    simp only [main, hp, Option.some.injEq] at hs
    subst hs
    exact ⟨h.follows, h.pos, h.total, hmain.1.frame rfl rfl rfl,
      turned_start (hmain.2.frame rfl rfl rfl rfl)⟩
  | test =>
    simp only [MainOk, hp] at hmain
    simp only [main, hp, Option.some.injEq] at hs
    subst hs
    obtain ⟨harmed, hturned⟩ := hmain
    refine ⟨h.follows, h.pos, h.total, ?_⟩
    by_cases hlt : s.totalLoop < s.maxLoop
    · rw [if_pos hlt] at hturned
      simp only [MainOk, if_pos hlt]
      exact ⟨harmed.frame rfl rfl rfl, hturned.frame rfl rfl rfl rfl rfl rfl, hlt⟩
    · rw [if_neg hlt] at hturned
      simp only [MainOk, if_neg hlt]
      exact .inr ⟨trivial, harmed.frame rfl rfl rfl, hturned.frame rfl rfl rfl rfl rfl rfl,
        Int32.not_lt.mp hlt⟩
  | read =>
    simp only [MainOk, hp] at hmain
    simp only [main, hp, Option.ite_none_left_eq_some, Option.some.injEq] at hs
    obtain ⟨hticks, rfl⟩ := hs
    obtain ⟨harmed, hturned, -⟩ := hmain
    refine ⟨?_, fun n hn => ?_, ?_, harmed.frame rfl rfl rfl, s.counts, s.timer.ticks,
      hturned.read _ rfl rfl rfl rfl rfl rfl rfl⟩
    · simp only [List.sum_append, List.sum_singleton]
      exact h.follows.take
    · rcases List.mem_append.mp hn with hn | hn
      · exact h.pos n hn
      · exact (List.mem_singleton.mp hn) ▸ Nat.pos_of_ne_zero hticks
    · simp only [List.sum_append, List.sum_singleton]
      exact total_read h.total
  | clockNow =>
    simp only [MainOk, hp] at hmain
    simp only [main, hp, Option.some.injEq] at hs
    subst hs
    obtain ⟨harmed, counts, n, hcounted⟩ := hmain
    exact ⟨h.follows, h.pos, h.total, harmed.frame rfl rfl rfl,
      hcounted.report _ rfl rfl rfl rfl rfl rfl⟩
  | returned ret | crashed =>
    simp only [main, hp] at hs
    cases hs

/-- What the kernel does between two steps of `main`. -/
theorem MainOk.frame (h : MainOk env s) (hmain : s'.main = s.main) (htime : s'.time = s.time)
    (hmax : s'.maxLoop = s.maxLoop) (hstart : s'.start = s.start) (hnum : s'.numLoop = s.numLoop)
    (htotal : s'.totalLoop = s.totalLoop) (hreports : s'.reports = s.reports)
    (herror : s'.error = s.error) (hschedule : s'.schedule = s.schedule)
    (hcounts : s'.counts = s.counts) : MainOk env s' := by
  have hfresh (hf : Fresh s) : Fresh s' := hf.frame hcounts hreports htotal herror
  have harmed (ha : Armed env s) : Armed env s' := ha.frame htime hmax hschedule
  have hturned {status : Status} (ht : Turned s status) : Turned s' status :=
    ht.frame hcounts hreports htotal herror hstart hmax
  have hdeliveries : s'.deliveries = s.deliveries := by
    rw [State.deliveries, State.deliveries, hcounts, hreports]
  unfold MainOk at h ⊢
  cases hp : s.main <;> simp only [hp, hmain] at h ⊢
  case arguments => exact hfresh h
  case create | settime => exact ⟨by rw [htime, hmax]; exact h.1, hfresh h.2⟩
  case clockStart => exact ⟨harmed h.1, hfresh h.2⟩
  case test => exact ⟨harmed h.1, by rw [htotal, hmax]; exact hturned h.2⟩
  case read => exact ⟨harmed h.1, hturned h.2.1, by rw [htotal, hmax]; exact h.2.2⟩
  case clockNow =>
    obtain ⟨ha, counts, n, hc⟩ := h
    exact ⟨harmed ha, counts, n, hcounts ▸ hc.counts_eq, hreports ▸ hc.length,
      hnum ▸ hc.numLoop, by rw [htotal, hnum, hdeliveries, hc.totalLoop], herror ▸ hc.error,
      by rw [hstart, hmax, hdeliveries, hreports, hc.loop]⟩
  case returned ret =>
    rcases h with ⟨hret, hne, hlines⟩ | ⟨hret, ha, ht, hle⟩
    · exact .inl ⟨hret, herror ▸ hne, by rw [Lines, hstart, hmax, hdeliveries, hreports, hlines]⟩
    · exact .inr ⟨hret, harmed ha, hturned ht, by rw [hmax, htotal]; exact hle⟩
  case crashed => exact ⟨hfresh h.1, h.2⟩

theorem inv_invariant (env : Env) : (program env).Invariant (Inv env) where
  init s := by
    rintro rfl
    refine ⟨⟨rfl, rfl, Nat.zero_le _, fun i hi => ?_⟩, fun n hn => ?_, ?_, rfl, rfl, rfl, rfl⟩
    · cases hi
    · cases hn
    · exact Int.zero_bmod.symm
  step s a s' h hs := by
    cases a with
    | main => exact main_inv h hs
    | fails =>
      simp only [program, step, fails] at hs
      cases hp : s.main <;> simp only [hp, Option.some.injEq, reduceCtorEq] at hs
      all_goals exact hs ▸ ⟨h.follows, h.pos, h.total, mainOk_fail _ h.main⟩
    | tick d =>
      simp only [program, step, tick, Option.ite_none_right_eq_some, Option.some.injEq] at hs
      obtain ⟨⟨-, hallows⟩, rfl⟩ := hs
      exact ⟨h.follows.pass (Nat.le_add_right _ _) hallows, h.pos, h.total,
        h.main.frame rfl rfl rfl rfl rfl rfl rfl rfl rfl rfl⟩
    | expire =>
      simp only [program, step, expire, Option.map_eq_some_iff] at hs
      obtain ⟨t, ht, rfl⟩ := hs
      exact ⟨h.follows.expire ht, h.pos, h.total, h.main.frame rfl rfl rfl rfl rfl rfl rfl rfl rfl rfl⟩

theorem inv_of_reachable (h : (program env).Reachable s) : Inv env s := (inv_invariant env).reachable h

/-! ## Whole runs -/

theorem deliveries_counts (hlength : s.counts.length = s.reports.length)
    (hsum : s.counts.sum < 2147483648) :
    s.deliveries.map (fun d => d.1.toNat) = s.counts := by
  have hword : ∀ n ∈ s.counts, (UInt64.ofNat n).toNat = n := by
    intro n hn
    have hle := List.le_sum_of_mem hn
    rw [UInt64.toNat_ofNat', Nat.mod_eq_of_lt]
    omega
  rw [State.deliveries, List.map_zipWith]
  refine List.ext_getElem (by simp [hlength]) fun i hi hi' => ?_
  rw [List.getElem_zipWith]
  exact hword _ (List.getElem_mem hi')

theorem fits_of_sum {maxLoop : Int32} {ds : List Delivery}
    (h : (ds.map (fun d => d.1.toNat)).sum < 2147483648) : Fits maxLoop 0 ds := by
  intro i _ _
  have hsplit := List.sum_take_add_sum_drop (ds.map (fun d => d.1.toNat)) (i + 1)
  rw [exactTotal, List.map_take, Nat.zero_add]
  omega

/-- `total_loop` is never ahead of the timer. -/
theorem Inv.total_le (h : Inv env s) : s.totalLoop.toInt ≤ s.counts.sum := by
  rw [h.total, Int.bmod_def]
  split <;> omega

theorem Inv.turned {status : Status} (h : Inv env s) (hs : s.status = some status) :
    Armed env s ∧ Turned s status := by
  have hmain := h.main
  rw [State.status] at hs
  cases hp : s.main <;> simp only [MainOk, hp, Option.some.injEq, reduceCtorEq] at hmain hs
  case test => exact hs ▸ hmain
  case read => exact hs ▸ ⟨hmain.1, hmain.2.1⟩
  case returned ret =>
    rw [Option.ite_none_right_eq_some, Option.some.injEq] at hs
    obtain ⟨rfl, rfl⟩ := hs
    rcases hmain with ⟨hret, -⟩ | ⟨-, harmed, hturned, -⟩
    · cases hret
    · exact ⟨harmed, hturned⟩

/-- `main` returns 0 without an error and with its limit reached, and else -1 with an error. -/
theorem Inv.returned {ret : ℤ} (h : Inv env s) (hp : s.main = .returned ret) :
    (ret = 0 ∧ s.error = none ∧ s.maxLoop.toInt ≤ s.schedule.count s.clock) ∨
      (ret = -1 ∧ s.error ≠ none) := by
  have hmain := h.main
  rw [MainOk, hp] at hmain
  rcases hmain with ⟨hret, hne, -⟩ | ⟨hret, -, hturned, hle⟩
  · exact .inr ⟨hret, hne⟩
  · have hmax := Int32.le_iff_toInt_le.mp hle
    have htotal := h.total_le
    have hfired := h.follows.fired
    exact .inl ⟨hret, hturned.error, by omega⟩

/-- In every run no expiration is counted twice or ahead of its instant, and none is missed. The
lines printed are those of the loop on the counts, and they are exact as long as fewer than 2^31
expirations have been read. `main` returns 0 only when no call has failed and `max_loop`
expirations are due, and else -1 behind the line about the call that failed; it crashes only
without its arguments or without memory for the copy. -/
theorem expirations_counted (h : (program env).Reachable s) :
    s.counts.sum + s.timer.ticks ≤ s.schedule.count s.clock ∧
    (s.timer.expire s.clock = none →
      s.counts.sum + s.timer.ticks = s.schedule.count s.clock) ∧
    (loop s.start s.maxLoop 0 (s.deliveries.map Delivery.turn)).reports = s.reports ∧
    (∀ status, s.status = some status → Armed env s ∧
      loop s.start s.maxLoop 0 (s.deliveries.map Delivery.turn) = ⟨s.reports, status⟩ ∧
      (s.counts.sum < 2147483648 → s.deliveries.map (fun d => d.1.toNat) = s.counts ∧
        Output.Exact ⟨s.reports, status⟩ s.maxLoop 0 s.deliveries)) ∧
    (∀ ret, s.main = .returned ret →
      (ret = 0 ∧ s.error = none ∧ s.maxLoop.toInt ≤ s.schedule.count s.clock) ∨
        (ret = -1 ∧ s.error ≠ none)) ∧
    (s.main = .crashed → env.argv.length < 3 ∨ env.malloc = false) := by
  have hi := inv_of_reachable h
  have hmain := hi.main
  refine ⟨hi.follows.fired, hi.follows.settled, hmain.lines, fun status hs => ?_,
    fun ret hp => hi.returned hp, fun hp => ?_⟩
  · obtain ⟨harmed, hturned⟩ := hi.turned hs
    refine ⟨harmed, hturned.loop, fun hsum => ?_⟩
    have hcounts := deliveries_counts hturned.length hsum
    refine ⟨hcounts, ?_⟩
    rw [← hturned.loop]
    exact (loop_exact_from rfl).mpr (fits_of_sum (by rw [hcounts]; exact hsum))
  · rw [MainOk, hp] at hmain
    exact hmain.2

section Demo

/-- `timerfd 1:1 3` -/
def demoEnv : Env :=
  ⟨[[116, 105, 109, 101, 114, 102, 100], [49, 58, 49], [51]], true, 5, by decide⟩

/-- The second read comes late and is told two expirations. -/
def lateSchedule : List Action :=
  List.replicate 5 .main ++ [.tick 1000000000, .expire, .main, .main, .main, .tick 1000000000,
    .expire, .tick 1000000000, .expire, .main, .main, .main]

def lateEnd : State := (program demoEnv).after (start demoEnv) lateSchedule (by decide)

theorem run_late : (program demoEnv).run (start demoEnv) lateSchedule = some lateEnd :=
  (program demoEnv).run_after (by decide)

theorem expirations_counted_late :
    lateEnd.reports.map Report.total = [1, 3] ∧ 3 ≤ lateEnd.schedule.count lateEnd.clock := by
  obtain ⟨-, -, -, -, hreturned, -⟩ :=
    expirations_counted ((System.Reachable.init rfl).run run_late)
  rcases hreturned 0 (by decide) with ⟨-, -, hdue⟩ | ⟨hret, -⟩
  · exact ⟨by decide, Int.ofNat_le.mp hdue⟩
  · cases hret

end Demo

end LinuxTemplates.TimerfdSystem
