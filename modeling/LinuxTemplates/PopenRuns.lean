import LinuxTemplates.PopenProgram

/-!
# What `popen.cpp` prints

`fgets` ends with a line, with a full array or at end of file. The bytes that it has stored by
then are the first line of all that the command writes, unless the command is killed before.
-/

namespace LinuxTemplates.PopenProgram
open TransitionSystems FifoChannels CStrings DelimitedStreams
open PipeTransfer (newline)

variable {env : Env} {s s' : State} {got : List UInt8}

/-! ## The bytes that `fgets` stores -/

theorem firstLine_self (h : newline ∉ got.dropLast) (hlength : got.length ≤ BUFFER_SIZE - 1) :
    firstLine got = got := by
  apply firstCut_self _ hlength
  intro b hb
  exact decide_eq_false (fun heq => h (heq ▸ hb))

theorem firstLine_append (h : newline ∉ got.dropLast) (hlength : got.length ≤ BUFFER_SIZE - 1)
    (hfull : Full got) (more : List UInt8) : firstLine (got ++ more) = got := by
  apply firstCut_append _ hlength
  · rcases hfull with hfull | hlast
    · exact .inl hfull
    · exact .inr ⟨newline, hlast, decide_eq_true rfl⟩
  · intro b hb
    exact decide_eq_false (fun heq => h (heq ▸ hb))

/-- One more byte goes behind a line that is not complete. -/
theorem notMem_dropLast_append (h : newline ∉ got.dropLast) (hfull : ¬ Full got) (c : UInt8) :
    newline ∉ (got ++ [c]).dropLast := by
  rw [List.dropLast_concat]
  intro hmem
  rcases List.eq_nil_or_concat got with rfl | ⟨body, a, rfl⟩
  · cases hmem
  · rw [List.concat_eq_append] at h hfull hmem
    rw [List.dropLast_concat] at h
    rcases List.mem_append.mp hmem with hbody | hlast
    · exact h hbody
    · rw [List.mem_singleton] at hlast
      exact hfull (.inr (by rw [List.getLast?_concat, hlast]))

theorem cString_stored (hne : got ≠ []) (buffer : List UInt8) :
    cString (stored buffer got) = some (upToNul got) := by
  rw [stored, if_neg hne, cString_eq_some_iff]
  exact ⟨by simp, upToNul_append_zero got _⟩

/-! ## The invariant -/

/-- Nothing that is still to come can change what `fgets` has stored: it has all it wants, or
the command has ended. -/
structure Got (env : Env) (s : State) (got : List UInt8) : Prop where
  begins : got <+: s.pipe.sent
  inner : newline ∉ got.dropLast
  length_le : got.length ≤ BUFFER_SIZE - 1
  settled : Full got ∨ (got = s.pipe.sent ∧ s.child.writes = false ∧
    (s.killed = false → s.pipe.sent = env.passwd))

def Printed (env : Env) (s : State) : Prop :=
  ∃ got str, Got env s got ∧ cString (stored env.buffer got) = some str ∧ s.out = str ++ [newline]

/-- The command runs or has not been waited for. -/
def Pending (s : State) : Prop := s.child ≠ .absent ∧ s.child ≠ .reaped

def ChildOk (env : Env) (s : State) : Prop :=
  match s.child with
  | .absent => s.pipe.sent = [] ∧ s.killed = false
  | .writing rest => s.pipe.sent ++ rest = env.passwd ∧ s.killed = false
  | .zombie | .reaped => s.pipe.sent <+: env.passwd ∧
    (s.killed = false → s.readEnd = true → s.pipe.sent = env.passwd)

def MainOk (env : Env) (s : State) : Prop :=
  match s.main with
  | .popen => s = start env
  | .fgets got => Pending s ∧ s.readEnd = true ∧ got ++ s.stream = s.pipe.received ∧
    newline ∉ got.dropLast ∧ got.length ≤ BUFFER_SIZE - 1 ∧ s.buffer = env.buffer ∧ s.out = []
  | .printf => Pending s ∧ s.readEnd = true ∧
    (∃ got, Got env s got ∧ s.buffer = stored env.buffer got) ∧ s.out = []
  | .close => Pending s ∧ s.readEnd = true ∧ Printed env s
  | .wait => Pending s ∧ s.readEnd = false ∧ Printed env s
  | .returned ret => ret = 0 ∧ s.child = .reaped ∧ Printed env s
  | .crashed => s.out = [] ∧ (s.child = .absent ∨ (0 ∉ env.buffer ∧ Got env s []))

structure Inv (env : Env) (s : State) : Prop where
  main : MainOk env s
  child : ChildOk env s

theorem ChildOk.sent_prefix (h : ChildOk env s) : s.pipe.sent <+: env.passwd := by
  unfold ChildOk at h
  cases hc : s.child with
  | absent =>
    simp only [hc] at h
    rw [h.1]
    exact List.nil_prefix
  | writing rest =>
    simp only [hc] at h
    exact ⟨rest, h.1⟩
  | zombie | reaped =>
    simp only [hc] at h
    exact h.1

/-- The bytes stored are the first line of what the command wrote, and of the whole file
unless it was killed. -/
theorem Got.firstLine_eq (h : Got env s got) (hchild : ChildOk env s) :
    firstLine s.pipe.sent = got ∧ (s.killed = false → firstLine env.passwd = got) := by
  rcases h.settled with hfull | ⟨heq, -, hall⟩
  · obtain ⟨more, hmore⟩ := h.begins
    obtain ⟨rest, hrest⟩ := hchild.sent_prefix
    refine ⟨?_, fun _ => ?_⟩
    · rw [← hmore]
      exact firstLine_append h.inner h.length_le hfull more
    · rw [← hrest, ← hmore, List.append_assoc]
      exact firstLine_append h.inner h.length_le hfull _
  · have hline : firstLine got = got := firstLine_self h.inner h.length_le
    exact ⟨heq ▸ hline, fun hk => hall hk ▸ heq ▸ hline⟩

/-! ## One step -/

/-- A command that still writes can only make the first line longer than it was needed. -/
theorem Got.childMoves (h : Got env s got) (hwrites : s.child.writes = true) {more : List UInt8}
    (hsent : s'.pipe.sent = s.pipe.sent ++ more) : Got env s' got := by
  refine ⟨hsent ▸ h.begins.trans (List.prefix_append _ _), h.inner, h.length_le, ?_⟩
  rcases h.settled with hfull | ⟨-, hnot, -⟩
  · exact .inl hfull
  · rw [hwrites] at hnot
    cases hnot

theorem Got.frame (h : Got env s got) (hsent : s'.pipe.sent = s.pipe.sent)
    (hwrites : s.child.writes = false → s'.child.writes = false) (hkilled : s'.killed = s.killed) :
    Got env s' got := by
  refine ⟨hsent ▸ h.begins, h.inner, h.length_le, ?_⟩
  rcases h.settled with hfull | ⟨heq, hnot, hall⟩
  · exact .inl hfull
  · exact .inr ⟨by rw [hsent, heq], hwrites hnot, by rw [hkilled, hsent]; exact hall⟩

theorem Printed.frame (h : Printed env s) (hsent : s'.pipe.sent = s.pipe.sent)
    (hwrites : s.child.writes = false → s'.child.writes = false) (hkilled : s'.killed = s.killed)
    (hout : s'.out = s.out) : Printed env s' := by
  obtain ⟨got, str, hgot, hstr, hs⟩ := h
  exact ⟨got, str, hgot.frame hsent hwrites hkilled, hstr, hout ▸ hs⟩

/-- A step of the command, which writes, fails or ends. -/
theorem MainOk.childMoves (h : MainOk env s) (hwrites : s.child.writes = true)
    (hmain : s'.main = s.main) (hpending : Pending s') {more : List UInt8}
    (hsent : s'.pipe.sent = s.pipe.sent ++ more) (hreceived : s'.pipe.received = s.pipe.received)
    (hreadEnd : s'.readEnd = s.readEnd) (hstream : s'.stream = s.stream)
    (hbuffer : s'.buffer = s.buffer) (hout : s'.out = s.out) : MainOk env s' := by
  have hprinted (hp : Printed env s) : Printed env s' := by
    obtain ⟨got, str, hgot, hstr, hs⟩ := hp
    exact ⟨got, str, hgot.childMoves hwrites hsent, hstr, hout ▸ hs⟩
  unfold MainOk at h ⊢
  cases hp : s.main <;> simp only [hp, hmain] at h ⊢
  case popen =>
    rw [h] at hwrites
    cases hwrites
  case fgets got =>
    exact ⟨hpending, hreadEnd ▸ h.2.1, by rw [hstream, hreceived]; exact h.2.2.1, h.2.2.2.1,
      h.2.2.2.2.1, hbuffer ▸ h.2.2.2.2.2.1, hout ▸ h.2.2.2.2.2.2⟩
  case printf =>
    obtain ⟨-, hread, ⟨got, hgot, hs⟩, hnil⟩ := h
    exact ⟨hpending, hreadEnd ▸ hread, ⟨got, hgot.childMoves hwrites hsent, hbuffer ▸ hs⟩,
      hout ▸ hnil⟩
  case close | wait => exact ⟨hpending, hreadEnd ▸ h.2.1, hprinted h.2.2⟩
  case returned ret =>
    rw [h.2.1] at hwrites
    cases hwrites
  case crashed =>
    refine ⟨hout ▸ h.1, ?_⟩
    rcases h.2 with habsent | ⟨hnul, hgot⟩
    · rw [habsent] at hwrites
      cases hwrites
    · exact .inr ⟨hnul, hgot.childMoves hwrites hsent⟩

theorem received_eof {rest : List UInt8} (hreceived : got ++ rest = s.pipe.received)
    (hrest : rest = []) (hqueue : s.pipe.queue = []) : got = s.pipe.sent := by
  rw [← s.pipe.received_eq_sent hqueue, ← hreceived, hrest, List.append_nil]

theorem main_inv (h : Inv env s) (hs : main env s = some s') : Inv env s' := by
  have hmain := h.main
  have hchild := h.child
  cases hp : s.main with
  | popen =>
    simp only [MainOk, hp] at hmain
    simp only [main, hp, Option.some.injEq] at hs
    subst hs
    rw [hmain]
    exact ⟨⟨⟨by simp, by simp⟩, rfl, rfl, List.not_mem_nil, Nat.zero_le _, rfl, rfl⟩, rfl, rfl⟩
  | fgets got =>
    simp only [MainOk, hp] at hmain
    obtain ⟨hpending, hread, hreceived, hinner, hlength, hbuffer, hout⟩ := hmain
    simp only [main, hp] at hs
    have hbegins : got <+: s.pipe.sent :=
      (hreceived ▸ List.prefix_append got s.stream).trans s.pipe.received_prefix
    split at hs
    · rename_i hfull
      obtain rfl := Option.some.inj hs
      exact ⟨⟨hpending, hread, ⟨got, ⟨hbegins, hinner, hlength, .inl hfull⟩, by rw [hbuffer]⟩, hout⟩,
        hchild⟩
    · rename_i hfull
      cases hstream : s.stream with
      | cons c rest =>
        simp only [hstream, Option.some.injEq] at hs
        subst hs
        have hlt : got.length < BUFFER_SIZE - 1 :=
          lt_of_le_of_ne hlength (fun heq => hfull (.inl heq))
        refine ⟨⟨hpending, hread, ?_, notMem_dropLast_append hinner hfull c, ?_, hbuffer, hout⟩,
          hchild⟩
        · rw [← hreceived, hstream, List.append_assoc, List.singleton_append]
        · rw [List.length_append, List.length_singleton]
          exact hlt
      | nil =>
        simp only [hstream, Option.ite_none_right_eq_some, Option.some.injEq] at hs
        obtain ⟨⟨hqueue, hnot⟩, rfl⟩ := hs
        have hsent : got = s.pipe.sent := received_eof hreceived hstream hqueue
        refine ⟨⟨hpending, hread, ⟨got, ⟨hbegins, hinner, hlength, .inr ⟨hsent, hnot, ?_⟩⟩,
          by rw [hbuffer]⟩, hout⟩, hchild⟩
        -- the command ended while the pipe could be read
        intro hkilled
        unfold ChildOk at hchild
        cases hc : s.child with
        | absent => exact absurd hc hpending.1
        | writing rest =>
          rw [hc] at hnot
          cases hnot
        | zombie | reaped =>
          simp only [hc] at hchild
          exact hchild.2 hkilled hread
  | printf =>
    simp only [MainOk, hp] at hmain
    obtain ⟨hpending, hread, ⟨got, hgot, hbuffer⟩, hout⟩ := hmain
    simp only [main, hp] at hs
    cases hstr : cString s.buffer with
    | none =>
      simp only [hstr, Option.some.injEq] at hs
      subst hs
      have hnil : got = [] := by
        by_contra hne
        rw [hbuffer, cString_stored hne] at hstr
        cases hstr
      subst hnil
      refine ⟨⟨hout, .inr ⟨fun hmem => ?_, hgot.frame rfl id rfl⟩⟩, hchild⟩
      rw [hbuffer, stored, if_pos rfl, cString, if_pos hmem] at hstr
      cases hstr
    | some str =>
      simp only [hstr, Option.some.injEq] at hs
      subst hs
      exact ⟨⟨hpending, hread, got, str, hgot.frame rfl id rfl, hbuffer ▸ hstr, by rw [hout]; rfl⟩,
        hchild⟩
  | close =>
    simp only [MainOk, hp] at hmain
    simp only [main, hp, Option.some.injEq] at hs
    subst hs
    refine ⟨⟨hmain.1, rfl, hmain.2.2.frame rfl id rfl rfl⟩, ?_⟩
    unfold ChildOk at hchild ⊢
    cases hc : s.child <;> simp only [hc] at hchild ⊢
    case absent | writing => exact hchild
    case zombie | reaped => exact ⟨hchild.1, fun _ hr => by cases hr⟩
  | wait =>
    simp only [MainOk, hp] at hmain
    simp only [main, hp] at hs
    cases hc : s.child with
    | zombie =>
      simp only [hc, Option.some.injEq] at hs
      subst hs
      simp only [ChildOk, hc] at hchild
      exact ⟨⟨rfl, rfl, hmain.2.2.frame rfl (fun _ => rfl) rfl rfl⟩, hchild⟩
    | absent | writing | reaped =>
      simp only [hc] at hs
      cases hs
  | returned ret | crashed =>
    simp only [main, hp] at hs
    cases hs

theorem child_inv (h : Inv env s) {rest more rest' : List UInt8} (hc : s.child = .writing rest)
    (hmore : rest = more ++ rest') (hmain : s'.main = s.main)
    (hchild : s'.child = .writing rest' ∨ s'.child = .zombie)
    (hsent : s'.pipe.sent = s.pipe.sent ++ more) (hreceived : s'.pipe.received = s.pipe.received)
    (hreadEnd : s'.readEnd = s.readEnd) (hstream : s'.stream = s.stream)
    (hbuffer : s'.buffer = s.buffer) (hout : s'.out = s.out)
    (hkilled : s'.killed = false → s'.child = .writing rest' ∨ rest' = [] ∨ s.readEnd = false)
    (hwriting : s'.child = .writing rest' → s'.killed = s.killed) : Inv env s' := by
  have hwrites : s.child.writes = true := by rw [hc]; rfl
  have hpending : Pending s' := by
    rcases hchild with hchild | hchild <;> simp [Pending, hchild]
  refine ⟨h.main.childMoves hwrites hmain hpending hsent hreceived hreadEnd hstream hbuffer hout, ?_⟩
  have hok := h.child
  simp only [ChildOk, hc] at hok
  have hpasswd : s'.pipe.sent ++ rest' = env.passwd := by
    rw [hsent, List.append_assoc, ← hmore, hok.1]
  rcases hchild with hw | hz
  · simp only [ChildOk, hw]
    exact ⟨hpasswd, (hwriting hw).trans hok.2⟩
  · simp only [ChildOk, hz]
    refine ⟨⟨rest', hpasswd⟩, fun hk hr => ?_⟩
    rcases hkilled hk with hw | hnil | hclosed
    · rw [hz] at hw
      cases hw
    · rw [hnil, List.append_nil] at hpasswd
      exact hpasswd
    · rw [hreadEnd, hclosed] at hr
      cases hr

theorem inv_invariant (env : Env) : (program env).Invariant (Inv env) where
  init s := by
    rintro rfl
    exact ⟨rfl, rfl, rfl⟩
  step s a s' h hs := by
    cases a with
    | main => exact main_inv h hs
    | popenFails =>
      simp only [program, step, popenFails] at hs
      cases hp : s.main <;> simp only [hp, Option.some.injEq, reduceCtorEq] at hs
      subst hs
      have hmain := h.main
      simp only [MainOk, hp] at hmain
      exact ⟨⟨by rw [hmain]; rfl, .inl (by rw [hmain]; rfl)⟩, h.child⟩
    | fetch k =>
      simp only [program, step, fetch] at hs
      cases hp : s.main <;> simp only [hp, reduceCtorEq] at hs
      rename_i got
      rw [Option.ite_none_right_eq_some, Option.some.injEq] at hs
      obtain ⟨⟨-, hstream, -⟩, rfl⟩ := hs
      have hmain := h.main
      simp only [MainOk, hp] at hmain
      obtain ⟨hpending, hread, hreceived, hrest⟩ := hmain
      refine ⟨⟨hpending, hread, ?_, hrest⟩, h.child⟩
      rw [hstream, List.append_nil] at hreceived
      rw [hreceived]
      rfl
    | write k =>
      simp only [program, step, write] at hs
      cases hc : s.child <;> simp only [hc, reduceCtorEq] at hs
      rename_i rest
      rw [Option.ite_none_right_eq_some, Option.some.injEq] at hs
      obtain ⟨-, rfl⟩ := hs
      exact child_inv h hc (List.take_append_drop k rest).symm rfl (.inl rfl) rfl rfl rfl rfl rfl rfl
        (fun _ => .inl rfl) (fun _ => rfl)
    | child =>
      simp only [program, step, child] at hs
      cases hc : s.child <;> simp only [hc, reduceCtorEq] at hs
      rename_i rest
      rw [Option.ite_none_right_eq_some, Option.some.injEq] at hs
      obtain ⟨hend, rfl⟩ := hs
      exact child_inv h hc rfl rfl (.inr rfl) (List.append_nil _).symm rfl rfl rfl rfl rfl
        (fun _ => .inr hend) (fun _ => rfl)
    | kill =>
      simp only [program, step, kill] at hs
      cases hc : s.child <;> simp only [hc, Option.some.injEq, reduceCtorEq] at hs
      subst hs
      exact child_inv h hc rfl rfl (.inr rfl) (List.append_nil _).symm rfl rfl rfl rfl rfl
        (fun hk => by cases hk) (fun hw => by cases hw)

theorem inv_of_reachable (h : (program env).Reachable s) : Inv env s := (inv_invariant env).reachable h

/-! ## The line that is printed -/

/-- Without a byte there was none to come. -/
theorem Got.sent_nil (h : Got env s []) :
    s.pipe.sent = [] ∧ (s.killed = false → env.passwd = []) := by
  rcases h.settled with hfull | ⟨hsent, -, hall⟩
  · exact absurd hfull (by decide)
  · exact ⟨hsent.symm, fun hk => by rw [← hall hk, ← hsent]⟩

theorem Printed.out_eq (h : Printed env s) (hchild : ChildOk env s) :
    (s.killed = false → env.passwd ≠ [] →
      s.out = upToNul (firstLine env.passwd) ++ [newline]) ∧
    (s.pipe.sent ≠ [] → s.out = upToNul (firstLine s.pipe.sent) ++ [newline]) ∧
    (s.pipe.sent = [] → ∃ str, cString env.buffer = some str ∧ s.out = str ++ [newline]) := by
  obtain ⟨got, str, hgot, hstr, hout⟩ := h
  obtain ⟨hsent, hpasswd⟩ := hgot.firstLine_eq hchild
  rcases eq_or_ne got [] with rfl | hne
  · obtain ⟨hnil, hall⟩ := hgot.sent_nil
    exact ⟨fun hk hne => absurd (hall hk) hne, fun hne => absurd hnil hne,
      fun _ => ⟨str, hstr, hout⟩⟩
  · have hline : str = upToNul got := by
      rw [cString_stored hne, Option.some.injEq] at hstr
      exact hstr.symm
    refine ⟨fun hk _ => by rw [hout, hpasswd hk, hline], fun _ => by rw [hout, hsent, hline],
      fun hnil => ?_⟩
    rw [← hsent, hnil] at hne
    exact absurd rfl hne

/-- When `main` has returned, the command has been waited for, and the first line of the file, cut
to 49 bytes and at a NUL, has been printed with a newline behind it; of a command that is killed
it is the first line of what it wrote. Where there is no line the array is printed as it was, or
the program crashes. -/
theorem first_line (h : (program env).Reachable s) :
    (∀ ret, s.main = .returned ret → ret = 0 ∧ s.child = .reaped ∧
      s.pipe.sent <+: env.passwd ∧
      (s.killed = false → env.passwd ≠ [] →
        s.out = upToNul (firstLine env.passwd) ++ [newline]) ∧
      (s.pipe.sent ≠ [] → s.out = upToNul (firstLine s.pipe.sent) ++ [newline]) ∧
      (s.pipe.sent = [] → ∃ str, cString env.buffer = some str ∧ s.out = str ++ [newline])) ∧
    (s.main = .crashed → s.out = [] ∧
      (s.child = .absent ∨ (0 ∉ env.buffer ∧ s.pipe.sent = []))) := by
  have hi := inv_of_reachable h
  have hmain := hi.main
  refine ⟨fun ret hp => ?_, fun hp => ?_⟩
  · simp only [MainOk, hp] at hmain
    exact ⟨hmain.1, hmain.2.1, hi.child.sent_prefix, hmain.2.2.out_eq hi.child⟩
  · simp only [MainOk, hp] at hmain
    refine ⟨hmain.1, ?_⟩
    rcases hmain.2 with habsent | ⟨hnul, hgot⟩
    · exact .inl habsent
    · exact .inr ⟨hnul, hgot.sent_nil.1⟩

/-! ## The end of a run -/

def MainPc.weight (env : Env) : MainPc → ℕ
  | .popen => 3 * env.passwd.length + 7
  | .fgets _ => 5
  | .printf => 4
  | .close => 3
  | .wait => 2
  | .returned _ | .crashed => 0

def ChildPc.weight : ChildPc → ℕ
  | .writing rest => 3 * rest.length + 1
  | .absent | .zombie | .reaped => 0

/-- A byte is written, fetched and taken by `fgets`. -/
def State.weight (env : Env) (s : State) : ℕ :=
  s.main.weight env + s.child.weight + 2 * s.pipe.queue.length + s.stream.length

theorem step_weight (h : Inv env s) {a : Action} (hs : (program env).step s a = some s') :
    s'.weight env < s.weight env := by
  have hmain := h.main
  simp only [State.weight]
  cases a with
  | main =>
    simp only [program, step, main] at hs
    cases hp : s.main <;> simp only [MainOk, hp] at hs hmain
    case popen =>
      obtain rfl := Option.some.inj hs
      rw [hmain]
      simp [MainPc.weight, ChildPc.weight, start]
      omega
    case fgets got =>
      split at hs
      · obtain rfl := Option.some.inj hs
        simp [MainPc.weight]
      · cases hstream : s.stream with
        | cons c rest =>
          simp only [hstream, Option.some.injEq] at hs
          subst hs
          simp [MainPc.weight]
        | nil =>
          simp only [hstream, Option.ite_none_right_eq_some, Option.some.injEq] at hs
          obtain ⟨-, rfl⟩ := hs
          simp [MainPc.weight]
    case printf =>
      cases hstr : cString s.buffer <;> simp only [hstr, Option.some.injEq] at hs <;> subst hs <;>
        simp [MainPc.weight]
    case close =>
      obtain rfl := Option.some.inj hs
      simp [MainPc.weight]
    case wait =>
      cases hc : s.child <;> simp only [hc, Option.some.injEq, reduceCtorEq] at hs
      subst hs
      simp [MainPc.weight, ChildPc.weight]
    case returned | crashed => cases hs
  | popenFails =>
    simp only [program, step, popenFails] at hs
    cases hp : s.main <;> simp only [hp, Option.some.injEq, reduceCtorEq] at hs
    subst hs
    simp [MainPc.weight]
  | fetch k =>
    simp only [program, step, fetch] at hs
    cases hp : s.main <;> simp only [hp, reduceCtorEq] at hs
    rw [Option.ite_none_right_eq_some, Option.some.injEq] at hs
    obtain ⟨⟨-, hstream, hpos, -, hle⟩, rfl⟩ := hs
    simp only [hstream, Channel.receive_queue, List.length_drop, List.length_take, List.length_nil]
    omega
  | write k =>
    simp only [program, step, write] at hs
    cases hc : s.child <;> simp only [hc, reduceCtorEq] at hs
    rw [Option.ite_none_right_eq_some, Option.some.injEq] at hs
    obtain ⟨⟨-, hpos, hle, -⟩, rfl⟩ := hs
    simp only [ChildPc.weight, Channel.send_queue, List.length_append, List.length_drop,
      List.length_take]
    omega
  | child =>
    simp only [program, step, child] at hs
    cases hc : s.child <;> simp only [hc, reduceCtorEq] at hs
    rw [Option.ite_none_right_eq_some, Option.some.injEq] at hs
    obtain ⟨-, rfl⟩ := hs
    simp [ChildPc.weight]
  | kill =>
    simp only [program, step, kill] at hs
    cases hc : s.child <;> simp only [hc, Option.some.injEq, reduceCtorEq] at hs
    subst hs
    simp [ChildPc.weight]

/-- A command that writes can go on when the pipe is empty or closed. -/
theorem child_enabled (hwrites : s.child.writes = true)
    (hroom : s.pipe.queue = [] ∨ s.readEnd = false) :
    ∃ a, a ≠ .kill ∧ a ≠ .popenFails ∧ (program env).Enabled s a := by
  cases hc : s.child with
  | writing rest =>
    rcases eq_or_ne rest [] with rfl | hne
    · exact ⟨.child, by simp, by simp, by simp [System.Enabled, program, step, child, hc]⟩
    · cases hread : s.readEnd with
      | false =>
        exact ⟨.child, by simp, by simp, by simp [System.Enabled, program, step, child, hc, hread]⟩
      | true =>
        have hqueue : s.pipe.queue = [] := hroom.resolve_right (by simp [hread])
        have hpos : 1 ≤ rest.length := List.length_pos_of_ne_nil hne
        have hcap : 1 ≤ env.capacity := env.capacity_pos
        exact ⟨.write 1, by simp, by simp, by
          simp [System.Enabled, program, step, write, hc, hread, hqueue, hpos, hcap]⟩
  | absent | zombie | reaped =>
    rw [hc] at hwrites
    cases hwrites

theorem progress (h : Inv env s) (hover : s.main.over = false) :
    ∃ a, a ≠ .kill ∧ a ≠ .popenFails ∧ (program env).Enabled s a := by
  have hmain := h.main
  cases hp : s.main with
  | popen | close => exact ⟨.main, by simp, by simp, by simp [System.Enabled, program, step, main, hp]⟩
  | printf =>
    refine ⟨.main, by simp, by simp, ?_⟩
    cases hstr : cString s.buffer <;> simp [System.Enabled, program, step, main, hp, hstr]
  | fgets got =>
    by_cases hfull : Full got
    · exact ⟨.main, by simp, by simp, by simp [System.Enabled, program, step, main, hp, hfull]⟩
    cases hstream : s.stream with
    | cons c rest =>
      exact ⟨.main, by simp, by simp,
        by simp [System.Enabled, program, step, main, hp, hfull, hstream]⟩
    | nil =>
      cases hqueue : s.pipe.queue with
      | cons c rest =>
        refine ⟨.fetch 1, by simp, by simp, ?_⟩
        simp [System.Enabled, program, step, fetch, hp, hfull, hstream, hqueue, BUFSIZ]
      | nil =>
        cases hwrites : s.child.writes with
        | false =>
          exact ⟨.main, by simp, by simp,
            by simp [System.Enabled, program, step, main, hp, hfull, hstream, hqueue, hwrites]⟩
        | true => exact child_enabled hwrites (.inl hqueue)
  | wait =>
    simp only [MainOk, hp] at hmain
    cases hc : s.child with
    | zombie => exact ⟨.main, by simp, by simp, by simp [System.Enabled, program, step, main, hp, hc]⟩
    | writing rest => exact child_enabled (by rw [hc]; rfl) (.inr hmain.2.1)
    | absent => exact absurd hc hmain.1.1
    | reaped => exact absurd hc hmain.1.2
  | returned | crashed =>
    rw [hp] at hover
    cases hover

/-- A run has at most three steps for each byte of the file and seven more, and until `main` has
returned or crashed it can go on without a failure: `pclose` does not wait for a command that is
stuck in a full pipe, since it has closed it before. -/
theorem popen_ends {as : List Action} (hrun : (program env).run (start env) as = some s) :
    as.length ≤ 3 * env.passwd.length + 7 ∧
    (s.main.over = false →
      ∃ a, a ≠ .kill ∧ a ≠ .popenFails ∧ (program env).Enabled s a) := by
  refine ⟨?_, progress (inv_of_reachable ((System.Reachable.init rfl).run hrun))⟩
  have hlen := System.length_run_le (inv_invariant env).step (fun _ _ _ ht hs => step_weight ht hs)
    ((inv_invariant env).init _ rfl) hrun
  have hstart : (start env).weight env = 3 * env.passwd.length + 7 := rfl
  omega

section Demo

/-- `ab`, a newline and four more bytes, through a pipe that has room for three. -/
def demoEnv : Env :=
  ⟨[97, 98, 10, 99, 100, 101, 102], 3, List.replicate 50 0, Nat.succ_pos 2, List.length_replicate⟩

/-- The command is stuck in the pipe until `pclose` closes it. -/
def sigpipeSchedule : List Action :=
  [.main, .write 3, .fetch 3, .main, .write 3, .main, .main, .main, .main, .main, .child, .main]

def sigpipeEnd : State := (program demoEnv).after (start demoEnv) sigpipeSchedule (by decide)

theorem run_sigpipe : (program demoEnv).run (start demoEnv) sigpipeSchedule = some sigpipeEnd :=
  (program demoEnv).run_after (by decide)

theorem first_line_sigpipe : sigpipeEnd.out = [97, 98, 10, 10] := by
  obtain ⟨hreturned, -⟩ := first_line ((System.Reachable.init rfl).run run_sigpipe)
  obtain ⟨-, -, -, hout, -⟩ := hreturned 0 (by decide)
  rw [hout (by decide) (by decide)]
  decide

/-- The command waits for room in the pipe, and the reader has all that it will ask for. -/
def stuckEnd : State := (program demoEnv).after (start demoEnv) (sigpipeSchedule.take 9) (by decide)

theorem run_stuck :
    (program demoEnv).run (start demoEnv) (sigpipeSchedule.take 9) = some stuckEnd :=
  (program demoEnv).run_after (by decide)

theorem popen_ends_sigpipe :
    sigpipeSchedule.length ≤ 28 ∧
      ∃ a, a ≠ .kill ∧ a ≠ .popenFails ∧ (program demoEnv).Enabled stuckEnd a :=
  ⟨(popen_ends run_sigpipe).1, (popen_ends run_stuck).2 (by decide)⟩

end Demo

end LinuxTemplates.PopenProgram
