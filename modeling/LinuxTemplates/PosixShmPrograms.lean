import LinuxTemplates.PosixShmRoundTrip

/-!
# The four programs on `/demo_shm`

Each `main` makes one call on the segment `/demo_shm`, says so when it has failed and returns 0.
The programs are run one after the other, any number of times and in any order, and any of their
system calls may fail. The descriptors that a process leaves open go with it; the segment stays.
-/

namespace LinuxTemplates.PosixShm
open PageMappings CStrings TransitionSystems

def demoShm : String := "/demo_shm"

inductive Program | create | write | read | unlink
  deriving DecidableEq, Repr

/-- The lines of the call, and the one of `main` about a failure. -/
inductive MainLine
  | line (p : Printed)
  | failed (function : String)
  deriving DecidableEq, Repr

/-- The function that `main` takes to have failed. -/
def Program.blamed : Program → String
  | .create | .write => "posix_shm_write"
  | .read => "posix_shm_read"
  | .unlink => "posix_shm_unlink"

/-- The array `data` of the second program, with its terminator. -/
def demoData : List UInt8 := helloWorld ++ [0]

def Program.call : Program → Call String
  | .create => .create demoShm ⟨.rdwr, true, false, false⟩ 100
  | .write => .write (some demoShm) (some demoData) (.ofNat (strlen demoData))
  | .read => .read (some demoShm)
  | .unlink => .unlink (some demoShm)

/-- A process that is over; it has no result when it copied from foreign memory. -/
structure Run where
  program : Program
  ret : Option ℤ
  printed : List MainLine
  deriving DecidableEq, Repr

structure Machine where
  segments : String → Option (List UInt8)
  runs : List Run

/-- A process begins with the three standard descriptors. -/
def Machine.shm (s : Machine) : Shm String := ⟨s.segments, [0, 1, 2]⟩

/-- What a process prints whose call ended with this result. -/
def Program.lines (p : Program) (r : Result String) : List MainLine :=
  r.printed.map .line ++ if r.ret = -1 then [.failed p.blamed] else []

def Program.main (page : ℕ+) (faults : Faults) (s : Machine) (p : Program) : Machine :=
  match p.call.exec page faults s.shm with
  | none => { s with runs := s.runs ++ [⟨p, none, []⟩] }
  | some r => ⟨r.shm.segments, s.runs ++ [⟨p, some r.ret, p.lines r⟩]⟩

/-- The segments before the first program runs; a page has room for the text and more. -/
structure Env where
  page : ℕ+
  segments : String → Option (List UInt8)
  fresh : segments demoShm = none
  room : helloWorld.length < page

def demo (env : Env) : System Machine (Program × Faults) where
  init s := s = ⟨env.segments, []⟩
  step s a := some (a.1.main env.page a.2 s)

def Run.marks (w : Bool) (r : Run) : Bool :=
  match r.program, r.ret with
  | .write, some 0 => true
  | .unlink, some 0 => false
  | _, _ => w

/-- A write has returned 0, and no unlink has since. -/
def written (runs : List Run) : Bool := runs.foldl Run.marks false

def text (w : Bool) : List UInt8 := if w then helloWorld else []

/-- What a segment may be while `w` says that the text was written. -/
def Stores (w : Bool) : Option (List UInt8) → Prop
  | none => w = false
  | some bytes => ∃ zeros, bytes = text w ++ List.replicate zeros 0

/-- Nothing but the segment of the programs may have changed. -/
def Leaves (w : Bool) (shm shm' : Shm String) : Prop :=
  ∃ seg, shm'.segments = Function.update shm.segments demoShm seg ∧ Stores w seg

structure Inv (env : Env) (s : Machine) : Prop where
  frame : ∀ n, n ≠ demoShm → s.segments n = env.segments n
  stores : Stores (written s.runs) (s.segments demoShm)
  inside : ∀ r ∈ s.runs, r.ret ≠ none ∧ .line .overread ∉ r.printed
  reads : ∀ before r after, s.runs = before ++ r :: after → r.program = .read → r.ret = some 0 →
    r.printed = [.line (.content (text (written before)))]

/-! ## Texts and zeros -/

theorem resize_append_zeros {str : List UInt8} {length zeros : ℕ} (h : str.length ≤ length) :
    resize length (str ++ List.replicate zeros 0) =
      str ++ List.replicate (length - str.length) 0 := by
  rw [resize, List.take_append, List.take_of_length_le h, List.take_replicate, List.append_assoc,
    List.length_append, List.length_replicate, List.replicate_append_replicate]
  congr 2
  omega

theorem cString_append_zeros {str : List UInt8} {zeros : ℕ} (hnul : 0 ∉ str) (h : zeros ≠ 0) :
    cString (str ++ List.replicate zeros 0) = some str := by
  obtain ⟨n, rfl⟩ := Nat.exists_eq_succ_of_ne_zero h
  rw [cString_eq_some_iff, List.replicate_succ]
  exact ⟨List.mem_append_right str List.mem_cons_self, upToNul_append_nul hnul _⟩

/-- A text that is shorter than a page ends inside its mapping. -/
theorem cString_mapped_zeros {page : ℕ+} {str : List UInt8} {zeros : ℕ} (hnul : 0 ∉ str)
    (hroom : str.length < page) (hne : str ++ List.replicate zeros 0 ≠ []) :
    cString (mapped page (str ++ List.replicate zeros 0)) = some str := by
  rw [mapped, List.append_assoc, List.replicate_append_replicate]
  apply cString_append_zeros hnul
  intro hzero
  obtain ⟨rfl, hslack⟩ := Nat.add_eq_zero_iff.mp hzero
  rw [List.replicate_zero, List.append_nil] at hne hslack
  have hdvd := slack_eq_zero_iff.mp hslack
  exact absurd hdvd (Nat.not_dvd_of_pos_of_lt (List.length_pos_iff.mpr hne) hroom)

theorem nul_notMem_text (w : Bool) : 0 ∉ text w := by
  cases w with
  | false => exact List.not_mem_nil
  | true => decide

theorem length_text_le (w : Bool) : (text w).length ≤ helloWorld.length := by
  cases w with
  | false => exact Nat.zero_le _
  | true => exact le_rfl

theorem Stores.resize {w : Bool} {bytes : List UInt8} {length : ℕ}
    (h : Stores w (some bytes)) (hlength : helloWorld.length ≤ length) :
    Stores w (some (PosixShm.resize length bytes)) := by
  obtain ⟨zeros, rfl⟩ := h
  exact ⟨_, resize_append_zeros ((length_text_le w).trans hlength)⟩

/-! ## What the calls do to the stored text -/

section Calls
variable {faults : Faults} {shm : Shm String} {w : Bool}

theorem Stores.opened {flags : OpenFlags} {seg : Option (List UInt8)} (h : Stores w seg)
    (htrunc : flags.trunc = false) : Stores w (some (Shm.opened flags seg)) := by
  cases seg with
  | none =>
    obtain rfl : w = false := h
    exact ⟨0, rfl⟩
  | some bytes =>
    rw [Shm.opened, if_neg (by simp [htrunc])]
    exact h

theorem leaves_self {shm' : Shm String} (h : Stores w (shm.segments demoShm))
    (hs : shm'.segments = shm.segments) : Leaves w shm shm' :=
  ⟨_, by rw [hs, Function.update_eq_self], h⟩

/-- Creating the segment again erases nothing, and makes it long enough for the text. -/
theorem posixShmCreate_leaves (h : Stores w (shm.segments demoShm)) :
    Leaves w shm (posixShmCreate faults demoShm ⟨.rdwr, true, false, false⟩ 100 shm).shm := by
  have hopened : Stores w (some (Shm.opened ⟨.rdwr, true, false, false⟩ (shm.segments demoShm))) :=
    h.opened rfl
  have hcreate : posixShmCreate faults demoShm ⟨.rdwr, true, false, false⟩ 100 shm = _ := rfl
  rcases posixShmCreate_cases hcreate with ⟨-, hs⟩ | ⟨-, hs⟩ | ⟨-, hs⟩
  · exact leaves_self h hs
  · exact ⟨_, hs, hopened⟩
  · exact ⟨_, hs, hopened.resize (by decide)⟩

theorem posixShmWrite_leaves {r : Result String} (h : Stores w (shm.segments demoShm))
    (hr : posixShmWrite faults (some demoShm) (some demoData) (.ofNat (strlen demoData)) shm =
      some r) :
    (r.ret = -1 ∧ Leaves w shm r.shm) ∨ (r.ret = 0 ∧ Leaves true shm r.shm) := by
  have hlen : (Int32.ofNat (strlen demoData)).toInt.toNat = helloWorld.length := by decide
  rcases posixShmWrite_cases hr with ⟨hret, hs⟩ | ⟨n, d, bytes, hn, hd, -, hbytes, hs⟩
  · exact .inl ⟨hret, leaves_self h hs⟩
  · obtain rfl := Option.some.inj hn
    obtain rfl := Option.some.inj hd
    rw [hlen] at hs
    rw [hbytes] at h
    rcases hs with ⟨hret, hs⟩ | ⟨hret, -, hs⟩
    · exact .inl ⟨hret, _, hs, h.resize le_rfl⟩
    · exact .inr ⟨hret, _, hs, 0, rfl⟩

theorem posixShmCreate_inside (faults : Faults) (shm : Shm String) (flag : OpenFlags)
    (size : UInt64) : .overread ∉ (posixShmCreate faults demoShm flag size shm).printed := by
  unfold posixShmCreate
  split
  · simp
  · split
    · simp
    · split <;> simp

/-- The data are long enough for every copy. -/
theorem posixShmWrite_inside (faults : Faults) (shm : Shm String) :
    ∃ r, posixShmWrite faults (some demoShm) (some demoData) (.ofNat (strlen demoData)) shm =
      some r ∧ .overread ∉ r.printed := by
  have hlen : ¬ demoData.length < (Int32.ofNat (strlen demoData)).toInt.toNat := by decide
  unfold posixShmWrite
  dsimp only
  split
  · exact ⟨_, rfl, by simp⟩
  · split
    · exact ⟨_, rfl, by simp⟩
    · split
      · exact ⟨_, rfl, by simp⟩
      · split
        · exact ⟨_, rfl, by simp⟩
        · split
          · exact ⟨_, rfl, by simp⟩
          · rw [Shm.memcpy, if_neg hlen]
            exact ⟨_, rfl, by simp⟩

theorem posixShmUnlink_inside (faults : Faults) (shm : Shm String) :
    .overread ∉ (posixShmUnlink faults (some demoShm) shm).printed := by
  unfold posixShmUnlink
  dsimp only
  split <;> simp

/-- A read fails, or it prints the string at the start of the mapping. -/
theorem posixShmRead_content (page : ℕ+) (faults : Faults) (shm : Shm String) (n : String) :
    ((posixShmRead page faults (some n) shm).ret = -1 ∧
      .overread ∉ (posixShmRead page faults (some n) shm).printed) ∨
    ∃ bytes, shm.segments n = some bytes ∧ bytes ≠ [] ∧
      posixShmRead page faults (some n) shm = ⟨0, [printContent (mapped page bytes)], shm⟩ := by
  by_cases hopens : Opens faults shm n ⟨.rdonly, false, false, false⟩
  · obtain ⟨-, bytes, hbytes⟩ := opens_existing_iff.mp hopens
    rw [posixShmRead, shmOpen_eq_some hopens, afterOpen_existing .rdonly hbytes]
    dsimp only
    by_cases hstat : faults .fstat = true
    · rw [Shm.fstat, if_pos hstat]
      exact .inl ⟨rfl, by simp⟩
    · rw [Shm.fstat, if_neg hstat, Shm.leaked_segments, hbytes, Option.map_some]
      dsimp only
      by_cases hmaps : Maps faults .rdonly bytes.length .rdonly
      · rw [mmap_eq hmaps, Shm.leaked_segments, hbytes, Shm.close_leaked]
        dsimp only
        split
        · exact .inl ⟨rfl, by simp⟩
        · exact .inr ⟨bytes, rfl, List.length_eq_zero_iff.not.mp hmaps.2.1, rfl⟩
      · rw [mmap_eq_none hmaps]
        exact .inl ⟨rfl, by simp⟩
  · rw [posixShmRead, shmOpen_eq_none hopens]
    exact .inl ⟨rfl, by simp⟩

theorem posixShmRead_stores {page : ℕ+} (faults : Faults) (hroom : helloWorld.length < page)
    (h : Stores w (shm.segments demoShm)) :
    ((posixShmRead page faults (some demoShm) shm).ret = 0 →
      (posixShmRead page faults (some demoShm) shm).printed = [.content (text w)]) ∧
    .overread ∉ (posixShmRead page faults (some demoShm) shm).printed := by
  rcases posixShmRead_content page faults shm demoShm with ⟨hret, hinside⟩ |
    ⟨bytes, hbytes, hne, hr⟩
  · refine ⟨fun hzero => ?_, hinside⟩
    rw [hret] at hzero
    cases hzero
  · rw [hbytes] at h
    obtain ⟨zeros, rfl⟩ := h
    have hstr := cString_mapped_zeros (nul_notMem_text w) ((length_text_le w).trans_lt hroom) hne
    rw [hr, printContent_eq_content_iff.mpr hstr]
    exact ⟨fun _ => rfl, by simp⟩

end Calls

/-! ## Runs -/

section Runs
variable {env : Env} {s s' : Machine}

theorem written_append (runs : List Run) (r : Run) :
    written (runs ++ [r]) = r.marks (written runs) := by
  rw [written, List.foldl_append]
  rfl

theorem Program.lines_inside {p : Program} {r : Result String} (h : .overread ∉ r.printed) :
    .line .overread ∉ p.lines r := by
  rw [Program.lines, List.mem_append, List.mem_map, not_or]
  constructor
  · rintro ⟨printed, hmem, heq⟩
    exact h (MainLine.line.inj heq ▸ hmem)
  · split <;> simp

/-- Every program ends inside its memory, and leaves the text that its result tells of. -/
theorem exec_spec (env : Env) {shm : Shm String} {w : Bool} (faults : Faults) (p : Program)
    (h : Stores w (shm.segments demoShm)) :
    ∃ r, p.call.exec env.page faults shm = some r ∧
      Leaves (Run.marks w ⟨p, some r.ret, p.lines r⟩) shm r.shm ∧ .overread ∉ r.printed ∧
      (p = .read → r.ret = 0 → r.printed = [.content (text w)]) := by
  cases p with
  | create =>
    refine ⟨_, rfl, posixShmCreate_leaves h, posixShmCreate_inside faults shm _ _, fun hp => ?_⟩
    cases hp
  | write =>
    obtain ⟨r, hr, hinside⟩ := posixShmWrite_inside faults shm
    refine ⟨r, hr, ?_, hinside, fun hp => ?_⟩
    · rcases posixShmWrite_leaves h hr with ⟨hret, hleaves⟩ | ⟨hret, hleaves⟩
      · rwa [hret]
      · rwa [hret]
    · cases hp
  | read =>
    obtain ⟨hprinted, hinside⟩ := posixShmRead_stores faults env.room h
    exact ⟨_, rfl, leaves_self h (posixShmRead_segments rfl), hinside, fun _ => hprinted⟩
  | unlink =>
    refine ⟨_, rfl, ?_, posixShmUnlink_inside faults shm, fun hp => ?_⟩
    · have hunlink : posixShmUnlink faults (some demoShm) shm = _ := rfl
      rcases posixShmUnlink_cases hunlink with ⟨hret, hs⟩ | ⟨n, hn, hret, hs⟩
      · rw [hret]
        exact leaves_self h (by rw [hs])
      · obtain rfl := Option.some.inj hn
        rw [hret]
        exact ⟨none, hs, rfl⟩
    · cases hp

theorem inv_init (env : Env) : Inv env ⟨env.segments, []⟩ where
  frame _ _ := rfl
  stores := by
    dsimp only
    rw [env.fresh]
    rfl
  inside r hr := absurd hr List.not_mem_nil
  reads before r after heq := absurd heq (by simp)

theorem inv_main (hi : Inv env s) (faults : Faults) (p : Program) :
    Inv env (p.main env.page faults s) := by
  have hstores : Stores (written s.runs) (s.shm.segments demoShm) := hi.stores
  obtain ⟨r, hr, ⟨seg, hs, hseg⟩, hinside, hprinted⟩ := exec_spec env faults p hstores
  have hmain : p.main env.page faults s =
      ⟨r.shm.segments, s.runs ++ [⟨p, some r.ret, p.lines r⟩]⟩ := by rw [Program.main, hr]
  rw [hmain]
  constructor
  case frame =>
    intro n hn
    dsimp only
    rw [hs, Function.update_of_ne hn]
    exact hi.frame n hn
  case stores =>
    dsimp only
    rw [hs, Function.update_self, written_append]
    exact hseg
  case inside =>
    intro r' hr'
    rcases List.mem_append.mp hr' with hold | hnew
    · exact hi.inside r' hold
    · rw [List.mem_singleton.mp hnew]
      exact ⟨Option.some_ne_none _, Program.lines_inside hinside⟩
  case reads =>
    apply System.splits_append hi.reads
    rintro (rfl : p = .read) hret
    have hzero : r.ret = 0 := Option.some.inj hret
    dsimp only
    rw [Program.lines, hprinted rfl hzero, hzero]
    rfl

theorem inv_reachable (h : (demo env).Reachable s) : Inv env s := by
  have hinv : (demo env).Invariant (Inv env) := by
    constructor
    case init =>
      rintro s rfl
      exact inv_init env
    case step =>
      intro s a s' hi hs
      rw [← Option.some.inj hs]
      exact inv_main hi a.2 a.1
  exact hinv.reachable h

/-- A write that has returned 0 is not lost before an unlink that returns 0. -/
theorem read_of_written (hi : Inv env s) (h : written s.runs = true) :
    Program.main env.page noFaults s .read =
      ⟨s.segments, s.runs ++ [⟨.read, some 0, [.line (.content helloWorld)]⟩]⟩ := by
  have hstores := hi.stores
  rw [h] at hstores
  cases hseg : s.segments demoShm with
  | none =>
    rw [hseg] at hstores
    cases hstores
  | some bytes =>
    rw [hseg] at hstores
    obtain ⟨zeros, rfl⟩ := hstores
    have hne : text true ++ List.replicate zeros 0 ≠ [] :=
      List.append_ne_nil_of_left_ne_nil (by decide) _
    have hstr : cString (mapped env.page (text true ++ List.replicate zeros 0)) = some (text true) :=
      cString_mapped_zeros (nul_notMem_text true) env.room hne
    have hread : posixShmRead env.page noFaults (some demoShm) s.shm = _ :=
      posixShmRead_noFaults hne hseg
    rw [printContent_eq_content_iff.mpr hstr] at hread
    rw [Program.main, Program.call, Call.exec, hread]
    rfl

/-- In whatever order the programs run and whatever fails in them, none leaves its memory, no other
segment changes, a read that succeeds prints what the last successful write or unlink before it
left, and a text that was written is there to be read. -/
theorem text_read_back (h : (demo env).Reachable s) :
    (∀ n, n ≠ demoShm → s.segments n = env.segments n) ∧
    (∀ r ∈ s.runs, r.ret ≠ none ∧ .line .overread ∉ r.printed) ∧
    (∀ before r after, s.runs = before ++ r :: after → r.program = .read → r.ret = some 0 →
      r.printed = [.line (.content (text (written before)))]) ∧
    (written s.runs = true → Program.main env.page noFaults s .read =
      ⟨s.segments, s.runs ++ [⟨.read, some 0, [.line (.content helloWorld)]⟩]⟩) := by
  have hi := inv_reachable h
  exact ⟨hi.frame, hi.inside, hi.reads, read_of_written hi⟩

end Runs

section Demo

theorem room_demo : helloWorld.length < ((4096 : ℕ+) : ℕ) := by decide

def demoEnv : Env := ⟨4096, fun _ => none, rfl, room_demo⟩

/-- The text survives a second program that creates the segment, and a failed unlink. -/
def demoSchedule : List (Program × Faults) :=
  [(.read, noFaults), (.create, noFaults), (.read, noFaults), (.write, noFaults),
    (.create, fun c => c = .mmap), (.unlink, fun c => c = .shmUnlink), (.read, noFaults),
    (.unlink, noFaults), (.read, noFaults)]

def demoEnd : Machine := (demo demoEnv).after ⟨demoEnv.segments, []⟩ demoSchedule rfl

theorem text_read_back_demo :
    demoEnd.runs.map Run.ret =
      [some (-1), some 0, some 0, some 0, some (-1), some (-1), some 0, some 0, some (-1)] ∧
    (∀ before r after, demoEnd.runs = before ++ r :: after → r.program = .read →
      r.ret = some 0 → r.printed = [.line (.content (text (written before)))]) := by
  have hreach : (demo demoEnv).Reachable demoEnd :=
    System.reachable_after (demo demoEnv) rfl demoSchedule rfl
  exact ⟨by decide +kernel, (text_read_back hreach).2.2.1⟩

end Demo

end LinuxTemplates.PosixShm
