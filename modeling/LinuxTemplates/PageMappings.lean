import LinuxTemplates.CStrings
import Mathlib.Data.PNat.Defs

/-!
# Memory mappings

A mapping shows the bytes of an object and, up to the end of its last page, zeros. The
memory behind that page belongs to nobody.
-/

namespace LinuxTemplates.PageMappings
open CStrings

/-- What is missing of the last page. -/
def slack (page : ℕ+) (length : ℕ) : ℕ := (page - length % page) % page

theorem slack_eq_zero_iff {page : ℕ+} {length : ℕ} :
    slack page length = 0 ↔ (page : ℕ) ∣ length := by
  have hlt : length % page < page := Nat.mod_lt length page.pos
  rw [slack, Nat.dvd_iff_mod_eq_zero]
  constructor
  · intro h
    by_contra hne
    have hsmall : (page : ℕ) - length % page < page := by omega
    rw [Nat.mod_eq_of_lt hsmall] at h
    omega
  · intro h
    rw [h, Nat.sub_zero, Nat.mod_self]

/-- The readable memory of a mapping of `bytes`. -/
def mapped (page : ℕ+) (bytes : List UInt8) : List UInt8 :=
  bytes ++ List.replicate (slack page bytes.length) 0

theorem nul_mem_mapped_iff {page : ℕ+} {bytes : List UInt8} (h : 0 ∉ bytes) :
    0 ∈ mapped page bytes ↔ ¬ (page : ℕ) ∣ bytes.length := by
  rw [mapped, List.mem_append, or_iff_right h, List.mem_replicate, and_iff_left rfl, ne_eq,
    slack_eq_zero_iff]

/-- The terminator of a string without NUL comes from the rest of its last page. -/
theorem cString_mapped_iff {page : ℕ+} {bytes : List UInt8} (h : 0 ∉ bytes) :
    cString (mapped page bytes) = some bytes ↔ ¬ (page : ℕ) ∣ bytes.length := by
  rw [cString_eq_some_iff, nul_mem_mapped_iff h, and_iff_left_iff_imp]
  intro hdvd
  obtain ⟨n, hn⟩ := Nat.exists_eq_succ_of_ne_zero (fun hz => hdvd (slack_eq_zero_iff.mp hz))
  rw [mapped, hn, List.replicate_succ]
  exact upToNul_append_nul h _

end LinuxTemplates.PageMappings
