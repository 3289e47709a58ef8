import Xpipe.ConfParsing
import Xpipe.FileCursor

/-!
# Reading the configuration file

The loop over `READ_CONF_FILE` on a real file: each round calls `file_read` for 1024 bytes
at FL_DEFAULT_OFFSET and goes on with what it has got. `conf_file_contents` is that the
outcome is decided by the bytes of the file.
-/
namespace Xpipe
open Machines

/-- The size of `buff`. -/
def buffSize : ℕ := 1024

/-- The loop over `READ_CONF_FILE`; `gots` are the results of the calls of `read`. None: the
parser has not come to an end with them. -/
def confReadFile (env : ConfEnv) : ConfParse → OpenFile → List (Option ℕ) →
    Option (Except ConfStop Resource)
  | _, _, [] => none
  | p, s, got :: gots =>
    let r := s.read buffSize flDefaultOffset got
    if r.1.ret = xpeError then some (.error .error)
    else if r.1.ret = 0 then some (confEnd p)
    else
      match run (confByte env) p r.1.bytes with
      | .error e => some (.error e)
      | .ok p => confReadFile env p r.2 gots

/-- `conf_file_parser` on an open file. -/
def confParseFile (env : ConfEnv) (s : OpenFile) (gots : List (Option ℕ)) :
    Option (Except ConfStop Resource) :=
  confReadFile env confStart s gots

/-- What is behind the offset of the kernel. -/
def OpenFile.rest (s : OpenFile) : List UInt8 := s.data.drop s.pos

/-- One `file_read` of the parser. -/
lemma read_default (s : OpenFile) (n : ℕ) :
    let bytes := s.rest.take (min n buffSize)
    (s.read buffSize flDefaultOffset (some n)).1 = ⟨Int64.ofNat bytes.length, bytes⟩ ∧
      (s.read buffSize flDefaultOffset (some n)).2.rest = s.rest.drop bytes.length := by
  have hdefault : s.read buffSize flDefaultOffset (some n) = s.readOn buffSize (some n) := by
    unfold OpenFile.read
    rw [if_neg (by simp)]
  rw [hdefault]
  refine ⟨rfl, ?_⟩
  simp only [OpenFile.readOn, OpenFile.rest, List.drop_drop]

/-- The length of a read, as `file_read` returns it. -/
lemma ret_facts {n : ℕ} (h : n ≤ buffSize) :
    Int64.ofNat n ≠ xpeError ∧ (Int64.ofNat n = 0 ↔ n = 0) := by
  have hsmall : n < 2 ^ 63 := h.trans_lt (by decide)
  refine ⟨ofNat_ne_xpeError hsmall, ?_, fun hzero => by rw [hzero]; rfl⟩
  intro heq
  have hpos := Int64.toNatClampNeg_ofNat_of_lt hsmall
  rw [heq] at hpos
  exact hpos.symm

/-- **The loop runs over what is left of the file.** -/
lemma confReadFile_eq {env : ConfEnv} {p : ConfParse} {s : OpenFile} {gots : List (Option ℕ)}
    (hgots : ∀ got ∈ gots, ∃ n, got = some n ∧ 0 < n) (hlen : s.rest.length < gots.length) :
    confReadFile env p s gots = some (
      match run (confByte env) p s.rest with
      | .error e => .error e
      | .ok p => confEnd p) := by
  induction gots generalizing p s with
  | nil => cases hlen
  | cons got gots ih =>
    obtain ⟨⟨n, rfl, hn⟩, hgots'⟩ := List.forall_mem_cons.mp hgots
    obtain ⟨hresult, hrest⟩ := read_default s n
    have hsplit := List.take_append_drop (min n buffSize) s.rest
    have hbytes : (s.rest.take (min n buffSize)).length ≤ buffSize :=
      (List.length_take_le _ _).trans (Nat.min_le_right _ _)
    have hdrop : s.rest.drop (s.rest.take (min n buffSize)).length =
        s.rest.drop (min n buffSize) := by
      rw [List.length_take]
      rcases Nat.le_total (min n buffSize) s.rest.length with hle | hle
      · rw [Nat.min_eq_left hle]
      · rw [Nat.min_eq_right hle, List.drop_length, List.drop_eq_nil_of_le hle]
    obtain ⟨hok, hzero⟩ := ret_facts hbytes
    unfold confReadFile
    simp only [hresult, if_neg hok, hzero, List.length_eq_zero_iff]
    by_cases hend : s.rest.take (min n buffSize) = []
    · have hempty : s.rest = [] := by
        have hsize : 0 < min n buffSize := Nat.lt_min.mpr ⟨hn, by decide⟩
        rcases List.take_eq_nil_iff.mp hend with hnone | hnone
        · omega
        · exact hnone
      rw [if_pos hend, hempty]
      rfl
    · rw [if_neg hend]
      have hrun := run_append (confByte env) p (s.rest.take (min n buffSize))
        (s.rest.drop (min n buffSize))
      rw [hsplit] at hrun
      rw [hrun]
      cases run (confByte env) p (s.rest.take (min n buffSize)) with
      | error e => rfl
      | ok p' =>
        have hpos := List.length_pos_of_ne_nil hend
        have hle := (List.take_sublist (min n buffSize) s.rest).length_le
        have hnext := @ih p' (s.read buffSize flDefaultOffset (some n)).2 hgots' (by
          rw [hrest, List.length_drop]
          simp only [List.length_cons] at hlen
          omega)
        rw [hrest, hdrop] at hnext
        exact hnext

/-- **The bytes of the file decide.** However much each `read` gives, the parser comes to an
end within one `read` more than the file has bytes, and does what it does with the whole
file in one piece; the offset that the `file_t` keeps plays no part. -/
theorem conf_file_contents (env : ConfEnv) (f : File) (text : List UInt8)
    (gots : List (Option ℕ)) (hgots : ∀ got ∈ gots, ∃ n, got = some n ∧ 0 < n)
    (hlen : text.length < gots.length) :
    confParseFile env ⟨f, text, 0⟩ gots = some (confFileParser env (some [.bytes text])) := by
  unfold confParseFile
  rw [confReadFile_eq (s := ⟨f, text, 0⟩) hgots hlen]
  simp only [OpenFile.rest, List.drop_zero, confFileParser]
  by_cases hempty : text = []
  · subst hempty
    rfl
  · unfold confRead
    rw [if_neg hempty]
    rfl

/-- The text in reads of two bytes, on a `file_t` whose offset has not been set. -/
theorem conf_file_contents_short :
    confParseFile ⟨[47], fun _ => true⟩ ⟨⟨12345⟩, listenText, 0⟩ (List.replicate 16 (some 2)) =
      some (confFileParser ⟨[47], fun _ => true⟩ (some [.bytes listenText])) :=
  conf_file_contents ⟨[47], fun _ => true⟩ ⟨12345⟩ listenText (List.replicate 16 (some 2))
    (fun _ hgot => ⟨2, List.eq_of_mem_replicate hgot, by decide⟩) (by decide)

end Xpipe
