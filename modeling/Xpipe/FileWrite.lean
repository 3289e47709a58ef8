import Mathlib.Data.List.Basic
import Mathlib.Tactic

/-!
# Writing to a file

`file_write` of `xfile.c` keeps three quantities in step: the bytes written so far, the
size that is left, and the offset of the file. The results of `lseek` and of the calls of
`write` are inputs, and the model notes the bytes that each `write` has taken. It does not
assume that the calls of `write` come to an end.
-/
namespace Xpipe

/-- `ssize_t`. -/
abbrev SSizeT := Int64

/-- `off_t`. -/
abbrev OffT := Int64

/-- `XPE_ERROR`, as `file_write` returns it. -/
def xpeError : SSizeT := -1

/-- `FL_DEFAULT_OFFSET`. -/
def flDefaultOffset : OffT := -1

/-- `file_t`. -/
structure File where
  offset : OffT
  deriving DecidableEq, Repr

/-- The bytes of an object of C, which has less than `2 ^ 63` of them. -/
abbrev FileBuffer := { bytes : List UInt8 // bytes.length < 2 ^ 63 }

/-- The file system during one call: what the `i`-th `write` returns for an offer of `k`
bytes, where `none` is -1. It takes at least one byte of an offer that is not empty, and
no more than the offer. -/
structure Disk where
  result : ℕ → ℕ → Option ℕ
  allowed : ∀ i k n, result i k = some n → n ≤ k ∧ (0 < k → 0 < n)

/-- A finished call of `file_write`: the file, the value returned, and the bytes that were
handed to the file. -/
structure FileCall where
  file : File
  ret : SSizeT
  output : List UInt8
  deriving DecidableEq, Repr

/-- The call as seen from one `write` before it, which took `text`. -/
def FileCall.after (text : List UInt8) (call : FileCall) : FileCall :=
  { call with output := text ++ call.output }

/-- The loop of `file_write` from its `i`-th `write` on, which offers `size` bytes at
`buf + written`. `none`: it has not ended after `fuel` more of them. -/
def fileWriteLoop (d : Disk) (buf : List UInt8) :
    ℕ → ℕ → File → SSizeT → ℕ → Option FileCall
  | 0, _, _, _, _ => none
  | fuel + 1, i, f, written, size =>
    let offer := (buf.drop written.toNatClampNeg).take size
    match d.result i size with
    | none => some ⟨f, xpeError, []⟩
    | some n =>
      let f := { f with offset := f.offset + Int64.ofNat n }
      let written := written + Int64.ofNat n
      if n = size then some ⟨f, written, offer.take n⟩
      else (fileWriteLoop d buf fuel (i + 1) f written (size - n)).map
        (FileCall.after (offer.take n))

/-- `file_write`; `seek` is the outcome of its `lseek`. -/
def fileWrite (fuel : ℕ) (f : File) (buf : FileBuffer) (offset : OffT) (seek : Bool) (d : Disk) :
    Option FileCall :=
  if offset ≠ flDefaultOffset ∧ offset ≠ f.offset then
    if seek then fileWriteLoop d buf.val fuel 0 { f with offset := offset } 0 buf.val.length
    else some ⟨f, xpeError, []⟩
  else fileWriteLoop d buf.val fuel 0 f 0 buf.val.length

/-- The offset that is chosen for a call. -/
def File.start (f : File) (offset : OffT) : OffT :=
  if offset = flDefaultOffset then f.offset else offset

/-- The file is at that offset, or `lseek` takes it there. -/
def File.Sought (f : File) (offset : OffT) (seek : Bool) : Prop :=
  offset = flDefaultOffset ∨ offset = f.offset ∨ seek = true

instance (f : File) (offset : OffT) (seek : Bool) : Decidable (f.Sought offset seek) :=
  inferInstanceAs (Decidable (_ ∨ _))

/-- **The loop**, with `k` bytes written and some left: it ends, hands on the bytes from
the `k`-th on, moves the offset by their number, and returns the size of the buffer if
they are all that was left. -/
lemma fileWriteLoop_ends (d : Disk) {buf : List UInt8} (hbuf : buf.length < 2 ^ 63)
    {fuel i k : ℕ} {f : File} (hk : k < buf.length) (hfuel : buf.length - k < fuel) :
    ∃ n call, k + n ≤ buf.length ∧
      fileWriteLoop d buf fuel i f (Int64.ofNat k) (buf.length - k) = some call ∧
      call.output = (buf.drop k).take n ∧ call.file.offset = f.offset + Int64.ofNat n ∧
      call.ret = if k + n = buf.length then Int64.ofNat buf.length else xpeError := by
  induction fuel generalizing i k f with
  | zero => omega
  | succ fuel ih =>
    have hwritten : (Int64.ofNat k).toNatClampNeg = k :=
      Int64.toNatClampNeg_ofNat_of_lt (hk.trans hbuf)
    have hoffer : (buf.drop k).take (buf.length - k) = buf.drop k :=
      List.take_of_length_le (by rw [List.length_drop])
    unfold fileWriteLoop
    simp only [hwritten, hoffer]
    cases hres : d.result i (buf.length - k) with
    | none =>
      refine ⟨0, _, by omega, rfl, rfl, ?_, ?_⟩
      · exact (Int64.add_zero f.offset).symm
      · rw [if_neg (by omega)]
    | some n =>
      obtain ⟨hle, hpos⟩ := d.allowed i _ n hres
      simp only
      split_ifs with hall
      · refine ⟨n, _, by omega, rfl, rfl, rfl, ?_⟩
        have hsum : k + n = buf.length := by omega
        rw [if_pos hsum, ← hsum, Int64.ofNat_add]
      · -- a short write: what is left is smaller, and the three quantities stay in step
        have hsize : buf.length - k - n = buf.length - (k + n) := by omega
        obtain ⟨m, call, hm, hcall, hout, hoffset, hret⟩ :=
          @ih (i + 1) (k + n) { f with offset := f.offset + Int64.ofNat n } (by omega) (by omega)
        rw [hsize, ← Int64.ofNat_add, hcall]
        refine ⟨n + m, _, by omega, rfl, ?_, ?_, ?_⟩
        · rw [FileCall.after, hout, List.take_add, List.drop_drop]
        · rw [FileCall.after, hoffset, Int64.ofNat_add, Int64.add_assoc]
        · rw [FileCall.after, hret, Nat.add_assoc]

lemma ofNat_ne_xpeError {n : ℕ} (h : n < 2 ^ 63) : Int64.ofNat n ≠ xpeError := by
  intro heq
  have hint : (n : ℤ) = -1 := by
    rw [← Int64.toInt_ofNat_of_lt h, heq]
    rfl
  omega

/-- What the loop does from its start. Of an empty buffer everything is written before the
first `write`, whose failure is an error all the same. -/
lemma fileWriteLoop_start (d : Disk) {buf : List UInt8} (hbuf : buf.length < 2 ^ 63) {fuel : ℕ}
    (f : File) (hfuel : buf.length < fuel) :
    ∃ call, fileWriteLoop d buf fuel 0 f 0 buf.length = some call ∧ call.output <+: buf ∧
      call.file.offset = f.offset + Int64.ofNat call.output.length ∧
      call.ret = if call.output = buf ∧ (buf = [] → d.result 0 0 ≠ none) then
        Int64.ofNat buf.length else xpeError := by
  by_cases hempty : buf = []
  · subst hempty
    cases fuel with
    | zero => cases hfuel
    | succ fuel =>
      unfold fileWriteLoop
      cases hres : d.result 0 0 with
      | none =>
        refine ⟨⟨f, xpeError, []⟩, rfl, List.prefix_rfl, ?_, ?_⟩
        · exact (Int64.add_zero f.offset).symm
        · simp
      | some n =>
        have hn : n = 0 := Nat.le_zero.mp (d.allowed 0 0 n hres).1
        subst hn
        refine ⟨_, rfl, List.prefix_rfl, rfl, ?_⟩
        simp
  · have hpos : 0 < buf.length := List.length_pos_of_ne_nil hempty
    obtain ⟨n, call, hn, hcall, hout, hoffset, hret⟩ :=
      @fileWriteLoop_ends d buf hbuf fuel 0 0 f hpos hfuel
    rw [List.drop_zero] at hout
    rw [Nat.zero_add] at hn hret
    have hlen : call.output.length = n := by
      rw [hout, List.length_take, Nat.min_eq_left hn]
    have hall : call.output = buf ↔ n = buf.length := by
      constructor
      · intro heq
        rw [← hlen, heq]
      · intro heq
        rw [hout, heq, List.take_length]
    refine ⟨call, hcall, ?_, ?_, ?_⟩
    · rw [hout]
      exact List.take_prefix n buf
    · rw [hlen]
      exact hoffset
    · simp only [hret, hall, hempty, false_imp_iff, and_true]

/-- **`file_write` writes the buffer once and in order.** With any results of `lseek` and
`write` the call ends, within one `write` more than the buffer has bytes. What the file was
handed is a prefix of the buffer, and its offset has moved from the chosen one by the
number of these bytes. The size of the buffer is returned exactly when all of it was
written and, if it is empty, no call has failed; else it is `XPE_ERROR`. -/
theorem file_write_in_order {fuel : ℕ} (f : File) (buf : FileBuffer) (offset : OffT)
    (seek : Bool) (d : Disk) (hfuel : buf.val.length < fuel) :
    ∃ call, fileWrite fuel f buf offset seek d = some call ∧ call.output <+: buf.val ∧
      (f.Sought offset seek →
        call.file.offset = f.start offset + Int64.ofNat call.output.length) ∧
      (¬ f.Sought offset seek → call.file = f ∧ call.output = []) ∧
      (call.ret = Int64.ofNat buf.val.length ↔ call.output = buf.val ∧
        (buf.val = [] → f.Sought offset seek ∧ d.result 0 0 ≠ none)) ∧
      (call.ret = Int64.ofNat buf.val.length ∨ call.ret = xpeError) := by
  have hne := ofNat_ne_xpeError buf.property
  by_cases hsought : f.Sought offset seek
  · -- the loop runs on a file that stands at the chosen offset
    have hrun : fileWrite fuel f buf offset seek d =
        fileWriteLoop d buf.val fuel 0 ⟨f.start offset⟩ 0 buf.val.length := by
      unfold fileWrite File.start
      unfold File.Sought at hsought
      by_cases hdefault : offset = flDefaultOffset
      · simp [hdefault]
      · by_cases hsame : offset = f.offset
        · simp [hsame]
        · have hseek : seek = true := by tauto
          simp [hdefault, hsame, hseek]
    obtain ⟨call, hcall, hpre, hoffset, hret⟩ :=
      fileWriteLoop_start d buf.property ⟨f.start offset⟩ hfuel
    refine ⟨call, hrun.trans hcall, hpre, fun _ => hoffset, fun h => absurd hsought h, ?_, ?_⟩
    · rw [hret]
      split_ifs with hall
      · simp only [true_iff]
        exact ⟨hall.1, fun h => ⟨hsought, hall.2 h⟩⟩
      · simp only [hne.symm, false_iff]
        exact fun h => hall ⟨h.1, fun hnil => (h.2 hnil).2⟩
    · rw [hret]
      split_ifs
      · exact Or.inl rfl
      · exact Or.inr rfl
  · have hfail : fileWrite fuel f buf offset seek d = some ⟨f, xpeError, []⟩ := by
      simp only [File.Sought, not_or, Bool.not_eq_true] at hsought
      simp [fileWrite, hsought]
    refine ⟨_, hfail, List.nil_prefix, fun h => absurd h hsought, fun _ => ⟨rfl, rfl⟩, ?_,
      Or.inr rfl⟩
    simp only [hne.symm, false_iff]
    exact fun h => hsought (h.2 h.1.symm).1

/-- A file system that takes two bytes and then fails. -/
def shortDisk : Disk where
  result i k := if i = 0 then some (min 2 k) else none
  allowed i k n h := by
    split_ifs at h
    · cases h
      omega

/-- Three bytes at offset 10, of which two are written. -/
theorem file_write_in_order_short :
    ∃ call, fileWrite 4 ⟨0⟩ ⟨[1, 2, 3], by decide⟩ 10 true shortDisk = some call ∧
      call.output <+: [1, 2, 3] ∧ call.file.offset = 10 + Int64.ofNat call.output.length := by
  obtain ⟨call, hcall, hpre, hoffset, -⟩ :=
    file_write_in_order ⟨0⟩ ⟨[1, 2, 3], by decide⟩ 10 true shortDisk (by decide : 3 < 4)
  exact ⟨call, hcall, hpre, hoffset (by decide)⟩

/-- A file system on which `write` fails. -/
def fullDisk : Disk where
  result _ _ := none
  allowed _ _ _ h := by cases h

/-- An empty buffer is written as a whole before `write` fails; `XPE_ERROR` is returned. -/
theorem file_write_in_order_empty :
    ¬ ∀ (fuel : ℕ) (f : File) (buf : FileBuffer) (offset : OffT) (d : Disk),
      buf.val.length < fuel → ∃ call, fileWrite fuel f buf offset true d = some call ∧
        (call.ret = Int64.ofNat buf.val.length ↔ call.output = buf.val) := by
  intro h
  obtain ⟨call, hcall, hiff⟩ := h 1 ⟨0⟩ ⟨[], by decide⟩ flDefaultOffset fullDisk (by decide)
  have hfail : call = ⟨⟨0⟩, xpeError, []⟩ := (Option.some.inj hcall).symm
  rw [hfail] at hiff
  exact absurd (hiff.mpr rfl) (by decide)

end Xpipe
