import Xpipe.FileWrite
import Xpipe.Runs

/-!
# The cached offset of a file

`file_read` and `file_write` of `xfile.c` keep the offset of a file in `file_t` and leave
`lseek` out when the offset they are asked for is the one they have. `cached_offset` is that
this is never seen: over any calls on a regular file, not open with O_APPEND, they give and
store what calls do that always seek, once the kept offset is that of the kernel.
-/
namespace Xpipe
open Runs

/-- A `file_t` that is open on a file with the bytes `data`, and the offset that the kernel
keeps. -/
structure OpenFile where
  file : File
  data : List UInt8
  pos : ℕ

/-- A call of `file_read` or `file_write`. For `read` there is -1, or how much it gives at
most. -/
inductive FileOp
  | read (size : ℕ) (offset : OffT) (got : Option ℕ)
  | write (buf : FileBuffer) (offset : OffT) (d : Disk)

/-- What a call gives its caller. -/
structure FileResult where
  ret : SSizeT
  bytes : List UInt8
  deriving DecidableEq, Repr

/-- What `write` does to the bytes of a file at `pos`. -/
def overwrite (data : List UInt8) (pos : ℕ) (bytes : List UInt8) : List UInt8 :=
  if bytes = [] then data
  else data.take pos ++ List.replicate (pos - data.length) 0 ++ bytes ++
    data.drop (pos + bytes.length)

/-- The outcome of `lseek` on a regular file. -/
def seekable (offset : OffT) : Bool := 0 ≤ offset

/-- `read` and what follows it in `file_read`. -/
def OpenFile.readOn (s : OpenFile) (size : ℕ) (got : Option ℕ) : FileResult × OpenFile :=
  match got with
  | none => (⟨xpeError, []⟩, s)
  | some n =>
    let bytes := (s.data.drop s.pos).take (min n size)
    (⟨Int64.ofNat bytes.length, bytes⟩,
      { s with
        file := ⟨s.file.offset + Int64.ofNat bytes.length⟩
        pos := s.pos + bytes.length })

/-- `file_read`. -/
def OpenFile.read (s : OpenFile) (size : ℕ) (offset : OffT) (got : Option ℕ) :
    FileResult × OpenFile :=
  if offset ≠ flDefaultOffset ∧ offset ≠ s.file.offset then
    if seekable offset then
      OpenFile.readOn { s with pos := offset.toNatClampNeg, file := ⟨offset⟩ } size got
    else (⟨xpeError, []⟩, s)
  else s.readOn size got

/-- `file_write`. The kernel is where the first `write` starts, and takes what the calls of
`write` hand on. -/
def OpenFile.write (s : OpenFile) (buf : FileBuffer) (offset : OffT) (d : Disk) :
    FileResult × OpenFile :=
  let pos := if offset ≠ flDefaultOffset ∧ offset ≠ s.file.offset ∧ seekable offset = true then
    offset.toNatClampNeg else s.pos
  match fileWrite (buf.val.length + 1) s.file buf offset (seekable offset) d with
  | none => (⟨xpeError, []⟩, s)
  | some call =>
    (⟨call.ret, []⟩, ⟨call.file, overwrite s.data pos call.output, pos + call.output.length⟩)

def OpenFile.step (s : OpenFile) : FileOp → FileResult × OpenFile
  | .read size offset got => s.read size offset got
  | .write buf offset d => s.write buf offset d

/-- The results of calls, and the file after them. -/
def OpenFile.run (s : OpenFile) : List FileOp → List FileResult × OpenFile
  | [] => ([], s)
  | op :: ops => ((s.step op).1 :: ((s.step op).2.run ops).1, ((s.step op).2.run ops).2)

/-! ## Calls that always seek -/

/-- A file as its users see it: bytes and one offset. -/
structure PlainFile where
  data : List UInt8
  pos : ℕ

/-- Where a call takes place: at its own offset, or where the last one has ended. -/
def PlainFile.place (s : PlainFile) (offset : OffT) : Option ℕ :=
  if offset = flDefaultOffset then some s.pos
  else if seekable offset then some offset.toNatClampNeg
  else none

/-- The bytes that the calls of `write` hand on, and whether these are all. -/
def written (buf : FileBuffer) (d : Disk) : FileCall :=
  (fileWriteLoop d buf.val (buf.val.length + 1) 0 ⟨0⟩ 0 buf.val.length).getD ⟨⟨0⟩, xpeError, []⟩

def PlainFile.step (s : PlainFile) : FileOp → FileResult × PlainFile
  | .read size offset got =>
    match s.place offset, got with
    | none, _ => (⟨xpeError, []⟩, s)
    | some p, none => (⟨xpeError, []⟩, ⟨s.data, p⟩)
    | some p, some n =>
      let bytes := (s.data.drop p).take (min n size)
      (⟨Int64.ofNat bytes.length, bytes⟩, ⟨s.data, p + bytes.length⟩)
  | .write buf offset d =>
    match s.place offset with
    | none => (⟨xpeError, []⟩, s)
    | some p =>
      let call := written buf d
      (⟨call.ret, []⟩, ⟨overwrite s.data p call.output, p + call.output.length⟩)

def PlainFile.run (s : PlainFile) : List FileOp → List FileResult × PlainFile
  | [] => ([], s)
  | op :: ops => ((s.step op).1 :: ((s.step op).2.run ops).1, ((s.step op).2.run ops).2)

/-- The file stays below the largest `off_t`. -/
def PlainFile.Room (s : PlainFile) : FileOp → Prop
  | .read _ _ _ => True
  | .write buf offset _ => ∀ p ∈ s.place offset, p + buf.val.length < 2 ^ 63

/-- The kept offset is that of the kernel. -/
structure InStep (s : OpenFile) (p : PlainFile) : Prop where
  data : s.data = p.data
  pos : s.pos = p.pos
  offset : s.file.offset = Int64.ofNat p.pos
  small : p.pos < 2 ^ 63
  size : p.data.length < 2 ^ 63

/-! ## One call -/

/-- What is written does not depend on the kept offset. -/
lemma fileWriteLoop_file (d : Disk) (buf : List UInt8) (fuel i : ℕ) (f g : File) (w : SSizeT)
    (size : ℕ) :
    (fileWriteLoop d buf fuel i f w size).map (fun c => (c.ret, c.output)) =
      (fileWriteLoop d buf fuel i g w size).map (fun c => (c.ret, c.output)) := by
  induction fuel generalizing i f g w size with
  | zero => rfl
  | succ fuel ih =>
    unfold fileWriteLoop
    cases d.result i size with
    | none => rfl
    | some n =>
      simp only
      split_ifs
      · rfl
      · simp only [Option.map_map]
        have hrest := congrArg
          (Option.map (fun c : SSizeT × List UInt8 =>
            (c.1, ((buf.drop w.toNatClampNeg).take size).take n ++ c.2)))
          (ih (i + 1) { f with offset := f.offset + Int64.ofNat n }
            { g with offset := g.offset + Int64.ofNat n } (w + Int64.ofNat n) (size - n))
        simp only [Option.map_map] at hrest
        exact hrest

/-- The loop of `file_write` on any file. -/
lemma fileWriteLoop_written (d : Disk) (buf : FileBuffer) (f : File) :
    ∃ call, fileWriteLoop d buf.val (buf.val.length + 1) 0 f 0 buf.val.length = some call ∧
      call.ret = (written buf d).ret ∧ call.output = (written buf d).output ∧
      call.file.offset = f.offset + Int64.ofNat (written buf d).output.length ∧
      (written buf d).output.length ≤ buf.val.length := by
  obtain ⟨call, hcall, hpre, hoffset, -⟩ :=
    fileWriteLoop_start d buf.property f (Nat.lt_succ_self buf.val.length)
  obtain ⟨call', hcall', -⟩ :=
    fileWriteLoop_start d buf.property ⟨0⟩ (Nat.lt_succ_self buf.val.length)
  have hsame := fileWriteLoop_file d buf.val (buf.val.length + 1) 0 f ⟨0⟩ 0 buf.val.length
  rw [hcall, hcall', Option.map_some, Option.map_some, Option.some_inj, Prod.mk.injEq] at hsame
  have hwritten : written buf d = call' := by
    unfold written
    rw [hcall']
    rfl
  rw [hwritten]
  refine ⟨call, hcall, hsame.1, hsame.2, ?_, ?_⟩
  · rw [hoffset, hsame.2]
  · rw [← hsame.2]
    exact hpre.length_le

lemma ofNat_seekable {n : ℕ} (h : n < 2 ^ 63) :
    seekable (Int64.ofNat n) = true ∧ (Int64.ofNat n).toNatClampNeg = n := by
  refine ⟨?_, Int64.toNatClampNeg_ofNat_of_lt h⟩
  unfold seekable
  rw [decide_eq_true_iff, Int64.le_iff_toInt_le, Int64.toInt_ofNat_of_lt h]
  exact Int.natCast_nonneg n

lemma ofNat_toNatClampNeg {offset : OffT} (h : seekable offset = true) :
    Int64.ofNat offset.toNatClampNeg = offset ∧ offset.toNatClampNeg < 2 ^ 63 :=
  ⟨Int64.ofNat_toNatClampNeg offset (of_decide_eq_true h), offset.toNatClampNeg_lt⟩

lemma length_overwrite (data : List UInt8) (pos : ℕ) {bytes : List UInt8} (h : bytes ≠ []) :
    (overwrite data pos bytes).length = max data.length (pos + bytes.length) := by
  unfold overwrite
  rw [if_neg h]
  simp only [List.length_append, List.length_take, List.length_replicate, List.length_drop]
  omega

/-- Where a call takes place, in both files. -/
lemma InStep.place {s : OpenFile} {p : PlainFile} (h : InStep s p) (offset : OffT) :
    if offset ≠ flDefaultOffset ∧ offset ≠ s.file.offset then
      p.place offset = if seekable offset then some offset.toNatClampNeg else none
    else p.place offset = some p.pos := by
  unfold PlainFile.place
  by_cases hdefault : offset = flDefaultOffset
  · simp [hdefault]
  · by_cases hsame : offset = s.file.offset
    · obtain ⟨hseek, hpos⟩ := ofNat_seekable h.small
      rw [← h.offset, ← hsame] at hseek hpos
      simp [hdefault, ← hsame, hseek, hpos]
    · simp [hdefault, hsame]

/-- `read` at a place that both files have. -/
lemma InStep.readOn {s : OpenFile} {p : PlainFile} (h : InStep s p) (size n : ℕ) :
    let bytes := (p.data.drop p.pos).take (min n size)
    (s.readOn size (some n)).1 = ⟨Int64.ofNat bytes.length, bytes⟩ ∧
      InStep (s.readOn size (some n)).2 ⟨p.data, p.pos + bytes.length⟩ := by
  have hend : p.pos + ((p.data.drop p.pos).take (min n size)).length ≤ max p.pos p.data.length := by
    rw [List.length_take, List.length_drop]
    omega
  have hsmall := h.small
  have hsize := h.size
  unfold OpenFile.readOn
  simp only [h.data, h.pos]
  refine ⟨trivial, rfl, rfl, ?_, by simp only; omega, h.size⟩
  rw [h.offset, Int64.ofNat_add]

/-- The file of the code after `lseek`. -/
lemma InStep.sought {s : OpenFile} {p : PlainFile} (h : InStep s p) {offset : OffT}
    (hseek : seekable offset = true) :
    InStep { s with pos := offset.toNatClampNeg, file := ⟨offset⟩ }
      ⟨p.data, offset.toNatClampNeg⟩ := by
  obtain ⟨heq, hsmall⟩ := ofNat_toNatClampNeg hseek
  exact ⟨h.data, rfl, heq.symm, hsmall, h.size⟩

lemma InStep.read {s : OpenFile} {p : PlainFile} (h : InStep s p) (size : ℕ) (offset : OffT)
    (got : Option ℕ) :
    (s.read size offset got).1 = (p.step (.read size offset got)).1 ∧
      InStep (s.read size offset got).2 (p.step (.read size offset got)).2 := by
  have hplace := h.place offset
  unfold OpenFile.read
  simp only [PlainFile.step]
  split_ifs at hplace ⊢ with hseek hok
  · rw [hplace]
    cases got with
    | none => exact ⟨rfl, h.sought hok⟩
    | some n => exact (h.sought hok).readOn size n
  · rw [hplace]
    exact ⟨rfl, h⟩
  · rw [hplace]
    cases got with
    | none => exact ⟨rfl, h⟩
    | some n => exact h.readOn size n

/-- `write` at a place that both files have. -/
lemma InStep.writeOn {s : OpenFile} {p : PlainFile} (h : InStep s p) {buf : FileBuffer} (d : Disk)
    (hroom : p.pos + buf.val.length < 2 ^ 63) {call : FileCall}
    (hcall : fileWriteLoop d buf.val (buf.val.length + 1) 0 s.file 0 buf.val.length = some call) :
    call.ret = (written buf d).ret ∧
      InStep ⟨call.file, overwrite s.data s.pos call.output, s.pos + call.output.length⟩
        ⟨overwrite p.data p.pos (written buf d).output,
          p.pos + (written buf d).output.length⟩ := by
  obtain ⟨call', hcall', hret, hout, hoffset, hlen⟩ := fileWriteLoop_written d buf s.file
  rw [hcall] at hcall'
  cases hcall'
  have hsize := h.size
  refine ⟨hret, by simp only [h.data, h.pos, hout], by simp only [h.pos, hout], ?_, ?_, ?_⟩
  · rw [hoffset, h.offset, Int64.ofNat_add]
  · simp only
    omega
  · simp only
    by_cases hnone : (written buf d).output = []
    · rw [hnone, overwrite, if_pos rfl]
      exact hsize
    · rw [length_overwrite _ _ hnone]
      omega

lemma InStep.write {s : OpenFile} {p : PlainFile} (h : InStep s p) (buf : FileBuffer)
    (offset : OffT) (d : Disk) (hroom : p.Room (.write buf offset d)) :
    (s.write buf offset d).1 = (p.step (.write buf offset d)).1 ∧
      InStep (s.write buf offset d).2 (p.step (.write buf offset d)).2 := by
  have hplace := h.place offset
  simp only [PlainFile.Room] at hroom
  unfold OpenFile.write fileWrite
  simp only [PlainFile.step]
  by_cases hseek : offset ≠ flDefaultOffset ∧ offset ≠ s.file.offset
  · rw [if_pos hseek] at hplace
    by_cases hok : seekable offset = true
    · rw [if_pos hok] at hplace
      rw [hplace] at hroom ⊢
      obtain ⟨call, hcall, -⟩ := fileWriteLoop_written d buf ⟨offset⟩
      obtain ⟨hret, hin⟩ := (h.sought hok).writeOn d (hroom _ rfl) hcall
      have hall : offset ≠ flDefaultOffset ∧ offset ≠ s.file.offset ∧ seekable offset = true :=
        ⟨hseek.1, hseek.2, hok⟩
      rw [if_pos hall, if_pos hseek, if_pos hok]
      simp only [hcall]
      exact ⟨by rw [hret], hin⟩
    · rw [if_neg hok] at hplace
      rw [hplace]
      have hnot : ¬ (offset ≠ flDefaultOffset ∧ offset ≠ s.file.offset ∧ seekable offset = true) :=
        fun hall => hok hall.2.2
      rw [if_neg hnot, if_pos hseek, if_neg hok]
      refine ⟨rfl, ?_⟩
      simp only [overwrite, if_true, List.length_nil, Nat.add_zero]
      exact h
  · rw [if_neg hseek] at hplace
    rw [hplace] at hroom ⊢
    obtain ⟨call, hcall, -⟩ := fileWriteLoop_written d buf s.file
    obtain ⟨hret, hin⟩ := h.writeOn d (hroom _ rfl) hcall
    have hnot : ¬ (offset ≠ flDefaultOffset ∧ offset ≠ s.file.offset ∧ seekable offset = true) :=
      fun hall => hseek ⟨hall.1, hall.2.1⟩
    rw [if_neg hnot, if_neg hseek]
    simp only [hcall]
    exact ⟨by rw [hret], hin⟩

/-- **One call.** -/
lemma InStep.step {s : OpenFile} {p : PlainFile} (h : InStep s p) (op : FileOp)
    (hroom : p.Room op) : (s.step op).1 = (p.step op).1 ∧ InStep (s.step op).2 (p.step op).2 := by
  cases op with
  | read size offset got => exact h.read size offset got
  | write buf offset d => exact h.write buf offset d hroom

/-- **A run of calls.** -/
lemma InStep.run {s : OpenFile} {p : PlainFile} (h : InStep s p) {ops : List FileOp}
    (hroom : Along (fun p op => (PlainFile.step p op).2) PlainFile.Room p ops) :
    (s.run ops).1 = (p.run ops).1 ∧ InStep (s.run ops).2 (p.run ops).2 := by
  induction ops generalizing s p with
  | nil => exact ⟨rfl, h⟩
  | cons op ops ih =>
    obtain ⟨hresult, hnext⟩ := h.step op hroom.1
    obtain ⟨hresults, hend⟩ := ih hnext hroom.2
    exact ⟨by simp only [OpenFile.run, PlainFile.run, hresult, hresults], hend⟩

/-- **The cached offset is never seen.** From a file whose kept offset is the kernel's, any
calls of `file_read` and `file_write`, at any offsets and with any results of `read` and
`write`, give their callers and store in the file what calls do that seek to their place
each time, and leave the two offsets equal; as long as no call could pass the largest
`off_t`. -/
theorem cached_offset (data : List UInt8) (pos : ℕ) (hdata : data.length < 2 ^ 63)
    (hpos : pos < 2 ^ 63) (ops : List FileOp)
    (hroom : Along (fun p op => (PlainFile.step p op).2) PlainFile.Room ⟨data, pos⟩ ops) :
    let s := OpenFile.run ⟨⟨Int64.ofNat pos⟩, data, pos⟩ ops
    let p := PlainFile.run ⟨data, pos⟩ ops
    s.1 = p.1 ∧ s.2.data = p.2.data ∧ s.2.pos = p.2.pos ∧
      s.2.file.offset = Int64.ofNat p.2.pos := by
  obtain ⟨hresults, hend⟩ := InStep.run (s := ⟨⟨Int64.ofNat pos⟩, data, pos⟩) (p := ⟨data, pos⟩)
    ⟨rfl, rfl, rfl, hpos, hdata⟩ hroom
  exact ⟨hresults, hend.data, hend.pos, hend.offset⟩

/-- A `write` at offset 2, a `read` at the offset that is kept then, and one back at 1. -/
def threeOps : List FileOp :=
  [.write ⟨[7, 8], by decide⟩ 2 shortDisk, .read 4 4 (some 9), .read 2 1 (some 9)]

theorem cached_offset_three :
    (OpenFile.run ⟨⟨Int64.ofNat 0⟩, [1, 2, 3, 4, 5], 0⟩ threeOps).1 =
      [⟨2, []⟩, ⟨1, [5]⟩, ⟨2, [2, 7]⟩] := by
  have hroom : Along (fun p op => (PlainFile.step p op).2) PlainFile.Room ⟨[1, 2, 3, 4, 5], 0⟩
      threeOps := by
    refine ⟨fun p hp => ?_, trivial, trivial, trivial⟩
    obtain rfl := Option.mem_some_iff.mp hp
    decide
  exact (cached_offset [1, 2, 3, 4, 5] 0 (by decide) (by decide) threeOps hroom).1

end Xpipe
