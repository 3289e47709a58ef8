import Xpipe.Decoding

/-!
# The file of the process id

`process_daemon` of `xpipe.c`. The child opens the file with `O_WRONLY|O_CREAT`, so that what
is there is written over from the start and not cut off. Read back, the file names the
process only if no numeral written before was longer.
-/
namespace Xpipe

/-- What `fork` returns: -1, the child, or 0 in the child itself. -/
inductive Fork
  | failed
  | parent
  | child (pid : ℕ)
deriving DecidableEq

/-- The outcomes of the calls of `process_daemon`: `fork`, the `open` of the file, and the
bytes that `write` has taken. -/
structure DaemonOutcomes where
  fork : Fork
  opens : Bool
  written : Option ℕ

/-- How `process_daemon` ends: it returns, or the process exits. -/
inductive DaemonEnd
  | ok
  | error
  | exited
deriving DecidableEq

/-- A `write` at the start of a file that takes `n` bytes of `text`. -/
def writtenOver (file text : List UInt8) (n : ℕ) : List UInt8 :=
  text.take n ++ file.drop (text.take n).length

/-- `process_daemon`, on a file with the given bytes: how it ends, and the file then. -/
def processDaemon (daemon : Bool) (o : DaemonOutcomes) (file : List UInt8) :
    DaemonEnd × List UInt8 :=
  if !daemon then (.ok, file)
  else
    match o.fork with
    | .failed => (.exited, file)
    | .parent => (.exited, file)
    | .child pid =>
      if !o.opens then (.error, file)
      else
        let buffer := numeralOf pid
        match o.written with
        | none => (.error, file)
        | some n =>
          (if n = buffer.length then .ok else .error, writtenOver file buffer n)

/-- The bytes that a call writes. -/
def pidBytes (o : DaemonOutcomes) : List UInt8 :=
  match o.fork, o.opens, o.written with
  | .child pid, true, some n => (numeralOf pid).take n
  | _, _, _ => []

lemma processDaemon_file (o : DaemonOutcomes) (file : List UInt8) :
    (processDaemon true o file).2 = pidBytes o ++ file.drop (pidBytes o).length := by
  unfold processDaemon pidBytes
  cases o.fork with
  | failed => rfl
  | parent => rfl
  | child pid =>
    cases o.opens with
    | false => rfl
    | true =>
      cases o.written with
      | none => rfl
      | some n => rfl

/-- The file after the calls of one process after another. -/
def pidFile (file : List UInt8) (os : List DaemonOutcomes) : List UInt8 :=
  os.foldl (fun file o => (processDaemon true o file).2) file

/-- The file is as long as the longest that was written. -/
lemma pidFile_length_le_iff (file : List UInt8) (os : List DaemonOutcomes) (k : ℕ) :
    (pidFile file os).length ≤ k ↔ file.length ≤ k ∧ ∀ o ∈ os, (pidBytes o).length ≤ k := by
  induction os generalizing file with
  | nil => simp [pidFile]
  | cons o os ih =>
    have hstep : pidFile file (o :: os) = pidFile (processDaemon true o file).2 os := rfl
    rw [hstep, ih, processDaemon_file, List.length_append, List.length_drop, List.forall_mem_cons]
    constructor
    · rintro ⟨hlen, hos⟩
      exact ⟨by omega, by omega, hos⟩
    · rintro ⟨hfile, ho, hos⟩
      exact ⟨by omega, hos⟩

lemma pidBytes_digits (o : DaemonOutcomes) : All isDigit (pidBytes o) := by
  unfold pidBytes
  split
  · rename_i pid n _ _ _
    exact fun c hc => numeralOf_digits pid c (List.mem_of_mem_take hc)
  · exact fun c hc => absurd hc List.not_mem_nil

/-- Only digits are written. -/
lemma pidFile_digits {file : List UInt8} (hfile : All isDigit file) (os : List DaemonOutcomes) :
    All isDigit (pidFile file os) := by
  induction os generalizing file with
  | nil => exact hfile
  | cons o os ih =>
    have hstep : All isDigit (processDaemon true o file).2 := by
      rw [processDaemon_file]
      intro c hc
      rcases List.mem_append.mp hc with hnew | hold
      · exact pidBytes_digits o c hnew
      · exact hfile c (List.mem_of_mem_drop hold)
    exact ih hstep

lemma decimal_append (as bs : List UInt8) :
    decimal (as ++ bs) = decimal as * 10 ^ bs.length + decimal bs := by
  induction bs using List.reverseRecOn with
  | nil => simp [decimal]
  | append_singleton bs c ih =>
    have hsnoc (cs : List UInt8) : decimal (cs ++ [c]) = 10 * decimal cs + (c.toNat - 48) := by
      simp [decimal]
    rw [← List.append_assoc, hsnoc, hsnoc, ih, List.length_append, List.length_singleton, pow_succ]
    ring

lemma processDaemon_ok {o : DaemonOutcomes} {file : List UInt8}
    (h : (processDaemon true o file).1 = .ok) :
    ∃ pid, o.fork = .child pid ∧ pidBytes o = numeralOf pid := by
  unfold processDaemon at h
  unfold pidBytes
  cases hfork : o.fork with
  | failed => simp [hfork] at h
  | parent => simp [hfork] at h
  | child pid =>
    refine ⟨pid, rfl, ?_⟩
    cases hopen : o.opens with
    | false => simp [hfork, hopen] at h
    | true =>
      cases hwritten : o.written with
      | none => simp [hfork, hopen, hwritten] at h
      | some n =>
        simp only [hfork, hopen, hwritten, Bool.not_true, Bool.false_eq_true, if_false] at h
        have hall : n = (numeralOf pid).length := by
          by_contra hne
          simp [hne] at h
        rw [hall]
        exact List.take_length

/-- **What the file names.** After any history of starts on a file that was not there, with
failures of every kind, and then a start that succeeds, the file holds digits. They are the
number of the process exactly when no start before has written more digits than its number
has; otherwise they are a larger number. -/
theorem pid_file_names (os : List DaemonOutcomes) (o : DaemonOutcomes) (pid : ℕ) (hpid : 0 < pid)
    (hfork : o.fork = .child pid) (hok : (processDaemon true o (pidFile [] os)).1 = .ok)
    (file : List UInt8) (hfile : file = (processDaemon true o (pidFile [] os)).2) :
    All isDigit file ∧ pid ≤ decimal file ∧
      (decimal file = pid ↔ ∀ o' ∈ os, (pidBytes o').length ≤ (numeralOf pid).length) := by
  obtain ⟨pid', hfork', hbytes⟩ := processDaemon_ok hok
  obtain rfl : pid = pid' := Fork.child.inj (hfork.symm.trans hfork')
  have hdigits : All isDigit (pidFile [] (os ++ [o])) :=
    pidFile_digits (fun c hc => absurd hc List.not_mem_nil) _
  have hlast : file = pidFile [] (os ++ [o]) := by
    rw [hfile, pidFile, pidFile, List.foldl_append]
    rfl
  rw [processDaemon_file, hbytes] at hfile
  have hvalue : decimal file = pid * 10 ^ ((pidFile [] os).drop (numeralOf pid).length).length +
      decimal ((pidFile [] os).drop (numeralOf pid).length) := by
    rw [hfile, decimal_append, decimal_numeralOf]
  have hlong := pidFile_length_le_iff [] os (numeralOf pid).length
  rw [List.length_nil] at hlong
  have hcut : (pidFile [] os).drop (numeralOf pid).length = [] ↔
      ∀ o' ∈ os, (pidBytes o').length ≤ (numeralOf pid).length := by
    rw [List.drop_eq_nil_iff, hlong]
    exact and_iff_right (Nat.zero_le _)
  rw [← hcut]
  refine ⟨hlast ▸ hdigits, ?_, ?_⟩
  · rw [hvalue]
    exact (Nat.le_mul_of_pos_right pid (by positivity)).trans (Nat.le_add_right _ _)
  · constructor
    · intro heq
      by_contra hne
      -- a digit of an older numeral behind it makes the number larger
      have hpow : 10 ≤ 10 ^ ((pidFile [] os).drop (numeralOf pid).length).length :=
        Nat.le_self_pow (fun hzero => hne (List.eq_nil_of_length_eq_zero hzero)) 10
      have hlarge : pid * 10 ≤ pid * 10 ^ ((pidFile [] os).drop (numeralOf pid).length).length :=
        Nat.mul_le_mul_left pid hpow
      omega
    · intro hnil
      rw [hvalue, hnil]
      simp [decimal]

/-- Process 500 after process 12345: the file says 50045. -/
theorem pid_file_names_old :
    decimal (processDaemon true ⟨.child 500, true, some 3⟩
      (pidFile [] [⟨.child 12345, true, some 5⟩])).2 ≠ 500 := by
  intro heq
  have hnames := (pid_file_names [⟨.child 12345, true, some 5⟩] ⟨.child 500, true, some 3⟩ 500
    (by norm_num) rfl (by simp [processDaemon, numeralOf]) _ rfl).2.2
  have hshort := hnames.mp heq ⟨.child 12345, true, some 5⟩ List.mem_cons_self
  simp [pidBytes, numeralOf] at hshort

end Xpipe
