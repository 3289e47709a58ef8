import Xpipe.Aborts
import Xpipe.Admission

/-!
# The working loop of the process

`system_modules_working` with `process_network_mod`, and the signals that
`setup_signals` arranges for. SIGHUP and SIGPIPE are ignored; the handler of SIGTERM sets
`stop`, and, as it is installed with SA_RESETHAND, only once: a second SIGTERM ends the
process where it is. `process_mod` of `main` is NULL, and `process_events` never returns
`EVENT_ERROR`, so that the branch which logs a failed module is not reached.

The loop looks at `stop` only between two batches. A run of the process is a run of the
server in the order of its calls, and what is proved of the server holds here.
-/
namespace Xpipe
open Linked Runs

/-- The signals of `setup_signals`. -/
inductive Signal
  | hup
  | pipe
  | term
deriving DecidableEq

/-- Where the process is: at the condition of the loop, in `epoll_wait`, in the loop of
`process_events`, in `timer_update`, or no more there. -/
inductive Place
  | condition
  | polling
  | dispatching
  | timer
  | returned
  | killed
deriving DecidableEq

/-- The process; `handled` tells whether SIGTERM still has its handler. -/
structure Process where
  net : Net
  stop : Bool
  handled : Bool
  place : Place

/-- What happens next: a signal comes, or the process goes on, with what the kernel
answers to its next call. -/
inductive Happening
  | signal (sig : Signal)
  | advance (reports : List (ℕ × Mask)) (o : Outcomes)

/-- The loop is over. -/
def Process.Over (p : Process) : Prop := p.place = .returned ∨ p.place = .killed

instance (p : Process) : Decidable p.Over :=
  inferInstanceAs (Decidable (p.place = .returned ∨ p.place = .killed))

/-- A signal, with `sig_term_handler`. -/
def deliver (p : Process) : Signal → Process
  | .hup => p
  | .pipe => p
  | .term =>
    if p.Over then p
    else if p.handled then { p with stop := true, handled := false }
    else { p with place := .killed }

/-- The process has called through a NULL handler, or given `free` an address inside a
pool. -/
def Net.Fatal (s : Net) : Prop := s.crashed = true ∨ s.trace.aborted = true

instance (s : Net) : Decidable s.Fatal := inferInstanceAs (Decidable (_ ∨ _))

lemma Net.not_fatal_iff (s : Net) :
    ¬ s.Fatal ↔ s.crashed = false ∧ s.trace.aborted = false := by
  simp [Net.Fatal]

/-- The process after a step of `process_events`. -/
def Process.serve (p : Process) (i : Input) : Process :=
  let net := netStep p.net i
  { p with
    net := net
    place := if net.Fatal then .killed else if net.cursor = none then .timer else .dispatching }

/-- The next step of `system_modules_working`. -/
def systemModulesWorking (p : Process) (reports : List (ℕ × Mask)) (o : Outcomes) : Process :=
  match p.place with
  | .condition => { p with place := if p.stop then .returned else .polling }
  | .polling => p.serve (.poll reports)
  | .dispatching => p.serve (.dispatch o)
  | .timer => { p with place := .condition }
  | .returned => p
  | .killed => p

def processStep (p : Process) : Happening → Process
  | .signal sig => deliver p sig
  | .advance reports o => systemModulesWorking p reports o

/-- The process when `system_modules_working` is called. -/
def working (s : Net) : Process where
  net := s
  stop := false
  handled := true
  place := .condition

/-- The step that the server takes. -/
def Process.input (p : Process) : Happening → Option Input
  | .signal _ => none
  | .advance reports o =>
    match p.place with
    | .polling => some (.poll reports)
    | .dispatching => some (.dispatch o)
    | _ => none

/-- The steps that the server takes in a run of the process. -/
def serverInputs : Process → List Happening → List Input
  | _, [] => []
  | p, x :: xs => (p.input x).toList ++ serverInputs (processStep p x) xs

/-- The batches are what `epoll_wait` may report. -/
def BatchesValid (p : Process) (x : Happening) : Prop :=
  ∀ i, p.input x = some i → PollsValid p.net i

/-! ## The server in the process -/

lemma processStep_net (p : Process) (x : Happening) :
    (processStep p x).net = (p.input x).toList.foldl netStep p.net := by
  cases x with
  | signal sig =>
    cases sig with
    | hup => rfl
    | pipe => rfl
    | term =>
      simp only [processStep, deliver]
      split_ifs <;> rfl
  | advance reports o =>
    simp only [processStep, systemModulesWorking, Process.input]
    cases p.place <;> rfl

/-- **A run of the process is a run of the server.** -/
lemma foldl_processStep_net (p : Process) (xs : List Happening) :
    (xs.foldl processStep p).net = (serverInputs p xs).foldl netStep p.net := by
  induction xs generalizing p with
  | nil => rfl
  | cons x xs ih =>
    rw [List.foldl_cons, ih, serverInputs, List.foldl_append, processStep_net]

lemma along_serverInputs {p : Process} {xs : List Happening}
    (h : Along processStep BatchesValid p xs) :
    Along netStep PollsValid p.net (serverInputs p xs) := by
  induction xs generalizing p with
  | nil => trivial
  | cons x xs ih =>
    rw [serverInputs, along_append]
    have hrest := ih h.2
    rw [processStep_net] at hrest
    refine ⟨?_, hrest⟩
    cases hx : p.input x with
    | none => trivial
    | some i => exact ⟨h.1 i hx, trivial⟩

/-! ## Between two batches -/

/-- What is left of the batch when the process is at its place. -/
def Place.Leaves : Place → List ℕ → Prop
  | .dispatching, act => act ≠ []
  | .killed, _ => True
  | _, act => act = []

/-- The server is wired, with `act` the rest of the batch. -/
structure Process.Works (p : Process) (act : List ℕ) : Prop where
  wired : ∃ free, Wired p.net free act
  fds : Fds p.net none
  leaves : p.place.Leaves act
  alive : p.place ≠ .killed → ¬ p.net.Fatal

lemma Process.Works.deliver {p : Process} {act : List ℕ} (h : p.Works act) (sig : Signal) :
    (deliver p sig).Works act := by
  cases sig with
  | hup => exact h
  | pipe => exact h
  | term =>
    unfold Xpipe.deliver
    split_ifs with hover hhandled
    · exact h
    · exact ⟨h.wired, h.fds, h.leaves, h.alive⟩
    · exact ⟨h.wired, h.fds, trivial, fun hne => absurd rfl hne⟩

/-- After a step of `process_events` the place tells what is left of the batch. -/
lemma Process.serve_works {p : Process} {act : List ℕ} {i : Input} {free : List ℕ}
    (hw : Wired (netStep p.net i) free act) (hf : Fds (netStep p.net i) none) :
    (p.serve i).Works act := by
  refine ⟨⟨free, hw⟩, hf, ?_, ?_⟩
  · simp only [Process.serve]
    split_ifs with hfatal hcursor
    · trivial
    · have hact := hw.actList
      rw [hcursor] at hact
      exact hact.head_none
    · rintro rfl
      exact hcursor hw.actList
  · simp only [Process.serve]
    exact fun hplace hfatal => hplace (if_pos hfatal)

lemma Wired.length_le {s : Net} {free act : List ℕ} (h : Wired s free act) :
    act.length ≤ s.count := by
  have hsub : act ⊆ List.range s.count := by
    intro e he
    exact h.parts.mem_iff.mp (List.mem_append_right free (h.inUse e he))
  have hlen := (List.subperm_of_subset h.nodup hsub).length_le
  rwa [List.length_range] at hlen

/-- What is left to do before the process looks at `stop` again, and does it. -/
def Place.left (count : ℕ) (act : List ℕ) : Place → ℕ
  | .condition => 1
  | .timer => 2
  | .dispatching => act.length + 2
  | .polling => count + 3
  | .returned => 0
  | .killed => 0

lemma Process.over_of_left {p : Process} {act : List ℕ}
    (h : p.place.left p.net.count act = 0) : p.Over := by
  cases hplace : p.place <;> simp [hplace, Place.left] at h
  · exact Or.inl hplace
  · exact Or.inr hplace

/-- **One step of the process**: the place and the rest of the batch stay in agreement,
and once `stop` is set the process gets nearer to its end. -/
lemma Process.Works.advance {p : Process} {act : List ℕ} (h : p.Works act)
    (reports : List (ℕ × Mask)) (o : Outcomes) (hbatch : BatchesValid p (.advance reports o)) :
    ∃ act', (systemModulesWorking p reports o).Works act' ∧
      (p.stop = true → (systemModulesWorking p reports o).place.left p.net.count act' <
        p.place.left p.net.count act ∨ p.Over) := by
  obtain ⟨free, hw⟩ := h.wired
  have hleaves := h.leaves
  have halive := h.alive
  unfold systemModulesWorking
  cases hplace : p.place with
  | condition =>
    rw [hplace] at hleaves halive
    refine ⟨act, ⟨⟨free, hw⟩, h.fds, ?_, fun _ => halive (by simp)⟩, fun hstop => ?_⟩
    · cases p.stop <;> exact hleaves
    · simp [hstop, Place.left]
  | polling =>
    rw [hplace] at hleaves halive
    obtain rfl : act = [] := hleaves
    have hcur : p.net.cursor = none := hw.actList
    have hreported : Reported (p.net.count / 2) p.net.kernel reports :=
      hbatch (.poll reports) (by simp [Process.input, hplace])
    have hpoll : netStep p.net (.poll reports) = poll p.net reports := by
      simp [netStep, ((Net.not_fatal_iff _).mp (halive (by simp))).1, hcur]
    obtain ⟨hw', hf'⟩ := poll_wired hw h.fds hreported
    have hcount : (poll p.net reports).count = p.net.count := by
      unfold poll
      rw [(foldl_pollOne reports p.net).rest]
    have hlen := hw'.length_le
    rw [hcount] at hlen
    rw [← hpoll] at hw' hf'
    refine ⟨_, Process.serve_works hw' hf', fun _ => Or.inl ?_⟩
    simp only [Process.serve]
    split_ifs
    · simp [Place.left]
    · simp [Place.left]
    · simp only [Place.left]
      omega
  | dispatching =>
    rw [hplace] at hleaves halive
    have hne : act ≠ [] := hleaves
    obtain ⟨e, rest, rfl⟩ := List.exists_cons_of_ne_nil hne
    have hcur : p.net.cursor = some e := hw.actList.1
    obtain ⟨free', act', hw', hf', hact⟩ := dispatch_wired hw h.fds o
    have hc := ((Net.not_fatal_iff _).mp (halive (by simp))).1
    rw [← netStep_dispatch hc hcur o] at hw' hf' hact
    refine ⟨act', Process.serve_works hw' hf', fun _ => Or.inl ?_⟩
    simp only [Process.serve]
    split_ifs with hfatal
    · simp [Place.left]
    · simp [Place.left]
    · obtain rfl := hact ((Net.not_fatal_iff _).mp hfatal).1
      simp [Place.left]
  | timer =>
    rw [hplace] at hleaves halive
    refine ⟨act, ⟨⟨free, hw⟩, h.fds, hleaves, fun _ => halive (by simp)⟩, fun _ => ?_⟩
    simp [Place.left]
  | returned => exact ⟨act, h, fun _ => Or.inr (Or.inl hplace)⟩
  | killed => exact ⟨act, h, fun _ => Or.inr (Or.inr hplace)⟩

/-! ## Whole runs -/

/-- What holds of the process in its loop. -/
structure Process.Sound (n : ℕ) (p : Process) : Prop where
  works : ∃ act, p.Works act
  count : p.net.count = n
  handled : p.handled = !p.stop
  returned : p.place = .returned → p.stop = true

lemma processStep_count (p : Process) (x : Happening) :
    (processStep p x).net.count = p.net.count := by
  rw [processStep_net]
  cases p.input x with
  | none => rfl
  | some i => exact (netStep_fixed p.net i).1

lemma deliver_over {p : Process} (h : p.Over) (sig : Signal) : deliver p sig = p := by
  cases sig with
  | hup => rfl
  | pipe => rfl
  | term => exact if_pos h

lemma systemModulesWorking_over {p : Process} (h : p.Over) (reports : List (ℕ × Mask))
    (o : Outcomes) : systemModulesWorking p reports o = p := by
  rcases h with h | h
  · simp [systemModulesWorking, h]
  · simp [systemModulesWorking, h]

/-- When the loop is over nothing happens any more. -/
lemma foldl_processStep_over {p : Process} (h : p.Over) (xs : List Happening) :
    xs.foldl processStep p = p := by
  induction xs with
  | nil => rfl
  | cons x xs ih =>
    have hstep : processStep p x = p := by
      cases x with
      | signal sig => exact deliver_over h sig
      | advance reports o => exact systemModulesWorking_over h reports o
    rw [List.foldl_cons, hstep, ih]

lemma systemModulesWorking_flags (p : Process) (reports : List (ℕ × Mask)) (o : Outcomes) :
    (systemModulesWorking p reports o).stop = p.stop ∧
      (systemModulesWorking p reports o).handled = p.handled := by
  unfold systemModulesWorking
  cases p.place <;> exact ⟨rfl, rfl⟩

lemma serve_place_ne (p : Process) (i : Input) : (p.serve i).place ≠ .returned ∧
    (p.serve i).place ≠ .polling := by
  simp only [Process.serve]
  split_ifs <;> simp

/-- The loop returns at its condition, and only when `stop` is set. -/
lemma systemModulesWorking_returned {p : Process} {reports : List (ℕ × Mask)} {o : Outcomes}
    (h : (systemModulesWorking p reports o).place = .returned) :
    p.stop = true ∨ p.place = .returned := by
  unfold systemModulesWorking at h
  cases hat : p.place with
  | condition =>
    rw [hat] at h
    by_contra hgo
    simp_all
  | polling =>
    rw [hat] at h
    exact absurd h (serve_place_ne p _).1
  | dispatching =>
    rw [hat] at h
    exact absurd h (serve_place_ne p _).1
  | timer =>
    rw [hat] at h
    cases h
  | returned => exact Or.inr rfl
  | killed =>
    rw [hat] at h
    exact absurd (hat.symm.trans h) (by simp)

lemma processStep_sound {n : ℕ} {p : Process} (h : p.Sound n) (x : Happening)
    (hx : BatchesValid p x) : (processStep p x).Sound n := by
  obtain ⟨act, hworks⟩ := h.works
  have hcount := (processStep_count p x).trans h.count
  cases x with
  | signal sig =>
    refine ⟨⟨act, hworks.deliver sig⟩, hcount, ?_, ?_⟩
    · cases sig with
      | hup => exact h.handled
      | pipe => exact h.handled
      | term =>
        simp only [processStep, deliver]
        split_ifs
        · exact h.handled
        · rfl
        · exact h.handled
    · cases sig with
      | hup => exact h.returned
      | pipe => exact h.returned
      | term =>
        simp only [processStep, deliver]
        split_ifs
        · exact h.returned
        · exact fun _ => rfl
        · exact fun hplace => nomatch hplace
  | advance reports o =>
    obtain ⟨act', hworks', -⟩ := hworks.advance reports o hx
    obtain ⟨hstop, hhandled⟩ := systemModulesWorking_flags p reports o
    refine ⟨⟨act', hworks'⟩, hcount, ?_, fun hplace => ?_⟩
    · simp only [processStep]
      rw [hstop, hhandled, h.handled]
    · rcases systemModulesWorking_returned hplace with hgo | hat
      · exact hstop.trans hgo
      · exact hstop.trans (h.returned hat)

lemma working_sound {n : ℕ} (hn : 1 ≤ n) (sockFd : ℤ) (bufSize : ℕ) (garbage : ℕ → Conn) :
    (working (initNetworkMod n sockFd bufSize garbage)).Sound n := by
  obtain ⟨free, act, hw, hf⟩ := initNetworkMod_conserving hn sockFd bufSize garbage
  have hcur : (initNetworkMod n sockFd bufSize garbage).cursor = none := by
    rw [initNetworkMod_eq]
    rfl
  have hact := hw.actList
  rw [hcur] at hact
  have hgoes : ¬ (initNetworkMod n sockFd bufSize garbage).Fatal := by
    rw [Net.not_fatal_iff, initNetworkMod_alive, initNetworkMod_eq]
    exact ⟨rfl, rfl⟩
  have hcount : (initNetworkMod n sockFd bufSize garbage).count = n := by
    rw [initNetworkMod_eq]
    rfl
  exact ⟨⟨act, ⟨free, hw⟩, hf, hact.head_none, fun _ => hgoes⟩, hcount, rfl,
    fun hplace => nomatch hplace⟩

/-- How often the process goes on. -/
def advances : List Happening → ℕ
  | [] => 0
  | .signal _ :: xs => advances xs
  | .advance _ _ :: xs => advances xs + 1

/-- **Once `stop` is set the loop ends**, in as many steps as are left. -/
lemma over_of_stop {p : Process} {act : List ℕ} (h : p.Works act) (hstop : p.stop = true)
    (hhandled : p.handled = false) {xs : List Happening}
    (hvalid : Along processStep BatchesValid p xs)
    (hlong : p.place.left p.net.count act ≤ advances xs) : (xs.foldl processStep p).Over := by
  by_cases hover : p.Over
  · rw [foldl_processStep_over hover]
    exact hover
  induction xs generalizing p act with
  | nil => exact absurd (Process.over_of_left (Nat.le_zero.mp hlong)) hover
  | cons x xs ih =>
    rw [List.foldl_cons]
    by_cases hover' : (processStep p x).Over
    · rw [foldl_processStep_over hover']
      exact hover'
    cases x with
    | signal sig =>
      have hsame : processStep p (.signal sig) = p := by
        cases sig with
        | hup => rfl
        | pipe => rfl
        | term =>
          -- without its handler SIGTERM kills
          refine absurd (Or.inr ?_) hover'
          simp [processStep, deliver, hover, hhandled]
      rw [hsame]
      exact ih h hstop hhandled (hsame ▸ hvalid.2) hlong hover
    | advance reports o =>
      obtain ⟨act', hworks', hless⟩ := h.advance reports o hvalid.1
      obtain ⟨hstop', hhandled'⟩ := systemModulesWorking_flags p reports o
      have hcount : (systemModulesWorking p reports o).net.count = p.net.count :=
        processStep_count p (.advance reports o)
      have hnear := (hless hstop).resolve_right hover
      refine ih hworks' (hstop'.trans hstop) (hhandled'.trans hhandled) hvalid.2 ?_ hover'
      simp only [advances] at hlong
      simp only [processStep]
      rw [hcount]
      omega

lemma deliver_stop {p : Process} (hstop : p.stop = true) (sig : Signal) :
    (deliver p sig).stop = true := by
  cases sig with
  | hup => exact hstop
  | pipe => exact hstop
  | term =>
    unfold deliver
    split_ifs
    · exact hstop
    · rfl
    · exact hstop

lemma deliver_not_polling {p : Process} (hplace : p.place ≠ .polling) (sig : Signal) :
    (deliver p sig).place ≠ .polling := by
  cases sig with
  | hup => exact hplace
  | pipe => exact hplace
  | term =>
    unfold deliver
    split_ifs
    · exact hplace
    · exact hplace
    · simp

lemma systemModulesWorking_not_polling {p : Process} (hstop : p.stop = true)
    (reports : List (ℕ × Mask)) (o : Outcomes) :
    (systemModulesWorking p reports o).place ≠ .polling := by
  unfold systemModulesWorking
  cases hat : p.place with
  | condition => simp [hstop]
  | polling => exact (serve_place_ne p _).2
  | dispatching => exact (serve_place_ne p _).2
  | timer => simp
  | returned => simp [hat]
  | killed => simp [hat]

/-- The input is a batch. -/
def Input.isPoll : Input → Bool
  | .poll _ => true
  | .dispatch _ => false

lemma input_not_poll {p : Process} (hplace : p.place ≠ .polling) (x : Happening) :
    (p.input x).toList.countP Input.isPoll = 0 := by
  cases x with
  | signal sig => rfl
  | advance reports o =>
    simp only [Process.input]
    cases hat : p.place with
    | condition => rfl
    | polling => exact absurd hat hplace
    | dispatching => rfl
    | timer => rfl
    | returned => rfl
    | killed => rfl

lemma serverInputs_no_batch {p : Process} (hstop : p.stop = true) (hplace : p.place ≠ .polling)
    (xs : List Happening) : (serverInputs p xs).countP Input.isPoll = 0 := by
  induction xs generalizing p with
  | nil => rfl
  | cons x xs ih =>
    rw [serverInputs, List.countP_append, input_not_poll hplace x]
    cases x with
    | signal sig =>
      rw [processStep, ih (deliver_stop hstop sig) (deliver_not_polling hplace sig)]
    | advance reports o =>
      have hstop' := (systemModulesWorking_flags p reports o).1.trans hstop
      rw [processStep, ih hstop' (systemModulesWorking_not_polling hstop reports o)]

/-- Once `stop` is set no batch is asked for, but the one that is being waited for. -/
lemma serverInputs_one_batch {p : Process} (hstop : p.stop = true) (xs : List Happening) :
    (serverInputs p xs).countP Input.isPoll ≤ 1 := by
  induction xs generalizing p with
  | nil => exact Nat.zero_le 1
  | cons x xs ih =>
    rw [serverInputs, List.countP_append]
    cases x with
    | signal sig =>
      have hnone : (p.input (.signal sig)).toList.countP Input.isPoll = 0 := rfl
      rw [hnone, Nat.zero_add]
      exact ih (deliver_stop hstop sig)
    | advance reports o =>
      have hstop' := (systemModulesWorking_flags p reports o).1.trans hstop
      have hrest : (serverInputs (processStep p (.advance reports o)) xs).countP Input.isPoll = 0 :=
        serverInputs_no_batch hstop' (systemModulesWorking_not_polling hstop reports o) xs
      have hone : (p.input (.advance reports o)).toList.length ≤ 1 := Option.length_toList_le
      have hcount := List.countP_le_length (p := Input.isPoll)
        (l := (p.input (.advance reports o)).toList)
      omega

/-- SIGTERM comes while the process waits: it takes the batch it was waiting for, and
returns. -/
def stoppedWaiting : List Happening :=
  [.advance [] (outcomes none [] [] []), .signal .term,
    .advance [(0, .readOnly)] (outcomes none [] [] []), .advance [] (outcomes (some 5) [] [] []),
    .advance [] (outcomes none [] [] []), .advance [] (outcomes none [] [] [])]

lemma stoppedWaiting_valid :
    Along processStep BatchesValid (working twoConnections) stoppedWaiting := by
  refine ⟨?_, ?_, ?_, ?_, ?_, ?_, trivial⟩
  all_goals
    intro i hi
    cases hi
  · exact reported_one 3 .readOnly rfl (by decide) (by decide)
  · trivial

lemma serverInputs_over {p : Process} (h : p.Over) (xs : List Happening) :
    serverInputs p xs = [] := by
  induction xs with
  | nil => rfl
  | cons x xs ih =>
    cases x with
    | signal sig => rw [serverInputs, processStep, deliver_over h, ih]; rfl
    | advance reports o =>
      rw [serverInputs, processStep, systemModulesWorking_over h, ih]
      rcases h with hplace | hplace
      · simp [Process.input, hplace]
      · simp [Process.input, hplace]

lemma deliver_term (p : Process) : (deliver p .term).Over ∨
    (deliver p .term).stop = true ∧ (deliver p .term).handled = false := by
  unfold deliver
  split_ifs with hover hhandled
  · exact Or.inl hover
  · exact Or.inr ⟨rfl, rfl⟩
  · exact Or.inl (Or.inr rfl)

lemma Process.Works.left_le {p : Process} {act : List ℕ} (h : p.Works act) :
    p.place.left p.net.count act ≤ p.net.count + 3 := by
  obtain ⟨free, hw⟩ := h.wired
  have hlen := hw.length_le
  cases p.place <;> simp only [Place.left] <;> omega

/-- **SIGTERM ends the loop.** After it at most one more batch is asked for, and with every
connection of the server reported in it the process is at its end in `n + 3` steps. -/
theorem sigterm_ends (n : ℕ) (hn : 1 ≤ n) (sockFd : ℤ) (bufSize : ℕ) (garbage : ℕ → Conn)
    (before after : List Happening)
    (hvalid : Along processStep BatchesValid (working (initNetworkMod n sockFd bufSize garbage))
      (before ++ [.signal .term] ++ after)) (p : Process)
    (hp : p = (before ++ [Happening.signal .term]).foldl processStep
      (working (initNetworkMod n sockFd bufSize garbage))) :
    (serverInputs p after).countP Input.isPoll ≤ 1 ∧
      (n + 3 ≤ advances after → (after.foldl processStep p).Over) := by
  obtain ⟨hbefore, hafter⟩ := along_append.mp hvalid
  have hsound : p.Sound n := by
    rw [hp]
    exact invariant_foldl (I := Process.Sound n) (fun _ x h hx => processStep_sound h x hx)
      (working_sound hn sockFd bufSize garbage) hbefore
  rw [← hp] at hafter
  have hterm : p.Over ∨ p.stop = true ∧ p.handled = false := by
    rw [hp, List.foldl_append]
    exact deliver_term _
  rcases hterm with hover | ⟨hstop, hhandled⟩
  · refine ⟨by simp [serverInputs_over hover], fun _ => ?_⟩
    rw [foldl_processStep_over hover]
    exact hover
  · refine ⟨serverInputs_one_batch hstop after, fun hlong => ?_⟩
    obtain ⟨act, hworks⟩ := hsound.works
    have hleft := hworks.left_le
    rw [hsound.count] at hleft
    refine over_of_stop hworks hstop hhandled hafter ?_
    rw [hsound.count]
    omega

theorem sigterm_ends_waiting :
    (stoppedWaiting.drop 2 |>.foldl processStep
      ((stoppedWaiting.take 2).foldl processStep (working twoConnections))).place = .returned ∧
      (serverInputs ((stoppedWaiting.take 2).foldl processStep (working twoConnections))
        (stoppedWaiting.drop 2)).countP Input.isPoll ≤ 1 :=
  ⟨by decide, (sigterm_ends 2 (by decide) 3 1024 (fun _ => newConn 0 0) (stoppedWaiting.take 1)
    (stoppedWaiting.drop 2) stoppedWaiting_valid _ rfl).1⟩

end Xpipe
