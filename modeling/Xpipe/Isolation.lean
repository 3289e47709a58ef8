import Xpipe.BatchVisits
import Xpipe.Registrations
import Xpipe.Sessions

/-!
# Clients do not interfere

All connections share an array, a free list, the registrations of epoll and the walk of
`process_events`. Still a client sees none of the others: `soloRound` is what one round
does to a connection on its own, and a connection of the server goes through these
rounds and nothing else. So two connections, of one server or of two, that are
dispatched with the same events and meet the same outcomes read and write the same.
-/
namespace Xpipe
open Linked Runs

/-! ## A connection without its place -/

/-- A request without the name of its pool. -/
def Request.unnamed (r : Request) : Request := { r with pool := 0 }

/-- The connection with the active events `m`, without its place in the server: its link,
its descriptor and the names of its pools. -/
def Conn.seen (c : Conn) (m : Mask) : Conn :=
  { c with
    next := none, connFd := 0, activeEvents := m, pool := none
    request := c.request.map Request.unnamed }

/-- A trace in which nothing has happened. -/
def noTrace : Trace := ⟨0, ∅, [], [], false⟩

lemma Conn.seen_seen (c : Conn) (m m' : Mask) : (c.seen m).seen m' = c.seen m' := by
  unfold Conn.seen
  cases c.request with
  | none => rfl
  | some r => rfl

lemma tcpServerSend_seen (c : Conn) (m : Mask) (ws : List WriteResult) :
    tcpServerSend (c.seen m) ws = (tcpServerSend c ws).seen m := by
  cases hr : c.request with
  | none =>
    have hseen : (c.seen m).request = none := by simp [Conn.seen, hr]
    rw [tcpServerSend_none hseen, tcpServerSend_none hr]
  | some r =>
    have hseen : (c.seen m).request = some r.unnamed := by simp [Conn.seen, hr]
    have hsame : r.unnamed.response = r.response := rfl
    unfold tcpServerSend
    simp only [hseen, hr, hsame]
    cases (sendLoop r.response ws).2 with
    | complete => rfl
    | again => rfl
    | failed => rfl

lemma tcpResponeGenerate_unnamed (r : Request) :
    tcpResponeGenerate r.unnamed = (tcpResponeGenerate r).unnamed := by
  have hsame : r.unnamed.protocol = r.protocol := rfl
  unfold tcpResponeGenerate
  rw [hsame]
  cases r.protocol.type with
  | _ => rfl

lemma tcpRequestFinish_seen (c : Conn) (m : Mask) (t t' : Trace) (r : Request)
    (ws : List WriteResult) :
    (tcpRequestFinish (c.seen m) t' r.unnamed ws).1 = (tcpRequestFinish c t r ws).1.seen m := by
  have hsend : tcpServerSend { c.seen m with request := some (tcpResponeGenerate r.unnamed) } ws =
      (tcpServerSend { c with request := some (tcpResponeGenerate r) } ws).seen m := by
    rw [← tcpServerSend_seen, tcpResponeGenerate_unnamed]
    rfl
  unfold tcpRequestFinish
  simp only [hsend]
  generalize tcpServerSend { c with request := some (tcpResponeGenerate r) } ws = c'
  cases hr : c'.request with
  | none =>
    have hseen : (c'.seen m).request = none := by simp [Conn.seen, hr]
    simp only [hseen]
  | some r' =>
    have hseen : (c'.seen m).request = some r'.unnamed := by simp [Conn.seen, hr]
    have hfinish : r'.unnamed.finish = r'.finish := rfl
    simp only [hseen, hfinish]
    cases r'.finish with
    | false => rfl
    | true => rfl

lemma tcpRequestProcess_seen (c : Conn) (m : Mask) (t t' : Trace) (r : Request) (code : Code)
    (o : Outcomes) :
    (tcpRequestProcess (c.seen m) t' r.unnamed code o).1 =
      (tcpRequestProcess c t r code o).1.seen m := by
  unfold tcpRequestProcess
  cases code with
  | ok =>
    have hsame : r.unnamed.buffers = r.buffers := rfl
    simp only [hsame]
    split_ifs
    · exact tcpRequestFinish_seen c m t t' { r with error := .error } o.readWrites
    · rfl
  | done => exact tcpRequestFinish_seen c m t t' { r with done := true } o.readWrites
  | _ => exact tcpRequestFinish_seen c m t t' { r with error := _ } o.readWrites

lemma recvInto_seen (e e' : ℕ) (c : Conn) (m : Mask) (t t' : Trace) (r : Request) (o : Outcomes) :
    (recvInto e' (c.seen m) t' r.unnamed o).1 = (recvInto e c t r o).1.seen m := by
  have hgot : r.unnamed.got o.read = r.got o.read := rfl
  have hconn : ({ c.seen m with request := some r.unnamed } : Conn) =
      Conn.seen { c with request := some r } m := rfl
  unfold recvInto
  simp only [hgot, hconn]
  split
  · rfl
  · rfl
  · split_ifs
    · rfl
    · exact tcpRequestProcess_seen { c with request := some r } m _ _
        { r with buffers := _, protocol := _ } _ o

/-- `tcp_server_recv` does not look at the place of its connection. -/
lemma tcpServerRecv_seen (size e : ℕ) (c : Conn) (m : Mask) (t : Trace) (o : Outcomes) :
    (tcpServerRecv size 0 (c.seen m) noTrace o).1 = (tcpServerRecv size e c t o).1.seen m := by
  unfold tcpServerRecv
  cases hr : c.request with
  | none =>
    have hseen : (c.seen m).request = none := by simp [Conn.seen, hr]
    simp only [hseen]
    split_ifs
    · exact recvInto_seen e 0 c m t.createPool _ (newRequest size t.fresh) o
    · rfl
    · rfl
  | some r =>
    have hseen : (c.seen m).request = some r.unnamed := by simp [Conn.seen, hr]
    simp only [hseen]
    exact recvInto_seen e 0 c m t _ r o

lemma readConn_seen (size e : ℕ) (c : Conn) (t : Trace) (o : Outcomes) :
    (readConn size 0 (c.seen c.activeEvents) noTrace o).1 =
      (readConn size e c t o).1.seen c.activeEvents := by
  have hsame : (c.seen c.activeEvents).activeEvents = c.activeEvents ∧
      (c.seen c.activeEvents).readEventHandler = c.readEventHandler := ⟨rfl, rfl⟩
  unfold readConn
  rw [hsame.1, hsame.2]
  split_ifs
  · exact tcpServerRecv_seen size e c c.activeEvents t o
  · rfl

/-! ## What is read and written -/

lemma reader_seen (size : ℕ) (c : Conn) (m : Mask) (t : Trace) (o : Outcomes) :
    reader size (c.seen m) noTrace o = (reader size c t o).map Request.unnamed := by
  unfold reader
  cases hr : c.request with
  | none =>
    have hseen : (c.seen m).request = none := by simp [Conn.seen, hr]
    simp only [hseen]
    split_ifs
    · rfl
    · rfl
  | some r =>
    have hseen : (c.seen m).request = some r.unnamed := by simp [Conn.seen, hr]
    simp only [hseen]
    rfl

lemma readsIn_seen (size : ℕ) (c : Conn) (t : Trace) (o : Outcomes) :
    readsIn size (c.seen c.activeEvents) noTrace o = readsIn size c t o := by
  have hsame : (c.seen c.activeEvents).activeEvents = c.activeEvents ∧
      (c.seen c.activeEvents).readEventHandler = c.readEventHandler := ⟨rfl, rfl⟩
  unfold readsIn
  rw [hsame.1, hsame.2, reader_seen size c _ t, Option.map_map]
  rfl

lemma ends_unnamed (r : Request) (o : Outcomes) :
    r.unnamed.ends o = (r.ends o).map Request.unnamed := by
  have hgot : r.unnamed.got o.read = r.got o.read := rfl
  have hcode : r.unnamed.code o = r.code o := rfl
  have hparsed : r.unnamed.parsed o = (r.parsed o).unnamed := rfl
  unfold Request.ends
  rw [hgot, hcode, hparsed]
  have hbuffers : (r.parsed o).unnamed.buffers = (r.parsed o).buffers := rfl
  rw [hbuffers]
  by_cases hnil : r.got o.read = []
  · rw [if_pos hnil, if_pos hnil]
    rfl
  · rw [if_neg hnil, if_neg hnil]
    cases r.code o with
    | ok =>
      simp only
      split_ifs
      · rfl
      · rfl
    | _ => rfl

lemma answered_seen (size : ℕ) (c : Conn) (m : Mask) (t : Trace) (o : Outcomes) :
    answered size (c.seen m) noTrace o = (answered size c t o).map Request.unnamed := by
  unfold answered
  rw [reader_seen size c m t o]
  cases reader size c t o with
  | none => rfl
  | some r => exact ends_unnamed r o

lemma writesIn_seen (size e : ℕ) (c : Conn) (t : Trace) (o : Outcomes) :
    writesIn size 0 (c.seen c.activeEvents) noTrace o = writesIn size e c t o := by
  have hsame : (c.seen c.activeEvents).activeEvents = c.activeEvents ∧
      (c.seen c.activeEvents).readEventHandler = c.readEventHandler := ⟨rfl, rfl⟩
  unfold writesIn
  rw [readConn_seen size e c t o, answered_seen size c _ t, hsame.1, hsame.2]
  have hread : ((answered size c t o).map Request.unnamed).elim []
        (fun r => accepted (tcpResponeGenerate r).response o.readWrites) =
      (answered size c t o).elim []
        (fun r => accepted (tcpResponeGenerate r).response o.readWrites) := by
    cases answered size c t o with
    | none => rfl
    | some r =>
      simp only [Option.map_some, Option.elim_some, tcpResponeGenerate_unnamed]
      rfl
  generalize (readConn size e c t o).1 = c₁
  have hwrite : (c₁.seen c.activeEvents).request.elim []
        (fun r => accepted r.response o.writeWrites) =
      c₁.request.elim [] (fun r => accepted r.response o.writeWrites) := by
    unfold Conn.seen
    cases c₁.request with
    | none => rfl
    | some r => rfl
  simp only [hread, hwrite]
  rfl

/-! ## A connection on its own -/

/-- The end of a round on a connection that is not closed: the events that it has asked
for are added, when `epoll_ctl` does it. -/
def settle (c : Conn) (o : Outcomes) : Conn :=
  if c.addEvents = .none then c
  else if o.ctlWrite then { c.armed c.addEvents .send with addEvents := .none }
  else { c with addEvents := .none }

/-- A connection on its own, with what it has read and written. It has ended when it was
closed, or when the process has ended in one of its rounds. -/
structure Solo where
  conn : Conn
  reads : List (List UInt8)
  written : List UInt8
  ended : Bool

/-- A connection that has just been accepted. -/
def Solo.start : Solo := ⟨(newConn 0 0).armed .readOnly .recv, [], [], false⟩

/-- One round of `process_events` on the connection, with the events `p.1` active. -/
def soloRound (size : ℕ) (x : Solo) (p : Mask × Outcomes) : Solo :=
  if x.ended then x
  else
    let c := x.conn.seen p.1
    let read := (readConn size 0 c noTrace p.2).1
    let sent := deadConn (writeConn read p.2)
    ⟨settle sent p.2, x.reads ++ readsIn size c noTrace p.2,
      x.written ++ writesIn size 0 c noTrace p.2,
      (p.1.write && read.writeEventHandler == none) || sent.close⟩

/-- The round on the entry `e` that a step is, if it is one: the events that were active,
and the outcomes. -/
def roundOn (e : ℕ) (s : Net) : Input → List (Mask × Outcomes)
  | .poll _ => []
  | .dispatch o =>
    if s.crashed = false ∧ s.cursor = some e then [((s.conns e).activeEvents, o)] else []

/-- The rounds of a run on the entry `e`. -/
def roundsOn (e : ℕ) : Net → List Input → List (Mask × Outcomes)
  | _, [] => []
  | s, i :: is => roundOn e s i ++ roundsOn e (netStep s i) is

lemma roundsOn_append (e : ℕ) (s : Net) (is js : List Input) :
    roundsOn e s (is ++ js) = roundsOn e s is ++ roundsOn e (is.foldl netStep s) js := by
  induction is generalizing s with
  | nil => rfl
  | cons i is ih =>
    rw [List.cons_append, roundsOn, roundsOn, ih, List.append_assoc, List.foldl_cons]

lemma writeConn_seen (c : Conn) (o : Outcomes) :
    writeConn (c.seen c.activeEvents) o = (writeConn c o).seen c.activeEvents := by
  have hsame : (c.seen c.activeEvents).activeEvents = c.activeEvents := rfl
  unfold writeConn
  rw [hsame]
  split_ifs
  · exact tcpServerSend_seen c c.activeEvents o.writeWrites
  · rfl

lemma settle_seen (c : Conn) (m : Mask) (o : Outcomes) :
    settle (c.seen m) o = (settle c o).seen m := by
  have hsame : (c.seen m).addEvents = c.addEvents := rfl
  unfold settle
  rw [hsame]
  split_ifs
  · rfl
  · rfl
  · rfl

/-- The events that a connection asks for are added exactly when `epoll_ctl` does it. -/
lemma addPart_settle {s : Net} {e : ℕ} {o : Outcomes}
    (hfits : (s.conns e).addEvents ≠ .none → OpFits s e) :
    (addPart s e o).conns e = settle (s.conns e) o := by
  unfold addPart settle
  by_cases hadd : (s.conns e).addEvents = .none
  · rw [if_pos hadd, if_pos hadd]
  rw [if_neg hadd, if_neg hadd]
  cases hok : o.ctlWrite with
  | true =>
    have hsome := addEvent_of_fits (hfits hadd) (s.conns e).addEvents .send
    obtain ⟨s', hs'⟩ := Option.isSome_iff_exists.mp hsome
    have hconn : s'.conns e = (s.conns e).armed (s.conns e).addEvents .send := by
      unfold addEvent at hs'
      split at hs'
      · cases hs'
      · cases hs'
        simp [Net.setConn]
    simp [hs', Net.setConn, hconn]
  | false =>
    have hnone : addEvent s e (s.conns e).addEvents .send false = none := by
      simp [addEvent, Kernel.epollSet]
    simp [hnone, Net.setConn]

/-- **A round of the server is a round of the connection on its own.** -/
lemma dispatch_solo {s : Net} {free act : List ℕ} {e : ℕ} (hw : Wired s free (e :: act))
    (hf : Fds s none) (hc : s.crashed = false) (hr : (s.conns e).Rested) (o : Outcomes)
    (hcalls : CallsFit s e o) (hin : e ∈ (dispatch s e o).taken)
    (hlive : (dispatch s e o).crashed = false) : (dispatch s e o).conns e =
      settle (deadConn (writeConn (readConn s.bufSize e (s.conns e) s.trace o).1 o)) o := by
  have he : e ∈ s.taken := hw.inUse e (by simp)
  obtain ⟨-, hconn₁, he₁, hc₁⟩ := readPart_around hw he hr.busy o
  obtain ⟨free₁, hw₁, hf₁⟩ := readPart_wired hw hf e o
  have hbusy₁ := hr.busy.readConn s.bufSize e s.trace o
  rw [← hconn₁] at hbusy₁
  rw [hc] at hc₁
  obtain ⟨-, hends⟩ := writePart_around he₁ hbusy₁ hc₁ o
  have hadd := hcalls.add
  unfold dispatch at hin hlive ⊢
  rcases hends with ⟨hc₂, -⟩ | ⟨hc₂, -, hconn₂, he₂⟩
  · simp only [hc₁, hc₂, if_true, Bool.false_eq_true, if_false] at hlive
    cases hlive
  · obtain ⟨-, hconn₃, he₃, -⟩ := deadPart_around he₂ o
    obtain ⟨free₂, hw₂, hf₂⟩ := writePart_wired hw₁ hf₁ e o
    obtain ⟨hw₃, -⟩ := deadPart_wired hw₂ hf₂ he₂ o
    simp only [hc₁, hc₂, Bool.false_eq_true, if_false] at hin ⊢
    rw [← hconn₁, ← hconn₂, ← hconn₃]
    have hclose : ((deadPart (writePart (readPart s e o) e o) e o).conns e).close = false := by
      obtain ⟨-, hend, -⟩ := closePart_around hw₃ he₃ o
      cases hcl : ((deadPart (writePart (readPart s e o) e o) e o).conns e).close with
      | false => rfl
      | true => exact absurd hin (hend.gone hcl)
    unfold closePart
    simp only [hclose, Bool.false_eq_true, if_false]
    exact addPart_settle (hadd hc₂ hclose)

/-! ## Runs -/

/-- The entry `e` of the server against a connection on its own. -/
structure Mirrors (e : ℕ) (x : Session) (y : Solo) : Prop where
  reads : x.reads = y.reads
  written : x.written = y.written
  ended : y.ended = true → x.net.crashed = true ∨ e ∉ x.net.taken
  conn : y.ended = false → e ∈ x.net.taken ∧ (x.net.conns e).seen .none = y.conn.seen .none

/-- A step that is not a round on the entry. -/
lemma Mirrors.elsewhere {e : ℕ} {x : Session} {y : Solo} {i : Input} (h : Mirrors e x y)
    (hrest : Resting x.net) (hin : e ∈ x.net.taken)
    (hother : ∀ o, i = .dispatch o → ¬ (x.net.crashed = false ∧ x.net.cursor = some e)) :
    Mirrors e (x.step e i) y := by
  rw [Session.step_elsewhere hother]
  refine ⟨h.reads, h.written, fun hended => ?_, fun hopen => ?_⟩
  · rcases h.ended hended with hcrash | hout
    · left
      simp only [netStep_of_crashed hcrash, hcrash]
    · exact absurd hin hout
  · obtain ⟨-, hseen⟩ := h.conn hopen
    rcases netStep_cases hrest i with ⟨hbatch, -⟩ | ⟨d, o, rfl, hcur, hc, -, hround⟩
    · obtain ⟨m, next, hconn⟩ := hbatch.conn e
      refine ⟨hbatch.taken ▸ hin, ?_⟩
      simp only [hconn]
      exact hseen
    · have hne : d ≠ e := by
        rintro rfl
        exact hother o rfl ⟨hc, hcur⟩
      obtain ⟨htaken, hconn⟩ := hround.around.kept e hin (Ne.symm hne)
      refine ⟨htaken, ?_⟩
      simp only [hconn]
      exact hseen

/-- A round on the entry. -/
lemma Mirrors.here {e : ℕ} {x : Session} {y : Solo} {o : Outcomes} (h : Mirrors e x y)
    (hagree : Agreeing x.net) (hdel : o.ctlDel = true) (hin : e ∈ x.net.taken)
    (hc : x.net.crashed = false) (hcur : x.net.cursor = some e) :
    Mirrors e (x.step e (.dispatch o))
      (soloRound x.net.bufSize y ((x.net.conns e).activeEvents, o)) := by
  have hopen : y.ended = false := by
    cases hended : y.ended with
    | false => rfl
    | true =>
      rcases h.ended hended with hcrash | hout
      · rw [hc] at hcrash
        cases hcrash
      · exact absurd hin hout
  obtain ⟨-, hseen⟩ := h.conn hopen
  -- on its own the connection starts the round as it does in the server
  have hstart : y.conn.seen (x.net.conns e).activeEvents =
      (x.net.conns e).seen (x.net.conns e).activeEvents := by
    have hcast := congrArg (fun c => Conn.seen c (x.net.conns e).activeEvents) hseen
    simp only [Conn.seen_seen] at hcast
    exact hcast.symm
  have hactive := readConn_activeEvents x.net.bufSize e (x.net.conns e) x.net.trace o
  have hread := readConn_seen x.net.bufSize e (x.net.conns e) x.net.trace o
  have hreads := readsIn_seen x.net.bufSize (x.net.conns e) x.net.trace o
  have hwrites := writesIn_seen x.net.bufSize e (x.net.conns e) x.net.trace o
  have hwritten := writeConn_seen (readConn x.net.bufSize e (x.net.conns e) x.net.trace o).1 o
  rw [hactive] at hwritten
  obtain ⟨free, act, hw, hf⟩ := hagree.resting.wired
  obtain ⟨rest, rfl⟩ := hw.at_cursor hcur
  have hrested := hagree.resting.rested hc e hin
  have hcalls := (dispatch_fits hagree.registered hw hf hdel).calls
  have hround := dispatch_round hw hf hc hrested o
  rw [Session.step_round o hc hcur]
  unfold soloRound
  rw [if_neg (by simp [hopen])]
  simp only [hstart, hread, hreads, hwrites, hwritten]
  have hsend : (deadConn ((writeConn (readConn x.net.bufSize e (x.net.conns e)
      x.net.trace o).1 o).seen (x.net.conns e).activeEvents)) =
      (deadConn (writeConn (readConn x.net.bufSize e (x.net.conns e) x.net.trace o).1 o)).seen
        (x.net.conns e).activeEvents := rfl
  rw [hsend]
  refine ⟨by rw [h.reads], by rw [h.written], fun hended => ?_, fun hgoes => ?_⟩
  · simp only [netStep_dispatch hc hcur]
    simp only [Bool.or_eq_true, Bool.and_eq_true, beq_iff_eq] at hended
    rcases hround.ends with ⟨hcrash, -⟩ | ⟨-, hno, hend⟩
    · exact Or.inl hcrash
    · rcases hended with hstale | hclose
      · exact absurd hstale hno
      · exact Or.inr (hend.gone hclose)
  · simp only [netStep_dispatch hc hcur]
    simp only [Bool.or_eq_false_iff, Bool.and_eq_false_imp, beq_eq_false_iff_ne, ne_eq] at hgoes
    obtain ⟨hstale, hclose⟩ := hgoes
    rcases hround.ends with ⟨-, hact, hnone⟩ | ⟨hlive, -, hend⟩
    · exact absurd hnone (hstale hact)
    · have hstays := hend.taken hclose
      refine ⟨hstays, ?_⟩
      rw [dispatch_solo hw hf hc hrested o hcalls hstays hlive, settle_seen, Conn.seen_seen]

lemma Mirrors.step {e size : ℕ} {x : Session} {y : Solo} {i : Input} (h : Mirrors e x y)
    (hagree : Agreeing x.net) (hdel : i.Drops) (hin : e ∈ x.net.taken)
    (hsize : x.net.bufSize = size) :
    Mirrors e (x.step e i) ((roundOn e x.net i).foldl (soloRound size) y) := by
  by_cases hhere : ∀ o, i = .dispatch o → ¬ (x.net.crashed = false ∧ x.net.cursor = some e)
  · have hnone : roundOn e x.net i = [] := by
      cases i with
      | poll reports => rfl
      | dispatch o => exact if_neg (hhere o rfl)
    rw [hnone]
    exact h.elsewhere hagree.resting hin hhere
  · push Not at hhere
    obtain ⟨o, rfl, hc, hcur⟩ := hhere
    have hone : roundOn e x.net (.dispatch o) = [((x.net.conns e).activeEvents, o)] :=
      if_pos ⟨hc, hcur⟩
    rw [hone, ← hsize]
    exact h.here hagree hdel hin hc hcur

/-- **The server does to a connection what its rounds do on their own.** -/
lemma Mirrors.run {e size : ℕ} {s : Net} (inputs : List Input) (hagree : Agreeing s)
    (hsize : s.bufSize = size) (hstart : Mirrors e ⟨s, [], []⟩ Solo.start)
    (henv : Along netStep (fun s i => (PollsValid s i ∧ i.Drops) ∧ e ∈ s.taken) s inputs) :
    Mirrors e (inputs.foldl (Session.step e) ⟨s, [], []⟩)
      ((roundsOn e s inputs).foldl (soloRound size) Solo.start) := by
  have hnet (is : List Input) : (is.foldl (Session.step e) ⟨s, [], []⟩).net =
      is.foldl netStep s := by
    induction is using List.reverseRecOn with
    | nil => rfl
    | append_singleton is i ih => simp [Session.step_net, ih]
  induction inputs using List.reverseRecOn with
  | nil => exact hstart
  | append_singleton is i ih =>
    obtain ⟨hbefore, ⟨⟨-, hdel⟩, hin⟩, -⟩ := along_append.mp henv
    have hinv : Agreeing (is.foldl netStep s) ∧ (is.foldl netStep s).bufSize = size :=
      invariant_foldl (I := fun s => Agreeing s ∧ s.bufSize = size)
        (fun s i hs hi => ⟨(netStep_agreeing hs.1 i hi.1.1 hi.1.2).1,
          (netStep_bufSize hs.1.resting i).trans hs.2⟩) ⟨hagree, hsize⟩ hbefore
    rw [List.foldl_append, List.foldl_cons, List.foldl_nil, roundsOn_append, List.foldl_append]
    simp only [roundsOn, List.append_nil]
    rw [← hnet] at hinv hin
    have hround := (ih hbefore).step hinv.1 hdel hin hinv.2
    rwa [hnet] at hround

end Xpipe
