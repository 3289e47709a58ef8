import Xpipe.Aborts
import Xpipe.ReadRoom

/-!
# Conversations

A client sends requests one after another and reads the answers. `Session` runs the
server and notes what one of its connections has read and written. While every read
holds bytes of one request only and no write stops, `conversation` says what has been
written at every point of the run: the answers to the requests that have been read to
their last byte.
-/
namespace Xpipe
open Linked Machines Runs

/-! ## What is written -/

/-- The bytes that the calls of `write` in `tcp_server_send` have accepted, which are
those that `buffer` has moved past. -/
def accepted (b : Response) (ws : List WriteResult) : List UInt8 :=
  b.unsent.take ((sendLoop b ws).1.sent - b.sent)

/-- Full and partial writes, without EAGAIN or an error. -/
def Writes (ws : List WriteResult) : Prop := ∀ x ∈ ws, ∃ n, x = .wrote n

/-- Without EAGAIN and errors everything is written. -/
lemma sendLoop_writes {b : Response} {ws : List WriteResult} (h : Writes ws) :
    (sendLoop b ws).2 = .complete ∧ b.sent + b.unsent.length ≤ (sendLoop b ws).1.sent := by
  induction ws generalizing b with
  | nil => exact ⟨rfl, le_refl _⟩
  | cons x ws ih =>
    obtain ⟨n, rfl⟩ := h x (by simp)
    have hrest : Writes ws := fun y hy => h y (by simp [hy])
    have hleft := unsent_wrote b (max 1 n)
    simp only [sendLoop]
    split_ifs with hdone
    · rw [hdone, List.length_nil] at hleft
      refine ⟨rfl, ?_⟩
      simp only
      omega
    · obtain ⟨hend, hsent⟩ := ih hrest
      refine ⟨hend, le_trans ?_ hsent⟩
      rw [hleft]
      simp only
      omega

lemma accepted_writes {b : Response} {ws : List WriteResult} (h : Writes ws) :
    accepted b ws = b.unsent := by
  obtain ⟨-, hsent⟩ := @sendLoop_writes b ws h
  apply List.take_of_length_le
  omega

/-- What the reads of a round on the connection `c` give; EAGAIN gives no bytes. -/
def readsIn (size : ℕ) (c : Conn) (t : Trace) (o : Outcomes) : List (List UInt8) :=
  if c.activeEvents.read = true ∧ c.readEventHandler = some .recv then
    ((reader size c t o).map (fun r => r.got o.read)).toList
  else []

/-- What a round on the connection `c` writes: the answer of its read handler, and what
its write handler sends. -/
def writesIn (size e : ℕ) (c : Conn) (t : Trace) (o : Outcomes) : List UInt8 :=
  let c₁ := (readConn size e c t o).1
  (if c.activeEvents.read = true ∧ c.readEventHandler = some .recv then
    (answered size c t o).elim [] (fun r => accepted (tcpResponeGenerate r).response o.readWrites)
  else []) ++
  if c.activeEvents.write = true ∧ c₁.writeEventHandler = some .send then
    c₁.request.elim [] (fun r => accepted r.response o.writeWrites)
  else []

/-- The server, with what a connection has read and written so far. -/
structure Session where
  net : Net
  reads : List (List UInt8)
  written : List UInt8

/-- One step of the server, noted for the entry `e`. -/
def Session.step (e : ℕ) (x : Session) (i : Input) : Session :=
  let x' := { x with net := netStep x.net i }
  match i with
  | .poll _ => x'
  | .dispatch o =>
    if x.net.crashed = false ∧ x.net.cursor = some e then
      { x' with
        reads := x.reads ++ readsIn x.net.bufSize (x.net.conns e) x.net.trace o
        written := x.written ++ writesIn x.net.bufSize e (x.net.conns e) x.net.trace o }
    else x'

/-! ## Requests and their segments -/

/-- A well-formed request, and the reads that it arrives in. -/
structure Sending (first : ℕ) where
  request : WireRequest
  segments : List (List UInt8)
  whole : request.Whole first
  flatten : segments.flatten = request.bytes
  ne_nil : ∀ c ∈ segments, c ≠ []

/-- The answer: `"ok\r\n"` to a `PUT`, nothing to the others. -/
def Sending.reply {first : ℕ} (x : Sending first) : List UInt8 :=
  if x.request.type = .put then okText else []

/-- A request is cut by no border when its type line lies in the first block, and for a
`PUT` all up to the end of the length line, with a length that an `int` holds. -/
lemma whole_of_head {m : WireRequest} {first : ℕ}
    (htype : (typeLine m.blanks m.type).length ≤ first)
    (hput : m.type = .put → (headLines m.blanks m.type m.headers ++ m.numeral ++ crlf).length ≤ first ∧
      m.body.length ≤ 2147483647) : m.Whole first where
  type := by
    rintro ⟨j, -, hhi⟩
    simp only [typeLine, crlf, List.length_append, List.length_cons] at htype
    simp only [WireRequest.typeEnd] at hhi
    omega
  numeral := by
    rintro h ⟨j, -, hhi⟩
    obtain ⟨hend, -⟩ := hput h
    simp only [crlf, List.length_append, List.length_cons] at hend
    simp only [WireRequest.numeralEnd, WireRequest.numeralStart] at hhi
    omega
  value := fun h => Or.inl (hput h).2

/-- Short of its last byte a request is open. -/
lemma WireRequest.Whole.open {m : WireRequest} {first : ℕ} (h : m.Whole first)
    {front rest : List UInt8} (hbytes : m.bytes = front ++ rest) (hrest : rest ≠ []) :
    ∃ ph, Machines.run advance .start front = .ok ph ∧ ph.completeType = none := by
  have hrun := h.run.1
  rw [hbytes, run_append_ok_iff] at hrun
  obtain ⟨ph, hfront, hmore⟩ := hrun
  refine ⟨ph, hfront, ?_⟩
  cases hc : ph.completeType with
  | none => rfl
  | some t =>
    rw [run_complete hc hrest] at hmore
    cases hmore

/-! ## A request under way -/

/-- The request `r` has read the segments `got`, which do not complete it, and has
nothing to send. -/
structure Request.Underway (first : ℕ) (r : Request) (got : List (List UInt8)) (ph : Phase) :
    Prop where
  laid : Laid first r.buffers got.flatten.length
  room : 0 < roomLeft first r.buffers
  run : run advance .start got.flatten = .ok ph
  isOpen : ph.completeType = none
  follows : Follows r.buffers r.protocol ph
  response : r.response.bytes = [] ∧ r.response.sent = 0
  error : r.error = .ok

lemma newRequest_underway {first : ℕ} (hfirst : 0 < first) (pool : ℕ) :
    (newRequest first pool).Underway first [] .start where
  laid := laid_init first
  room := by
    change 0 < roomLeft first [⟨first, []⟩]
    rwa [roomLeft_init]
  run := rfl
  isOpen := rfl
  follows := follows_init first
  response := ⟨rfl, rfl⟩
  error := rfl

lemma Laid.room {first count : ℕ} {r : Request} (h : Laid first r.buffers count) :
    r.room = roomLeft first r.buffers := by
  change roomOf r.buffers = _
  rw [roomOf_eq, h.sizes _ (lastIndex_lt h.ne_nil), Option.getD_some]
  rfl

/-- The last segment of a request ends it, and what is to be sent is its answer. -/
lemma Request.Underway.last {first : ℕ} {r : Request} {got : List (List UInt8)} {ph : Phase}
    (h : r.Underway first got ph) {x : Sending first} {o : Outcomes}
    (hsegments : x.segments = got ++ [r.got o.read]) :
    ∃ r', r.ends o = some r' ∧ (tcpResponeGenerate r').response.unsent = x.reply := by
  have hne := x.ne_nil (r.got o.read) (by simp [hsegments])
  obtain ⟨hrun, hcomplete⟩ := x.whole.run
  rw [← x.flatten, hsegments, List.flatten_append, List.flatten_singleton,
    run_append_of_ok h.run] at hrun
  have hfollow := parseChunk_follows o.layout h.laid.ne_nil h.follows (r.got o.read)
  rw [hrun] at hfollow
  obtain ⟨hdone, htype, -, -⟩ := hfollow.2 _ hcomplete
  have hcode : r.code o = .done := hdone
  refine ⟨{ r.parsed o with done := true }, by simp [Request.ends, hne, hcode], ?_⟩
  obtain ⟨hbytes, hsent⟩ := h.response
  have hsame : (r.parsed o).response = r.response := rfl
  have herror : (r.parsed o).error = .ok := h.error
  have htype' : (r.parsed o).protocol.type = x.request.type := htype
  unfold tcpResponeGenerate Sending.reply
  rw [htype', herror, hsame]
  by_cases hput : x.request.type = .put
  · simp [hput, Response.unsent, hbytes, hsent]
  · rw [if_neg hput]
    split
    · contradiction
    · simp [Response.unsent, hsame, hbytes]

/-- Any other segment is read and nothing more. -/
lemma Request.Underway.next {first : ℕ} {r : Request} {got more : List (List UInt8)} {ph : Phase}
    (h : r.Underway first got ph) {x : Sending first} {o : Outcomes} (hfirst : 0 < first)
    (hsegments : x.segments = got ++ r.got o.read :: more) (hmore : more ≠ []) :
    r.code o = .ok ∧ ∃ ph', Request.Underway first
      { r.parsed o with buffers := chainBlock (r.parsed o).buffers } (got ++ [r.got o.read]) ph' := by
  have hne := x.ne_nil (r.got o.read) (by simp [hsegments])
  have hrest : more.flatten ≠ [] := by
    obtain ⟨c, cs, rfl⟩ := List.exists_cons_of_ne_nil hmore
    have hc := x.ne_nil c (by simp [hsegments])
    simp [hc]
  have hbytes : x.request.bytes = (got ++ [r.got o.read]).flatten ++ more.flatten := by
    rw [← x.flatten, hsegments]
    simp
  obtain ⟨ph', hrun, hopen⟩ := x.whole.open hbytes hrest
  have hall := hrun
  rw [List.flatten_append, List.flatten_singleton, run_append_of_ok h.run] at hrun
  have hroom := got_length_le r o.read
  rw [h.laid.room] at hroom
  have hpos := List.length_pos_iff.mpr hne
  have hcut : (r.got o.read).length = roomLeft first r.buffers → ph'.held = false := by
    intro hfull
    obtain ⟨j, hj⟩ := (h.laid.border_iff hpos hroom).mpr hfull
    have hlen : ((got ++ [r.got o.read]).flatten).length =
        got.flatten.length + (r.got o.read).length := by
      simp
    apply x.whole.uncut hfirst j (got ++ [r.got o.read]).flatten.length
    · omega
    · omega
    · rw [hbytes, List.length_append]
      omega
    · rw [hbytes, List.take_left]
      exact hall
  obtain ⟨hcode, hfollows⟩ := follows_round o.layout h.laid h.follows hroom hrun hopen hcut
  obtain ⟨-, hlaid, -, hleft⟩ := laid_round o.layout r.protocol h.laid hroom
  refine ⟨hcode, ph', ?_, ?_, hall, hopen, hfollows, h.response, h.error⟩
  · rw [List.flatten_append, List.flatten_singleton, List.length_append]
    exact hlaid
  · change 0 < roomLeft first (chainBlock (parseChunk o.layout r.buffers r.protocol _).buffers)
    rw [hleft]
    split_ifs
    · decide
    · omega

/-! ## A round on the connection -/

/-- The connection of a client between two rounds, with `got` read of the next request
and no write event on. -/
structure Conn.Attends (first : ℕ) (c : Conn) (got : List (List UInt8)) : Prop where
  rested : c.Rested
  handler : c.readEventHandler = some .recv
  events : c.events.write = false
  active : c.activeEvents.write = false
  request : (c.request = none ∧ got = []) ∨ ∃ r ph, c.request = some r ∧ r.Underway first got ph

/-- The outcomes of a round in which allocations succeed, writes accept bytes, and the
read gives bytes or EAGAIN. -/
structure Outcomes.Serves (o : Outcomes) : Prop where
  initPool : o.initPool = true
  initMallocs : ∀ k, (o.initMallocs k).data = true
  chainAlloc : o.chainAlloc = true
  writes : Writes o.readWrites
  read : o.read = .again ∨ ∃ data, data ≠ [] ∧ o.read = .bytes data

/-- The request that a read goes to. -/
lemma Conn.Attends.reader {first : ℕ} {c : Conn} {got : List (List UInt8)}
    (h : c.Attends first got) (hfirst : 0 < first) {o : Outcomes} (ho : o.Serves) (t : Trace) :
    ∃ r ph, Xpipe.reader first c t o = some r ∧ r.Underway first got ph := by
  rcases h.request with ⟨hnone, rfl⟩ | ⟨r, ph, hsome, hr⟩
  · exact ⟨_, _, reader_new hnone ho.initPool ho.initMallocs, newRequest_underway hfirst t.fresh⟩
  · unfold Xpipe.reader
    rw [hsome]
    exact ⟨r, ph, rfl, hr⟩

/-- The read handler of a round on the connection `c`, with what it reads and writes. -/
structure Heard (first e : ℕ) (c : Conn) (t : Trace) (o : Outcomes) (segment : List UInt8)
    (request : Option Request) (answer : List UInt8) : Prop where
  conn : (tcpServerRecv first e c t o).1 = { c with request := request }
  read : (Xpipe.reader first c t o).map (fun r => r.got o.read) = some segment
  written : (answered first c t o).elim []
    (fun r => accepted (tcpResponeGenerate r).response o.readWrites) = answer

lemma tcpServerRecv_of_reader {size : ℕ} {c : Conn} {t : Trace} {o : Outcomes} {r : Request}
    (e : ℕ) (hr : reader size c t o = some r) :
    tcpServerRecv size e c t o = recvInto e c (readerTrace c t o) r o := by
  rcases tcpServerRecv_cases size e c t o with ⟨hnone, -⟩ | ⟨r', hr', heq⟩
  · rw [hnone] at hr
    cases hr
  · rw [hr] at hr'
    cases hr'
    exact heq

/-- EAGAIN changes nothing, but for a new request. -/
lemma heard_again {first : ℕ} {c : Conn} {t : Trace} {o : Outcomes} {r : Request} (e : ℕ)
    (hread : o.read = .again) (hr : reader first c t o = some r) :
    Heard first e c t o [] (some r) [] := by
  have hgot : r.got o.read = [] := by
    rw [hread]
    rfl
  refine ⟨?_, by rw [hr, Option.map_some, hgot], ?_⟩
  · rw [tcpServerRecv_of_reader e hr]
    simp [recvInto, hread]
  · simp [answered, hr, Request.ends, hgot]

/-- A segment that is not the last one of its request. -/
lemma heard_next {first : ℕ} {c : Conn} {t : Trace} {o : Outcomes} {r : Request} (e : ℕ)
    (hr : reader first c t o = some r) (hgot : r.got o.read ≠ []) (hcode : r.code o = .ok)
    (halloc : o.chainAlloc = true) :
    Heard first e c t o (r.got o.read)
      (some { r.parsed o with buffers := chainBlock (r.parsed o).buffers }) [] := by
  have hends : r.ends o = none := by simp [Request.ends, hgot, hcode, halloc]
  refine ⟨?_, by rw [hr, Option.map_some], by rw [answered, hr, Option.bind_some, hends]; rfl⟩
  have hparse : (parseChunk o.layout r.buffers r.protocol (r.got o.read)).code = .ok := hcode
  rw [tcpServerRecv_of_reader e hr]
  unfold recvInto
  simp only [hgot, if_false, hparse]
  split
  · rename_i h
    simp [Request.got, h] at hgot
  · rename_i h
    simp [Request.got, h] at hgot
  · simp only [tcpRequestProcess, halloc, Bool.not_true, Bool.and_false, Bool.false_eq_true, if_false]
    rfl

/-- The last segment of a request: it is answered and released. -/
lemma heard_last {first : ℕ} {c : Conn} {t : Trace} {o : Outcomes} {r r' : Request} (e : ℕ)
    (hr : reader first c t o = some r) (hends : r.ends o = some r') (hwrites : Writes o.readWrites)
    (hevents : c.events.write = false) :
    Heard first e c t o (r.got o.read) none (tcpResponeGenerate r').response.unsent := by
  refine ⟨?_, by rw [hr, Option.map_some], ?_⟩
  · rw [tcpServerRecv_of_reader e hr]
    rcases recvInto_cases e c (readerTrace c t o) r o with ⟨hnone, -⟩ | ⟨r₂, hr₂, -, hfin⟩
    · rw [hnone] at hends
      cases hends
    rw [hends] at hr₂
    cases hr₂
    have hcomplete : (r'.delivery o.readWrites).2 = .complete := (sendLoop_writes hwrites).1
    rw [hfin]
    rcases tcpRequestFinish_cases { c with request := some r }
      ((readerTrace c t o).record (.parse e r (r.code o))) r' o.readWrites with
      ⟨hend, -⟩ | ⟨hend, -⟩ | ⟨hend, -⟩ | ⟨-, -, hfin⟩
    · rw [hcomplete] at hend
      cases hend
    · rw [hcomplete] at hend
      cases hend
    · rw [hcomplete] at hend
      cases hend
    · rw [hfin]
      simp [hevents]
  · rw [answered, hr, Option.bind_some, hends]
    exact accepted_writes hwrites

/-! ## The registration of one entry -/

/-- No registration of the entry `e` asks for write events. -/
def Kernel.WriteFree (e : ℕ) (k : Kernel) : Prop :=
  ∀ fd m, k.interest fd = some (m, e) → m.write = false

namespace Kernel.WriteFree

variable {e : ℕ} {k k' : Kernel}

lemma update (h : k.WriteFree e) {fd : ℤ} {reg : Option (Mask × ℕ)}
    (hk : k'.interest = Function.update k.interest fd reg)
    (hreg : ∀ m, reg = some (m, e) → m.write = false) : k'.WriteFree e := by
  intro fd' m hm
  rw [hk] at hm
  by_cases hfd : fd' = fd
  · rw [hfd, Function.update_self] at hm
    exact hreg m hm
  · rw [Function.update_of_ne hfd] at hm
    exact h fd' m hm

lemma closeFd (h : k.WriteFree e) (fd : ℤ) : (k.closeFd fd).WriteFree e :=
  h.update rfl (by simp)

lemma epollSet (h : k.WriteFree e) {i : ℕ} {add ok : Bool} {fd : ℤ} {m : Mask}
    (hm : i ≠ e ∨ m.write = false) (hk : k.epollSet add fd m i ok = some k') :
    k'.WriteFree e := by
  unfold Kernel.epollSet at hk
  split_ifs at hk
  cases hk
  refine h.update rfl ?_
  intro m' hm'
  cases hm'
  rcases hm with hne | hm
  · exact absurd rfl hne
  · exact hm

lemma epollDrop (h : k.WriteFree e) {i : ℕ} (hne : i ≠ e) (fd : ℤ) (left : Mask) (ok : Bool) :
    (k.epollDrop fd left i ok).WriteFree e := by
  unfold Kernel.epollDrop
  split_ifs
  · exact h.update rfl (by simp)
  · exact h
  · cases hset : k.epollSet false fd left i ok with
    | none => exact h
    | some k' => exact h.epollSet (Or.inl hne) hset

end Kernel.WriteFree

lemma addEvent_writeFree {s s' : Net} {e i : ℕ} {m : Mask} {hd : Handler} {ok : Bool}
    (h : s.kernel.WriteFree e) (hm : i ≠ e ∨ (m.union (s.conns i).events).write = false)
    (hadd : addEvent s i m hd ok = some s') : s'.kernel.WriteFree e := by
  unfold addEvent at hadd
  split at hadd
  · cases hadd
  rename_i k hk
  cases hadd
  exact h.epollSet hm hk

/-- Accepting registers a client for read events only. -/
lemma tcpServerAccept_writeFree {s : Net} {e : ℕ} (h : s.kernel.WriteFree e) (o : Outcomes) :
    (tcpServerAccept s o).kernel.WriteFree e := by
  rcases tcpServerAccept_cases s o with heq | ⟨fd, -, -, heq | ⟨i, s₂, hget, hcases⟩⟩
  · rw [heq]
    exact h
  · rw [heq]
    exact Kernel.WriteFree.closeFd (k := (s.opened fd).kernel) h fd
  unfold tcpGetConnection at hget
  split at hget
  · cases hget
  split_ifs at hget
  cases hget
  rcases hcases with hadd | heq
  · refine addEvent_writeFree ?_ (Or.inr ?_) hadd
    · exact h
    · simp [newConn, Mask.union, Mask.readOnly, Mask.none]
  · rw [heq]
    exact Kernel.WriteFree.closeFd (k := (s.opened fd).kernel) h _

lemma callHandler_writeFree {s : Net} {e : ℕ} (h : s.kernel.WriteFree e) (i : ℕ)
    (hd : Option Handler) (ws : List WriteResult) (o : Outcomes) :
    (callHandler s i hd ws o).kernel.WriteFree e := by
  unfold callHandler
  split
  · exact h
  · exact tcpServerAccept_writeFree h o
  · exact h
  · exact h

lemma addPart_writeFree {s : Net} {e i : ℕ} (h : s.kernel.WriteFree e) (hne : i ≠ e)
    (o : Outcomes) : (addPart s i o).kernel.WriteFree e := by
  unfold addPart
  split_ifs
  · exact h
  · cases hadd : addEvent s i (s.conns i).addEvents .send o.ctlWrite with
    | none => exact h
    | some s' =>
      have hset := addEvent_writeFree h (Or.inl hne) hadd
      exact hset

/-- **A round on another entry** gives `e` no write events. -/
lemma dispatch_writeFree {s : Net} {e i : ℕ} (h : s.kernel.WriteFree e) (hne : i ≠ e)
    (o : Outcomes) : (dispatch s i o).kernel.WriteFree e := by
  have h₁ : (readPart s i o).kernel.WriteFree e := by
    unfold readPart
    split_ifs
    · exact callHandler_writeFree h i _ _ o
    · exact h
  have h₂ : (writePart (readPart s i o) i o).kernel.WriteFree e := by
    unfold writePart
    split_ifs
    · exact callHandler_writeFree h₁ i _ _ o
    · exact h₁
  have h₃ : (deadPart (writePart (readPart s i o) i o) i o).kernel.WriteFree e := by
    unfold deadPart delEvent
    split_ifs
    · exact h₂
    · exact h₂
    · exact h₂.epollDrop hne _ _ _
  unfold dispatch
  simp only
  split_ifs
  · exact h₁
  · exact h₂
  unfold closePart
  split_ifs
  · exact h₃.closeFd _
  · exact addPart_writeFree h₃ hne o

/-- A round on a client after whose read nothing is left to do. -/
lemma dispatch_quiet {s : Net} {e : ℕ} {o : Outcomes} {c : Conn} (hc : s.crashed = false)
    (hrecv : (s.conns e).readEventHandler = some .recv)
    (hwrite : (s.conns e).activeEvents.write = false)
    (hconn : (readConn s.bufSize e (s.conns e) s.trace o).1 = c) (hdead : c.deadEvents = .none)
    (hadd : c.addEvents = .none) (hclose : c.close = false) :
    (dispatch s e o).kernel = s.kernel ∧ (dispatch s e o).conns e = c ∧
      (dispatch s e o).taken = s.taken ∧ (dispatch s e o).bufSize = s.bufSize := by
  have hactive := readConn_activeEvents s.bufSize e (s.conns e) s.trace o
  rw [hconn] at hactive
  have hread : (readPart s e o).kernel = s.kernel ∧ (readPart s e o).conns e = c ∧
      (readPart s e o).taken = s.taken ∧ (readPart s e o).bufSize = s.bufSize ∧
      (readPart s e o).crashed = false := by
    unfold readConn at hconn
    unfold readPart
    split_ifs with hact
    · rw [if_pos ⟨hact, hrecv⟩] at hconn
      simp [hrecv, callHandler, Net.setConn, hconn, hc]
    · rw [if_neg (fun h => hact h.1)] at hconn
      exact ⟨rfl, hconn, rfl, rfl, hc⟩
  obtain ⟨hkernel, hconns, htaken, hsize, hcrash⟩ := hread
  have hskip : writePart (readPart s e o) e o = readPart s e o := by
    unfold writePart
    rw [hconns, hactive, hwrite]
    rfl
  have hdone : deadPart (readPart s e o) e o = readPart s e o := by
    unfold deadPart
    rw [hconns, if_pos hdead]
  have hidle : addPart (readPart s e o) e o = readPart s e o := by
    unfold addPart
    rw [hconns, if_pos hadd]
  unfold dispatch closePart
  simp only [hskip, hdone, hidle, hcrash, hconns, hclose, Bool.false_eq_true, if_false]
  exact ⟨hkernel, hconns, htaken, hsize⟩

/-- After a batch the active events are those before it, or those reported. -/
lemma foldl_pollOne_active (reports : List (ℕ × Mask)) (s : Net) (e : ℕ) :
    ((reports.foldl pollOne s).conns e).activeEvents = (s.conns e).activeEvents ∨
      ∃ p ∈ reports, p.1 = e ∧ ((reports.foldl pollOne s).conns e).activeEvents = p.2 := by
  induction reports generalizing s with
  | nil => exact Or.inl rfl
  | cons p reports ih =>
    rw [List.foldl_cons]
    rcases ih (pollOne s p) with hsame | ⟨q, hq, hqe, hlast⟩
    · rw [hsame]
      by_cases he : p.1 = e
      · right
        refine ⟨p, by simp, he, ?_⟩
        simp [pollOne, Net.setConn, ← he]
      · left
        simp [pollOne, Net.setConn, Function.update_of_ne (Ne.symm he)]
    · exact Or.inr ⟨q, by simp [hq], hqe, hlast⟩

/-! ## The steps of a conversation -/

/-- The server between two steps of a conversation on the entry `e`. -/
structure Attended (first e : ℕ) (s : Net) (got : List (List UInt8)) : Prop where
  resting : Resting s
  size : s.bufSize = first
  taken : e ∈ s.taken
  writeFree : s.kernel.WriteFree e
  attends : (s.conns e).Attends first got

/-- A connection of the client is as it was, but for its active events and its link. -/
lemma Conn.Attends.polled {first : ℕ} {c : Conn} {got : List (List UInt8)} (h : c.Attends first got)
    {m : Mask} (hm : m.write = false) (next : Option ℕ) :
    Conn.Attends first { c with activeEvents := m, next := next } got where
  rested := ⟨h.rested.read, h.rested.write, h.rested.dead, h.rested.add, h.rested.close⟩
  handler := h.handler
  events := h.events
  active := hm
  request := h.request

lemma Conn.Attends.heard {first : ℕ} {c : Conn} {got got' : List (List UInt8)}
    (h : c.Attends first got) {request : Option Request}
    (hrequest : (request = none ∧ got' = []) ∨
      ∃ r ph, request = some r ∧ r.Underway first got' ph) :
    Conn.Attends first { c with request := request } got' where
  rested := ⟨h.rested.read, h.rested.write, h.rested.dead, h.rested.add, h.rested.close⟩
  handler := h.handler
  events := h.events
  active := h.active
  request := hrequest

lemma Attended.poll {first e : ℕ} {s : Net} {got : List (List UInt8)} (h : Attended first e s got)
    {maxEvents : ℕ} {reports : List (ℕ × Mask)} (hreported : Reported maxEvents s.kernel reports)
    (hrest : Resting (poll s reports)) : Attended first e (Xpipe.poll s reports) got ∧
      ((Xpipe.poll s reports).conns e).request = (s.conns e).request := by
  have hbatch := poll_batched s reports
  have hkernel : (Xpipe.poll s reports).kernel = s.kernel := by
    unfold Xpipe.poll
    rw [(foldl_pollOne reports s).rest]
  obtain ⟨m, next, hconn⟩ := hbatch.conn e
  have hm : m.write = false := by
    have hactive : ((reports.foldl pollOne s).conns e).activeEvents = m :=
      congrArg Conn.activeEvents hconn
    rcases foldl_pollOne_active reports s e with hsame | ⟨p, hp, hpe, hlast⟩
    · rw [← hactive, hsame]
      exact h.attends.active
    · obtain ⟨fd, m', hreg, hle⟩ := hreported.registered p hp
      rw [hpe] at hreg
      have hfree := h.writeFree fd m' hreg
      rw [← hactive, hlast, ← Bool.not_eq_true]
      intro hbad
      rw [hle.2 hbad] at hfree
      cases hfree
  refine ⟨⟨hrest, hbatch.bufSize.trans h.size, ?_, ?_, ?_⟩, ?_⟩
  · rw [hbatch.taken]
    exact h.taken
  · rw [hkernel]
    exact h.writeFree
  · rw [hconn]
    exact h.attends.polled hm next
  · rw [hconn]

/-- **A step elsewhere** leaves the conversation as it is. -/
lemma Attended.elsewhere {first e : ℕ} {s : Net} {got : List (List UInt8)}
    (h : Attended first e s got) {i : Input} (hi : PollsValid s i)
    (hother : ∀ o, i = .dispatch o → ¬ (s.crashed = false ∧ s.cursor = some e)) :
    Attended first e (netStep s i) got ∧
      ((netStep s i).conns e).request = (s.conns e).request := by
  have hrest := netStep_resting h.resting i hi
  rcases netStep_cases h.resting i with ⟨-, hnone⟩ | ⟨d, o, rfl, hcur, hc, hd, hround⟩
  · unfold netStep at hrest ⊢
    split_ifs at hrest ⊢ with hc
    · exact ⟨h, rfl⟩
    cases i with
    | poll reports =>
      cases hcur : s.cursor with
      | none =>
        rw [hcur] at hrest
        exact h.poll hi hrest
      | some d => exact ⟨h, rfl⟩
    | dispatch o =>
      cases hcur : s.cursor with
      | none => exact ⟨h, rfl⟩
      | some d => exact absurd (hnone d o rfl hcur) hc
  · have hne : d ≠ e := by
      rintro rfl
      exact hother o rfl ⟨hc, hcur⟩
    obtain ⟨htaken, hconn⟩ := hround.around.kept e h.taken (Ne.symm hne)
    refine ⟨⟨hrest, hround.around.bufSize.trans h.size, htaken, ?_, hconn ▸ h.attends⟩, by rw [hconn]⟩
    rw [netStep_dispatch hc hcur]
    exact dispatch_writeFree h.writeFree hne o

/-- The rest of a round on the client, after its read has left it with `request`. -/
lemma Attended.settles {first e : ℕ} {s : Net} {got got' : List (List UInt8)} {o : Outcomes}
    (h : Attended first e s got) (hc : s.crashed = false) (hcur : s.cursor = some e)
    {request : Option Request}
    (hconn : (readConn s.bufSize e (s.conns e) s.trace o).1 = { s.conns e with request := request })
    (hrequest : (request = none ∧ got' = []) ∨
      ∃ r ph, request = some r ∧ r.Underway first got' ph) :
    Attended first e (netStep s (.dispatch o)) got' ∧
      ((netStep s (.dispatch o)).conns e).request = request := by
  have hrest := netStep_resting h.resting (.dispatch o) trivial
  obtain ⟨hkernel, hconns, htaken, hsize⟩ := dispatch_quiet hc h.attends.handler h.attends.active hconn
    h.attends.rested.dead h.attends.rested.add h.attends.rested.close
  rw [netStep_dispatch hc hcur] at hrest ⊢
  refine ⟨⟨hrest, hsize.trans h.size, htaken ▸ h.taken, hkernel ▸ h.writeFree, ?_⟩, ?_⟩
  · rw [hconns]
    exact h.attends.heard hrequest
  · rw [hconns]

/-- What a round on the client reads and writes: nothing, or what its read handler does. -/
lemma Conn.Attends.quiet {first : ℕ} {c : Conn} {got : List (List UInt8)} (h : c.Attends first got)
    (hread : c.activeEvents.read ≠ true) (e : ℕ) (t : Trace) (o : Outcomes) :
    (readConn first e c t o).1 = c ∧ readsIn first c t o = [] ∧ writesIn first e c t o = [] := by
  have hno : ¬ (c.activeEvents.read = true ∧ c.readEventHandler = some .recv) := fun hh => hread hh.1
  simp [readConn, readsIn, writesIn, hno, h.active]

lemma Conn.Attends.reads {first e : ℕ} {c : Conn} {got : List (List UInt8)} {t : Trace}
    {o : Outcomes} {segment answer : List UInt8} {request : Option Request}
    (h : c.Attends first got) (hread : c.activeEvents.read = true)
    (hheard : Heard first e c t o segment request answer) :
    (readConn first e c t o).1 = { c with request := request } ∧
      readsIn first c t o = [segment] ∧ writesIn first e c t o = answer := by
  have hyes : c.activeEvents.read = true ∧ c.readEventHandler = some .recv := ⟨hread, h.handler⟩
  refine ⟨?_, ?_, ?_⟩
  · rw [readConn, if_pos hyes]
    exact hheard.conn
  · rw [readsIn, if_pos hyes, hheard.read]
    rfl
  · rw [writesIn, if_pos hyes, hheard.written]
    simp [h.active]

/-- A round on the client whose read gives the segment `c`: the last one of a request is
answered and ends it, the request is released, and nothing is written before. -/
def TakesSegment (first e : ℕ) (s : Net) (o : Outcomes) (got : List (List UInt8))
    (c : List UInt8) : Prop :=
  ∀ (x : Sending first) (more : List (List UInt8)), x.segments = got ++ c :: more →
    (more = [] ∧ writesIn s.bufSize e (s.conns e) s.trace o = x.reply ∧
      ReleasesRequest s (.dispatch o) ∧ Attended first e (netStep s (.dispatch o)) [] ∧
      ((netStep s (.dispatch o)).conns e).request = none) ∨
    (more ≠ [] ∧ writesIn s.bufSize e (s.conns e) s.trace o = [] ∧
      Attended first e (netStep s (.dispatch o)) (got ++ [c]))

lemma Attended.takes {first e : ℕ} {s : Net} {got : List (List UInt8)} {o : Outcomes}
    (h : Attended first e s got) (hfirst : 0 < first) (hc : s.crashed = false)
    (hcur : s.cursor = some e) (ho : o.Serves) (hread : (s.conns e).activeEvents.read = true)
    {r : Request} {ph : Phase} (hr : reader first (s.conns e) s.trace o = some r)
    (hunder : r.Underway first got ph) (hgot : r.got o.read ≠ []) :
    TakesSegment first e s o got (r.got o.read) := by
  intro x more hsegments
  have hatt := h.attends
  by_cases hmore : more = []
  · left
    subst hmore
    obtain ⟨r', hends, hreply⟩ := hunder.last hsegments
    obtain ⟨hconn, -, hwrites⟩ := hatt.reads hread (heard_last e hr hends ho.writes hatt.events)
    have hanswered : answered first (s.conns e) s.trace o = some r' := by
      rw [answered, hr, Option.bind_some, hends]
    have hreleased : r'.Released o.readWrites := by
      right
      rw [show (r'.delivery o.readWrites).2 = .complete from (sendLoop_writes ho.writes).1]
      decide
    rw [← h.size] at hconn hwrites hanswered
    obtain ⟨hnext, hreq⟩ := h.settles hc hcur hconn (Or.inl ⟨rfl, rfl⟩)
    exact ⟨rfl, hwrites.trans hreply,
      ⟨hc, e, hcur, Or.inl ⟨hread, hatt.handler, r', hanswered, hreleased⟩⟩, hnext, hreq⟩
  · right
    obtain ⟨hcode, ph', hunder'⟩ := hunder.next hfirst hsegments hmore
    obtain ⟨hconn, -, hwrites⟩ := hatt.reads hread (heard_next e hr hgot hcode ho.chainAlloc)
    rw [← h.size] at hconn hwrites
    obtain ⟨hnext, -⟩ := h.settles hc hcur hconn (Or.inr ⟨_, ph', rfl, hunder'⟩)
    exact ⟨hmore, hwrites, hnext⟩

/-- A request under way has room, so bytes that have come are read. -/
lemma Request.Underway.got_ne_nil {first : ℕ} {r : Request} {got : List (List UInt8)} {ph : Phase}
    (h : r.Underway first got ph) {data : List UInt8} (hdata : data ≠ []) :
    r.got (.bytes data) ≠ [] := by
  have hroom : 0 < r.room := by
    rw [h.laid.room]
    exact h.room
  intro hnil
  rcases List.take_eq_nil_iff.mp hnil with hzero | hempty
  · omega
  · exact hdata hempty

/-- **A round on the client**: no read, EAGAIN, or a segment. -/
lemma Attended.round {first e : ℕ} {s : Net} {got : List (List UInt8)} {o : Outcomes}
    (h : Attended first e s got) (hfirst : 0 < first) (hc : s.crashed = false)
    (hcur : s.cursor = some e) (ho : o.Serves) :
    let s' := netStep s (.dispatch o)
    let reads := readsIn s.bufSize (s.conns e) s.trace o
    let writes := writesIn s.bufSize e (s.conns e) s.trace o
    (reads = [] ∧ writes = [] ∧ Attended first e s' got ∧
      (s'.conns e).request = (s.conns e).request) ∨
    (reads = [[]] ∧ writes = [] ∧ Attended first e s' got) ∨
    ∃ c, c ≠ [] ∧ reads = [c] ∧ TakesSegment first e s o got c := by
  intro s' reads writes
  have hatt := h.attends
  by_cases hread : (s.conns e).activeEvents.read = true
  swap
  · obtain ⟨hconn, hreads, hwrites⟩ := hatt.quiet hread e s.trace o
    rw [← h.size] at hconn hreads hwrites
    have hsame : s.conns e = { s.conns e with request := (s.conns e).request } := rfl
    obtain ⟨hnext, hreq⟩ := h.settles hc hcur (hconn.trans hsame) hatt.request
    exact Or.inl ⟨hreads, hwrites, hnext, hreq⟩
  right
  obtain ⟨r, ph, hr, hunder⟩ := hatt.reader hfirst ho s.trace
  rcases ho.read with hagain | ⟨data, hdata, hbytes⟩
  · left
    obtain ⟨hconn, hreads, hwrites⟩ := hatt.reads hread (heard_again e hagain hr)
    rw [← h.size] at hconn hreads hwrites
    obtain ⟨hnext, -⟩ := h.settles hc hcur hconn (Or.inr ⟨r, ph, rfl, hunder⟩)
    exact ⟨hreads, hwrites, hnext⟩
  · right
    have hgot : r.got o.read ≠ [] := hbytes ▸ hunder.got_ne_nil hdata
    have hreads : readsIn first (s.conns e) s.trace o = [r.got o.read] := by
      rw [readsIn, if_pos ⟨hread, hatt.handler⟩, hr]
      rfl
    rw [← h.size] at hreads
    exact ⟨r.got o.read, hgot, hreads, h.takes hfirst hc hcur ho hread hr hunder hgot⟩

/-! ## A conversation -/

/-- The segments that were read, EAGAIN left out. -/
def Session.segments (x : Session) : List (List UInt8) := x.reads.filter (fun c => c ≠ [])

/-- Of the requests `all`, those of `done` have been read to the last byte, and of the
one behind them `got`, which stops short of its last byte. What has been written are the
answers to `done`; after each request the connection has none and is not closed. -/
structure Answered {first : ℕ} (e : ℕ) (all done rest : List (Sending first))
    (got : List (List UInt8)) (x : Session) : Prop where
  split : all = done ++ rest
  read : x.segments = done.flatMap Sending.segments ++ got
  short : (rest = [] ∧ got = []) ∨
    ∃ y ys c more, rest = y :: ys ∧ y.segments = got ++ c :: more
  written : x.written = done.flatMap Sending.reply
  isOpen : (x.net.conns e).close = false
  ended : got = [] → x.reads.getLast? ≠ some [] → (x.net.conns e).request = none

lemma Sending.segments_ne_nil {first : ℕ} (x : Sending first) : x.segments ≠ [] := by
  intro hnil
  have hlen := congrArg List.length x.flatten
  simp [hnil, WireRequest.bytes, headLines, typeLine, crlf] at hlen

lemma short_start {first : ℕ} (rest : List (Sending first)) :
    (rest = [] ∧ ([] : List (List UInt8)) = []) ∨
      ∃ y ys c more, rest = y :: ys ∧ y.segments = [] ++ c :: more := by
  cases rest with
  | nil => exact Or.inl ⟨rfl, rfl⟩
  | cons y ys =>
    obtain ⟨c, more, hc⟩ := List.exists_cons_of_ne_nil y.segments_ne_nil
    exact Or.inr ⟨y, ys, c, more, rfl, hc⟩

/-- The next segment is one of the next request. -/
lemma Answered.next {first e : ℕ} {all done rest : List (Sending first)}
    {got : List (List UInt8)} {x : Session} {c : List UInt8} (h : Answered e all done rest got x)
    (hstream : x.segments ++ [c] <+: all.flatMap Sending.segments) :
    ∃ y ys more, rest = y :: ys ∧ y.segments = got ++ c :: more := by
  rw [h.read, h.split, List.flatMap_append, List.append_assoc,
    List.prefix_append_right_inj] at hstream
  rcases h.short with ⟨rfl, rfl⟩ | ⟨y, ys, c', more, rfl, hy⟩
  · simp at hstream
  · rw [List.flatMap_cons, hy, List.append_assoc, List.prefix_append_right_inj, List.cons_append,
      List.cons_prefix_cons] at hstream
    exact ⟨y, ys, more, rfl, hstream.1 ▸ hy⟩

/-- A step that reads no bytes and writes none. -/
lemma Answered.stays {first e : ℕ} {all done rest : List (Sending first)}
    {got : List (List UInt8)} {x x' : Session} (h : Answered e all done rest got x)
    (hsegments : x'.segments = x.segments) (hwritten : x'.written = x.written)
    (hclose : (x'.net.conns e).close = false)
    (hended : got = [] → x'.reads.getLast? ≠ some [] → (x'.net.conns e).request = none) :
    Answered e all done rest got x' :=
  ⟨h.split, hsegments.trans h.read, h.short, hwritten.trans h.written, hclose, hended⟩

/-- A step that reads a segment of the request `y`, and not its last one. -/
lemma Answered.reads {first e : ℕ} {all done ys : List (Sending first)} {y : Sending first}
    {got more : List (List UInt8)} {x x' : Session} {c : List UInt8}
    (h : Answered e all done (y :: ys) got x) (hy : y.segments = got ++ c :: more)
    (hmore : more ≠ []) (hsegments : x'.segments = x.segments ++ [c])
    (hwritten : x'.written = x.written) (hclose : (x'.net.conns e).close = false) :
    Answered e all done (y :: ys) (got ++ [c]) x' := by
  obtain ⟨d, ds, hd⟩ := List.exists_cons_of_ne_nil hmore
  refine ⟨h.split, ?_, Or.inr ⟨y, ys, d, ds, rfl, ?_⟩, hwritten.trans h.written, hclose, ?_⟩
  · rw [hsegments, h.read, List.append_assoc]
  · rw [hy, hd, List.append_assoc]
    rfl
  · intro hnil
    simp at hnil

/-- A step that reads the last segment of the request `y` and answers it. -/
lemma Answered.ends {first e : ℕ} {all done ys : List (Sending first)} {y : Sending first}
    {got : List (List UInt8)} {x x' : Session} {c : List UInt8}
    (h : Answered e all done (y :: ys) got x) (hy : y.segments = got ++ [c])
    (hsegments : x'.segments = x.segments ++ [c]) (hwritten : x'.written = x.written ++ y.reply)
    (hclose : (x'.net.conns e).close = false) (hreq : (x'.net.conns e).request = none) :
    Answered e all (done ++ [y]) ys [] x' := by
  refine ⟨?_, ?_, short_start ys, ?_, hclose, fun _ _ => hreq⟩
  · rw [h.split, List.append_assoc]
    rfl
  · rw [hsegments, h.read, List.flatMap_append, List.flatMap_singleton, hy, List.append_nil,
      List.append_assoc]
  · rw [hwritten, h.written, List.flatMap_append, List.flatMap_singleton]

lemma Session.step_net (e : ℕ) (x : Session) (i : Input) : (x.step e i).net = netStep x.net i := by
  unfold Session.step
  cases i with
  | poll reports => rfl
  | dispatch o =>
    simp only
    split_ifs <;> rfl

lemma Session.foldl_net (e : ℕ) (x : Session) (inputs : List Input) :
    (inputs.foldl (Session.step e) x).net = inputs.foldl netStep x.net := by
  induction inputs generalizing x with
  | nil => rfl
  | cons i is ih => rw [List.foldl_cons, ih, Session.step_net, List.foldl_cons]

/-- A step that is not a round on the client leaves the notes alone. -/
lemma Session.step_elsewhere {e : ℕ} {x : Session} {i : Input}
    (h : ∀ o, i = .dispatch o → ¬ (x.net.crashed = false ∧ x.net.cursor = some e)) :
    x.step e i = { x with net := netStep x.net i } := by
  unfold Session.step
  cases i with
  | poll reports => rfl
  | dispatch o => simp only [if_neg (h o rfl)]

/-- The outcomes of the rounds on the entry `e` are those of a conversation. -/
def ServesOn (e : ℕ) (s : Net) (i : Input) : Prop :=
  ∀ o, i = .dispatch o → s.cursor = some e → o.Serves

/-- A round on the client adds to the notes what it reads and writes. -/
lemma Session.step_round {e : ℕ} {x : Session} (o : Outcomes) (hc : x.net.crashed = false)
    (hcur : x.net.cursor = some e) : x.step e (.dispatch o) =
      ⟨netStep x.net (.dispatch o),
        x.reads ++ readsIn x.net.bufSize (x.net.conns e) x.net.trace o,
        x.written ++ writesIn x.net.bufSize e (x.net.conns e) x.net.trace o⟩ := by
  simp only [Session.step, hc, hcur, and_self, if_true]

/-- **One step of a conversation.** -/
lemma Answered.step {first e : ℕ} {all done rest : List (Sending first)}
    {got : List (List UInt8)} {x : Session} {i : Input} (hfirst : 0 < first)
    (hatt : Attended first e x.net got) (h : Answered e all done rest got x)
    (hi : PollsValid x.net i) (ho : ServesOn e x.net i)
    (hstream : (x.step e i).segments <+: all.flatMap Sending.segments) :
    ∃ done' rest' got', Attended first e (x.step e i).net got' ∧
      Answered e all done' rest' got' (x.step e i) ∧
      (done' ≠ [] → done ≠ [] ∨ ReleasesRequest x.net i) := by
  by_cases hhere : ∀ o, i = .dispatch o → ¬ (x.net.crashed = false ∧ x.net.cursor = some e)
  · obtain ⟨hnext, hreq⟩ := hatt.elsewhere hi hhere
    rw [Session.step_elsewhere hhere]
    exact ⟨done, rest, got, hnext, h.stays rfl rfl hnext.attends.rested.close
      (fun hgot hlast => hreq.trans (h.ended hgot hlast)), Or.inl⟩
  push Not at hhere
  obtain ⟨o, rfl, hc, hcur⟩ := hhere
  rw [Session.step_round o hc hcur] at hstream ⊢
  rcases hatt.round hfirst hc hcur (ho o rfl hcur) with
    ⟨hreads, hwrites, hnext, hreq⟩ | ⟨hreads, hwrites, hnext⟩ | ⟨c, hne, hreads, hsegment⟩
  · rw [hreads, hwrites, List.append_nil, List.append_nil]
    exact ⟨done, rest, got, hnext, h.stays rfl rfl hnext.attends.rested.close
      (fun hgot hlast => hreq.trans (h.ended hgot hlast)), Or.inl⟩
  · rw [hreads, hwrites, List.append_nil]
    refine ⟨done, rest, got, hnext, h.stays ?_ rfl hnext.attends.rested.close ?_, Or.inl⟩
    · simp [Session.segments]
    · intro _ hlast
      simp at hlast
  · rw [hreads] at hstream ⊢
    have hread (written : List UInt8) : (Session.mk (netStep x.net (.dispatch o))
        (x.reads ++ [c]) written).segments = x.segments ++ [c] := by
      simp [Session.segments, hne]
    rw [hread] at hstream
    obtain ⟨y, ys, more, rfl, hy⟩ := h.next hstream
    rcases hsegment y more hy with
      ⟨rfl, hwrites, hreleases, hnext, hreq⟩ | ⟨hmore, hwrites, hnext⟩
    · rw [hwrites]
      exact ⟨done ++ [y], ys, [], hnext,
        h.ends hy (hread _) rfl hnext.attends.rested.close hreq, fun _ => Or.inr hreleases⟩
    · rw [hwrites, List.append_nil]
      exact ⟨done, y :: ys, got ++ [c], hnext,
        h.reads hy hmore (hread _) rfl hnext.attends.rested.close, Or.inl⟩

lemma Session.segments_step (e : ℕ) (x : Session) (i : Input) :
    x.segments <+: (x.step e i).segments := by
  unfold Session.step Session.segments
  cases i with
  | poll reports => exact List.prefix_refl _
  | dispatch o =>
    simp only
    split_ifs
    · rw [List.filter_append]
      exact List.prefix_append _ _
    · exact List.prefix_refl _

/-- **A run of steps of a conversation.** -/
lemma Answered.run {first e : ℕ} {all : List (Sending first)} (hfirst : 0 < first) {s : Net}
    (inputs : List Input) (hatt : Attended first e s []) (hreq : (s.conns e).request = none)
    (henv : Along netStep (fun s i => PollsValid s i ∧ ServesOn e s i) s inputs)
    (hstream : (inputs.foldl (Session.step e) ⟨s, [], []⟩).segments <+:
      all.flatMap Sending.segments) :
    ∃ done rest got, Attended first e (inputs.foldl (Session.step e) ⟨s, [], []⟩).net got ∧
      Answered e all done rest got (inputs.foldl (Session.step e) ⟨s, [], []⟩) ∧
      (done ≠ [] → ¬ Along netStep (fun s i => ¬ ReleasesRequest s i) s inputs) := by
  have henv' : Along (Session.step e) (fun x i => PollsValid x.net i ∧ ServesOn e x.net i)
      ⟨s, [], []⟩ inputs :=
    (along_map (f := Session.net) (P := fun s i => PollsValid s i ∧ ServesOn e s i)
      (Session.step_net e)).mpr henv
  clear henv
  -- from the end: the stream is known to fit at the last step, and so before it
  induction inputs using List.reverseRecOn with
  | nil =>
    refine ⟨[], all, [], hatt, ⟨rfl, rfl, short_start all, rfl, hatt.attends.rested.close, ?_⟩,
      fun h => absurd rfl h⟩
    intro _ _
    exact hreq
  | append_singleton is i ih =>
    rw [List.foldl_append, List.foldl_cons, List.foldl_nil] at hstream ⊢
    obtain ⟨hbefore, hlast, -⟩ := along_append.mp henv'
    obtain ⟨done, rest, got, hatt', h, hreleased⟩ :=
      ih ((Session.segments_step e _ i).trans hstream) hbefore
    obtain ⟨done', rest', got', hnext, hstep, hmore⟩ := h.step hfirst hatt' hlast.1 hlast.2 hstream
    refine ⟨done', rest', got', hnext, hstep, fun hdone hno => ?_⟩
    obtain ⟨hfront, hhere, -⟩ := along_append.mp hno
    rcases hmore hdone with hbefore | hreleases
    · exact hreleased hbefore hfront
    · rw [Session.foldl_net] at hreleases
      exact hhere hreleases

/-- A step that takes the entry `e` accepts a client on it. -/
lemma attended_accepted {s : Net} {e : ℕ} {i : Input} (h : Resting s) (hi : PollsValid s i)
    (hout : e ∉ s.taken) (hin : e ∈ (netStep s i).taken) :
    Attended s.bufSize e (netStep s i) [] ∧ ((netStep s i).conns e).request = none := by
  have hrest := netStep_resting h i hi
  have hsize := netStep_bufSize h i
  rcases netStep_cases h i with ⟨hbatch, -⟩ | ⟨d, o, rfl, hcur, hc, hd, hround⟩
  · rw [hbatch.taken] at hin
    exact absurd hin hout
  have hne : d ≠ e := by
    rintro rfl
    exact hout hd
  obtain ⟨free, act, -, hf⟩ := h.wired
  have hfree : s.kernel.WriteFree e := by
    intro fd m hreg
    exact absurd (hf.registered fd m e hreg).1 hout
  have hkernel : (netStep s (.dispatch o)).kernel.WriteFree e := by
    rw [netStep_dispatch hc hcur]
    exact dispatch_writeFree hfree hne o
  obtain ⟨fd, p, hconn⟩ := hround.around.new e hin hout
  refine ⟨⟨hrest, hsize, hin, hkernel, ?_⟩, by rw [hconn]; rfl⟩
  rw [hconn]
  exact ⟨rested_client fd p, rfl, rfl, rfl, Or.inl ⟨rfl, rfl⟩⟩

/-- In a run of the server whose steps meet `Q` the last step has accepted a client on the
entry `e`. -/
def JustAccepted (Q : Net → Input → Prop) (bufSize e : ℕ) (s : Net) : Prop :=
  ∃ n sockFd garbage before accept, 1 ≤ n ∧
    Along netStep Q (initNetworkMod n sockFd bufSize garbage) (before ++ [accept]) ∧
    e ∉ (before.foldl netStep (initNetworkMod n sockFd bufSize garbage)).taken ∧
    s = (before ++ [accept]).foldl netStep (initNetworkMod n sockFd bufSize garbage) ∧ e ∈ s.taken

lemma along_polls {e : ℕ} {s : Net} {inputs : List Input}
    (h : Along netStep (fun s i => PollsValid s i ∧ ServesOn e s i) s inputs) :
    Along netStep PollsValid s inputs :=
  along_mono (I := fun _ => True) (fun _ _ _ _ => trivial) (fun _ _ _ hi => hi.1) trivial h

lemma JustAccepted.sizing {bufSize e : ℕ} {s : Net} (h : JustAccepted PollsValid bufSize e s) :
    Sizing (requestBufferSize bufSize) s ∧
      (¬ LargeBuffers (requestBufferSize bufSize) → s.trace.aborted = false) := by
  obtain ⟨n, sockFd, garbage, before, accept, hn, hpolls, -, rfl, -⟩ := h
  have hinit := initNetworkMod_sizing hn sockFd bufSize garbage
  refine ⟨invariant_foldl (I := Sizing (requestBufferSize bufSize))
    (fun s i hs hi => netStep_sizing hs hi) hinit hpolls, fun hsmall => ?_⟩
  exact (hinit.alive_iff hpolls).mpr
    ⟨initNetworkMod_alive n sockFd bufSize garbage, fun hlarge => absurd hlarge hsmall⟩

lemma JustAccepted.attended {bufSize e : ℕ} {s : Net} (h : JustAccepted PollsValid bufSize e s) :
    Attended (requestBufferSize bufSize) e s [] ∧ (s.conns e).request = none := by
  obtain ⟨n, sockFd, garbage, before, accept, hn, hpolls, hout, rfl, hin⟩ := h
  obtain ⟨hbefore, hlast, -⟩ := along_append.mp hpolls
  have hrest := invariant_foldl (I := Sizing (requestBufferSize bufSize))
    (fun s i hs hi => netStep_sizing hs hi) (initNetworkMod_sizing hn sockFd bufSize garbage)
    hbefore
  rw [List.foldl_append, List.foldl_cons, List.foldl_nil] at hin ⊢
  have haccepted := attended_accepted hrest.resting hlast hout hin
  rwa [hrest.bufSize] at haccepted

/-- With small buffers the process goes on. -/
lemma JustAccepted.spared {bufSize e : ℕ} {s : Net} (h : JustAccepted PollsValid bufSize e s)
    {inputs : List Input}
    (henv : Along netStep (fun s i => PollsValid s i ∧ ServesOn e s i) s inputs)
    (hsmall : requestBufferSize bufSize + bufferHeader ≤ maxSizeOfChunk) :
    (inputs.foldl (Session.step e) ⟨s, [], []⟩).net.trace.aborted = false := by
  obtain ⟨hsizing, hstart⟩ := h.sizing
  have hno : ¬ LargeBuffers (requestBufferSize bufSize) := not_lt.mpr hsmall
  rw [Session.foldl_net]
  exact (hsizing.alive_iff (along_polls henv)).mpr ⟨hstart hno, fun hlarge => absurd hlarge hno⟩

/-- **Well-formed requests are answered in order, each when its last byte has been read.**
At every point of every run from the acceptance of a client, whatever the other
connections do, its connection has written the answers to the requests that have been
read to their end, and nothing else; a process with large buffers has ended if there are
such. -/
theorem conversation {bufSize e : ℕ} {s : Net} {inputs : List Input}
    {all : List (Sending (requestBufferSize bufSize))}
    (haccepted : JustAccepted PollsValid bufSize e s)
    (henv : Along netStep (fun s i => PollsValid s i ∧ ServesOn e s i) s inputs)
    (hstream : (inputs.foldl (Session.step e) ⟨s, [], []⟩).segments <+:
      all.flatMap Sending.segments) :
    ∃ done rest got, Answered e all done rest got (inputs.foldl (Session.step e) ⟨s, [], []⟩) ∧
      (LargeBuffers (requestBufferSize bufSize) → done ≠ [] →
        (inputs.foldl (Session.step e) ⟨s, [], []⟩).net.trace.aborted = true) := by
  obtain ⟨hatt, hreq⟩ := haccepted.attended
  have halive := haccepted.sizing.1.alive_iff (along_polls henv)
  obtain ⟨done, rest, got, -, h, hreleased⟩ :=
    Answered.run (requestBufferSize_pos bufSize) inputs hatt hreq henv hstream
  refine ⟨done, rest, got, h, fun hlarge hdone => ?_⟩
  rw [Session.foldl_net, ← Bool.not_eq_false, halive]
  exact fun hgoes => hreleased hdone (hgoes.2 hlarge)

/-! ## The first request of a server with large buffers -/

/-- The server has accepted its first client. -/
def firstClient (bufSize : ℕ) : Net :=
  [.poll [(0, .readOnly)], .dispatch (outcomes (some 5) [] [] [])].foldl netStep
    (initNetworkMod 2 3 bufSize (fun _ => newConn 0 0))

lemma firstClient_accepted (bufSize : ℕ) : JustAccepted PollsValid bufSize 1 (firstClient bufSize) := by
  have hout : 1 ∉ (initNetworkMod 2 3 bufSize (fun _ => newConn 0 0)).taken := by
    rw [initNetworkMod_eq]
    simp
  refine ⟨2, 3, fun _ => newConn 0 0, [.poll [(0, .readOnly)]],
    .dispatch (outcomes (some 5) [] [] []), by decide,
    ⟨reported_one 3 .readOnly rfl (by decide) ?_, trivial, trivial⟩, hout, rfl, ?_⟩
  · simp [initNetworkMod_eq, serverInit]
  · exact List.mem_of_elem_eq_true rfl

lemma firstClient_count (bufSize : ℕ) : (firstClient bufSize).count = 2 := rfl

lemma serves_outcomes {data : List UInt8} {ws : List WriteResult} (hdata : data ≠ [])
    (hws : Writes ws) : (outcomes none data ws []).Serves :=
  ⟨rfl, fun _ => rfl, rfl, hws, Or.inr ⟨data, hdata, rfl⟩⟩

/-- `GET` in one segment. -/
def getAtOnce (bufSize : ℕ) : Sending (requestBufferSize bufSize) where
  request := getBehind 0
  segments := [(getBehind 0).bytes]
  whole := by
    have hroom := requestBufferSize_ge bufSize
    refine whole_of_head ?_ (fun hput => ?_)
    · have hline : (typeLine (getBehind 0).blanks (getBehind 0).type).length ≤ bufferMinSize := by
        decide
      exact hline.trans hroom
    · cases hput
  flatten := by decide
  ne_nil := by decide

/-- The client sends a `GET`. -/
def getAlone : List Input :=
  [.poll [(1, .readOnly)], .dispatch (outcomes none (getBehind 0).bytes [] [])]

/-- The read takes all of it: there is room for it in the first buffer. -/
lemma getAlone_segments (bufSize : ℕ) :
    (getAlone.foldl (Session.step 1) ⟨firstClient bufSize, [], []⟩).segments =
      [(getBehind 0).bytes] := by
  have hreads : readsIn (netStep (firstClient bufSize) (.poll [(1, .readOnly)])).bufSize
      ((netStep (firstClient bufSize) (.poll [(1, .readOnly)])).conns 1)
      (netStep (firstClient bufSize) (.poll [(1, .readOnly)])).trace
      (outcomes none (getBehind 0).bytes [] []) = [(getBehind 0).bytes] := by
    have hroom := requestBufferSize_ge bufSize
    have hlength : (getBehind 0).bytes.length ≤ bufferMinSize := by decide
    unfold readsIn
    rw [if_pos ⟨rfl, rfl⟩, reader_new rfl rfl (fun _ => rfl)]
    exact congrArg (fun l => [l]) (List.take_of_length_le (hlength.trans hroom))
  have hpoll : Session.step 1 ⟨firstClient bufSize, [], []⟩ (.poll [(1, .readOnly)]) =
      ⟨netStep (firstClient bufSize) (.poll [(1, .readOnly)]), [], []⟩ := rfl
  rw [getAlone, List.foldl_cons, List.foldl_cons, List.foldl_nil, hpoll,
    Session.step_round _ rfl rfl]
  simp only [Session.segments, hreads]
  decide

/-- Its answer ends a process with large buffers. -/
lemma getAlone_aborted (bufSize : ℕ) (hlarge : LargeBuffers (requestBufferSize bufSize)) :
    Along netStep (fun s i => PollsValid s i ∧ ServesOn 1 s i) (firstClient bufSize) getAlone ∧
      (getAlone.foldl (Session.step 1) ⟨firstClient bufSize, [], []⟩).segments <+:
        [getAtOnce bufSize].flatMap Sending.segments ∧
      (getAlone.foldl (Session.step 1) ⟨firstClient bufSize, [], []⟩).net.trace.aborted = true := by
  have henv : Along netStep (fun s i => PollsValid s i ∧ ServesOn 1 s i) (firstClient bufSize)
      getAlone := by
    refine ⟨⟨reported_one 5 .readOnly rfl (by decide) ?_, fun _ ho => by cases ho⟩, ⟨trivial, ?_⟩,
      trivial⟩
    · rw [firstClient_count]
    · rintro o ho -
      cases ho
      exact serves_outcomes (by decide) (by simp [Writes])
  have hsegments := getAlone_segments bufSize
  have hstream : (getAlone.foldl (Session.step 1) ⟨firstClient bufSize, [], []⟩).segments <+:
      [getAtOnce bufSize].flatMap Sending.segments := by
    rw [hsegments]
    exact List.prefix_refl _
  obtain ⟨done, rest, got, h, hends⟩ := conversation (firstClient_accepted bufSize) henv hstream
  refine ⟨henv, hstream, hends hlarge ?_⟩
  -- a request of which the only segment was read has been answered
  rintro rfl
  have hread := h.read
  have hsplit := h.split
  rw [hsegments] at hread
  simp only [List.flatMap_nil, List.nil_append] at hread hsplit
  rcases h.short with ⟨-, rfl⟩ | ⟨y, ys, c, more, hy, hmore⟩
  · cases hread
  · rw [← hsplit] at hy
    cases hy
    rw [← hread] at hmore
    cases hmore

/-- **Well-formed requests are answered in order, and the process runs on, exactly when
the buffers of a request come from the chunks of its pool.** -/
theorem conversation_iff (bufSize : ℕ) :
    (∀ (e : ℕ) (s : Net) (inputs : List Input)
        (all : List (Sending (requestBufferSize bufSize))),
      JustAccepted PollsValid bufSize e s →
      Along netStep (fun s i => PollsValid s i ∧ ServesOn e s i) s inputs →
      (inputs.foldl (Session.step e) ⟨s, [], []⟩).segments <+: all.flatMap Sending.segments →
      (inputs.foldl (Session.step e) ⟨s, [], []⟩).net.trace.aborted = false ∧
        ∃ done rest got,
          Answered e all done rest got (inputs.foldl (Session.step e) ⟨s, [], []⟩)) ↔
      requestBufferSize bufSize + bufferHeader ≤ maxSizeOfChunk := by
  constructor
  · intro hall
    by_contra hno
    have hlarge : LargeBuffers (requestBufferSize bufSize) := not_le.mp hno
    obtain ⟨henv, hstream, haborted⟩ := getAlone_aborted bufSize hlarge
    have halive := (hall 1 _ getAlone _ (firstClient_accepted bufSize) henv hstream).1
    rw [haborted] at halive
    cases halive
  · intro hsmall e s inputs all haccepted henv hstream
    obtain ⟨done, rest, got, h, -⟩ := conversation haccepted henv hstream
    exact ⟨haccepted.spared henv hsmall, done, rest, got, h⟩

/-- With buffers of 5000 bytes the process ends at its first answer. -/
theorem conversation_large :
    ¬ ∀ (inputs : List Input) (all : List (Sending (requestBufferSize 5000))),
      Along netStep (fun s i => PollsValid s i ∧ ServesOn 1 s i) (firstClient 5000) inputs →
      (inputs.foldl (Session.step 1) ⟨firstClient 5000, [], []⟩).segments <+:
        all.flatMap Sending.segments →
      (inputs.foldl (Session.step 1) ⟨firstClient 5000, [], []⟩).net.trace.aborted = false := by
  intro hall
  obtain ⟨henv, hstream, haborted⟩ := getAlone_aborted 5000 (by decide)
  rw [hall getAlone _ henv hstream] at haborted
  cases haborted

end Xpipe
