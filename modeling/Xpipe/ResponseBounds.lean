import Xpipe.ParserCalls
import Xpipe.ReadRoom

/-!
# The bounds of the response buffer

`tcp_respone_generate` appends to the response buffer of a request without
looking at its end. The buffer has at least `BUFFER_MIN_SIZE` bytes, so one
answer always fits; a request that stays on its connection because its answer
stops at EAGAIN can be answered again, and nothing bounds how often.
-/
namespace Xpipe
open Linked Runs

/-- The text that `tcp_respone_generate` appends. -/
def Request.reply (r : Request) : List UInt8 :=
  match r.protocol.type with
  | .put => if r.error ≠ .ok then errorText else okText
  | _ => []

/-- The bytes that its `sprintf` stores from `last` on: the text and a NUL. -/
def Request.stores (r : Request) : ℕ :=
  match r.protocol.type with
  | .put => r.reply.length + 1
  | _ => 0

/-- `tcp_respone_generate` stores inside the response buffer. -/
def Request.InBounds (r : Request) : Prop :=
  r.response.bytes.length + r.stores ≤ r.response.size

instance (r : Request) : Decidable r.InBounds := inferInstanceAs (Decidable (_ ≤ _))

lemma tcpResponeGenerate_response (r : Request) : (tcpResponeGenerate r).response =
    { r.response with bytes := r.response.bytes ++ r.reply } := by
  unfold tcpResponeGenerate Request.reply
  cases r.protocol.type with
  | put => rfl
  | _ => simp

lemma reply_length_le (r : Request) : r.reply.length ≤ r.stores := by
  unfold Request.stores
  cases hty : r.protocol.type with
  | put => exact Nat.le_succ _
  | _ => simp [Request.reply, hty]

/-- A send moves `buffer` towards `last` and not past it. -/
lemma sendLoop_bounds (b : Response) (ws : List WriteResult) (h : b.sent ≤ b.bytes.length) :
    (sendLoop b ws).1.size = b.size ∧ (sendLoop b ws).1.bytes = b.bytes ∧
      (sendLoop b ws).1.sent ≤ b.bytes.length := by
  induction ws generalizing b with
  | nil =>
    simp only [sendLoop, Response.unsent, List.length_drop, true_and]
    omega
  | cons w ws ih =>
    cases w with
    | wrote n =>
      have hsent : b.sent + min (max 1 n) b.unsent.length ≤ b.bytes.length := by
        simp only [Response.unsent, List.length_drop]
        omega
      simp only [sendLoop]
      split_ifs
      · exact ⟨rfl, rfl, hsent⟩
      · exact ih _ hsent
    | again => exact ⟨rfl, rfl, h⟩
    | failed => exact ⟨rfl, rfl, h⟩

/-- `response->buffer <= response->last`. -/
def Request.Ordered (r : Request) : Prop := r.response.sent ≤ r.response.bytes.length

/-- The response of a request, inside a buffer of `size` bytes. -/
structure Request.Bounded (size : ℕ) (r : Request) : Prop where
  capacity : r.response.size = size
  ordered : r.Ordered
  inside : r.response.bytes.length ≤ size

/-- The bytes that are read end the request: the parser does not ask for more, or there is
no memory for a block to read more. -/
def Request.EndedBy (r : Request) (o : Outcomes) : Prop :=
  r.got o.read ≠ [] ∧ (r.code o = .ok → lastFull (r.parsed o).buffers = true ∧ o.chainAlloc = false)

/-- The place that one more answer takes: the four bytes of an ok, for a request that was
never refused and is parsed to its end, or the seven of an error, and the NUL. -/
def Request.answerSize (r : Request) (o : Outcomes) : ℕ :=
  if r.error = .ok ∧ r.code o = .done then 5 else 8

/-- The bytes that are read end a `PUT`, and the bytes in its response buffer, four or seven
for each answer to it so far, leave no place for one more answer. -/
def Overfills (c : Conn) (o : Outcomes) : Prop :=
  ∃ r, c.request = some r ∧ r.EndedBy o ∧ (r.parsed o).protocol.type = .put ∧
    r.response.size < r.response.bytes.length + r.answerSize o

lemma ends_isSome_iff (r : Request) (o : Outcomes) : (r.ends o).isSome = true ↔ r.EndedBy o := by
  unfold Request.ends Request.EndedBy
  by_cases hgot : r.got o.read = []
  · simp [hgot]
  rw [if_neg hgot]
  cases hcode : r.code o with
  | ok =>
    cases hfull : lastFull (r.parsed o).buffers <;> cases halloc : o.chainAlloc <;> simp [hgot]
  | _ => simp [hgot]

/-- A request that ends is told whether it was refused. -/
lemma ends_error {r r' : Request} {o : Outcomes} (h : r.ends o = some r') :
    r'.error = .ok ↔ r.error = .ok ∧ r.code o = .done := by
  unfold Request.ends at h
  by_cases hgot : r.got o.read = []
  · simp [hgot] at h
  rw [if_neg hgot] at h
  cases hcode : r.code o with
  | ok =>
    simp only [hcode] at h
    split_ifs at h
    cases h
    simp
  | done =>
    simp only [hcode] at h
    cases h
    simp [Request.parsed]
  | _ =>
    simp only [hcode] at h
    cases h
    simp

/-- **Whether an answer fits** is known before it is made. -/
lemma ends_inBounds_iff {r r' : Request} {o : Outcomes}
    (hin : r.response.bytes.length ≤ r.response.size) (h : r.ends o = some r') :
    r'.InBounds ↔ ¬ ((r.parsed o).protocol.type = .put ∧
      r.response.size < r.response.bytes.length + r.answerSize o) := by
  have herror := ends_error h
  obtain ⟨d, err, hr', -⟩ := ends_eq h
  have hresponse : r'.response = r.response := by
    rw [hr']
    rfl
  have htype : r'.protocol.type = (r.parsed o).protocol.type := by rw [hr']
  unfold Request.InBounds Request.stores Request.reply Request.answerSize
  rw [hresponse, htype]
  cases hty : (r.parsed o).protocol.type with
  | put =>
    by_cases hok : r'.error = .ok
    · rw [if_pos (herror.mp hok)]
      simp only [hok, ne_eq, not_true_eq_false, if_false, true_and, Nat.not_lt]
      exact Iff.rfl
    · rw [if_neg (fun h => hok (herror.mpr h))]
      simp only [hok, ne_eq, not_false_eq_true, if_true, true_and, Nat.not_lt]
      exact Iff.rfl
  | _ => simpa using hin

/-- The request that a read answers keeps its bounds. -/
lemma bounded_keeps {size : ℕ} {c : Conn} {t : Trace} {o : Outcomes}
    (hfit : ∀ r', answered size c t o = some r' → r'.InBounds) :
    ReadKeeps (Request.Bounded size) size c t o := by
  refine ⟨?_, ?_, ?_⟩
  · exact ⟨rfl, Nat.le_refl _, Nat.zero_le _⟩
  · intro r _ hr _ _
    exact ⟨hr.capacity, hr.ordered, hr.inside⟩
  · intro r r' hreader hr hends _ _
    have hin := hfit r' (by rw [answered, hreader, Option.bind_some, hends])
    obtain ⟨d, err, hr', -⟩ := ends_eq hends
    have hresponse : r'.response = r.response := by
      rw [hr']
      rfl
    have hgen := tcpResponeGenerate_response r'
    have hreply := reply_length_le r'
    unfold Request.InBounds at hin
    rw [hresponse] at hgen hin
    have hord : (tcpResponeGenerate r').response.sent ≤
        (tcpResponeGenerate r').response.bytes.length := by
      have hold : r.response.sent ≤ r.response.bytes.length := hr.ordered
      rw [hgen, List.length_append]
      exact hold.trans (Nat.le_add_right _ _)
    obtain ⟨hs, hb, hle⟩ := sendLoop_bounds _ o.readWrites hord
    refine ⟨?_, ?_, ?_⟩
    · rw [← hr.capacity]
      exact hs.trans (by rw [hgen])
    · unfold Request.Ordered
      rw [show (r'.delivered o.readWrites).response.bytes = _ from hb]
      exact hle
    · rw [show (r'.delivered o.readWrites).response.bytes = _ from hb, hgen, List.length_append]
      have hsize := hr.capacity
      omega

lemma bounded_send (size : ℕ) (r : Request) (ws : List WriteResult) (f : Bool)
    (h : r.Bounded size) :
    Request.Bounded size { r with response := (sendLoop r.response ws).1, finish := f } := by
  obtain ⟨hs, hb, hle⟩ := sendLoop_bounds r.response ws h.ordered
  refine ⟨hs.trans h.capacity, ?_, ?_⟩
  · unfold Request.Ordered
    rw [hb]
    exact hle
  · rw [hb]
    exact h.inside

/-! ## A step of the server -/

/-- A round whose read ends a `PUT` that has no place for one more answer. -/
def OverfillingRound (s : Net) : Input → Prop
  | .poll _ => False
  | .dispatch o => s.crashed = false ∧ ∃ e, s.cursor = some e ∧
      (s.conns e).activeEvents.read = true ∧ (s.conns e).readEventHandler = some .recv ∧
      Overfills (s.conns e) o

/-- Every call of `tcp_respone_generate` in a step stores inside the buffer. -/
def GeneratesInside (s : Net) : Input → Prop
  | .poll _ => True
  | .dispatch o => ∀ e r, s.crashed = false → s.cursor = some e →
      (s.conns e).activeEvents.read = true → (s.conns e).readEventHandler = some .recv →
      answered s.bufSize (s.conns e) s.trace o = some r → r.InBounds

/-- The responses of the server are inside their buffers. -/
structure Bounding (s : Net) : Prop where
  resting : Resting s
  size : bufferMinSize ≤ s.bufSize
  bounded : EveryRequest (Request.Bounded s.bufSize) s

lemma generatesInside_iff {s : Net} (h : Bounding s) (i : Input) :
    GeneratesInside s i ↔ ¬ OverfillingRound s i := by
  cases i with
  | poll reports => exact iff_of_true trivial id
  | dispatch o =>
    constructor
    · rintro hin ⟨hc, e, hcur, hact, hhandler, r, hreq, hended, hover⟩
      have hbounded := h.bounded hc e (h.resting.wired.taken hcur) r hreq
      obtain ⟨r', hends⟩ := Option.isSome_iff_exists.mp ((ends_isSome_iff r o).mpr hended)
      have hfits := hin e r' hc hcur hact hhandler (by simp [answered, reader, hreq, hends])
      have hinside := hbounded.inside.trans_eq hbounded.capacity.symm
      exact (ends_inBounds_iff hinside hends).mp hfits hover
    · intro hno e r' hc hcur hact hhandler hans
      have he := h.resting.wired.taken hcur
      obtain ⟨r, hreader, hends⟩ := Option.bind_eq_some_iff.mp hans
      have hnew : (newRequest s.bufSize s.trace.fresh).Bounded s.bufSize :=
        ⟨rfl, Nat.le_refl _, Nat.zero_le _⟩
      have hbounded := reader_keeps hnew (h.bounded hc e he) hreader
      rw [ends_inBounds_iff (hbounded.inside.trans_eq hbounded.capacity.symm) hends]
      rintro ⟨hput, hover⟩
      have hended : r.EndedBy o := (ends_isSome_iff r o).mp (by rw [hends, Option.isSome_some])
      unfold reader at hreader
      split at hreader
      · rename_i hreq
        cases hreader
        exact hno ⟨hc, e, hcur, hact, hhandler, r, hreq, hended, hput, hover⟩
      · -- a new request has an empty response buffer
        split_ifs at hreader
        cases hreader
        have hplace : bufferMinSize = 1024 := rfl
        have hsize := h.size
        unfold Request.answerSize newRequest at hover
        simp only [List.length_nil] at hover
        split_ifs at hover <;> omega

lemma netStep_bounding {s : Net} (h : Bounding s) {i : Input} (hi : PollsValid s i)
    (hno : ¬ OverfillingRound s i) : Bounding (netStep s i) := by
  have hin := (generatesInside_iff h i).mpr hno
  have hsize := netStep_bufSize h.resting i
  refine ⟨netStep_resting h.resting i hi, hsize ▸ h.size, ?_⟩
  rw [hsize]
  refine netStep_requests h.resting (bounded_send s.bufSize) h.bounded i ?_
  rintro e o rfl hcur hc - hact hhandler
  exact bounded_keeps (fun r' hans => hin e r' hc hcur hact hhandler hans)

lemma initNetworkMod_bounding {n : ℕ} (hn : 1 ≤ n) (sockFd : ℤ) (bufSize : ℕ)
    (garbage : ℕ → Conn) : Bounding (initNetworkMod n sockFd bufSize garbage) := by
  refine ⟨initNetworkMod_resting hn sockFd bufSize garbage, ?_,
    initNetworkMod_requests _ n sockFd bufSize garbage⟩
  rw [initNetworkMod_eq]
  exact requestBufferSize_ge bufSize

/-- **In a run the responses stay inside their buffers, exactly when no read ends a `PUT`
whose buffer has no place for one more answer.** -/
theorem responses_inside_iff (n : ℕ) (hn : 1 ≤ n) (sockFd : ℤ) (bufSize : ℕ)
    (garbage : ℕ → Conn) (inputs : List Input)
    (hpolls : Along netStep PollsValid (initNetworkMod n sockFd bufSize garbage) inputs) :
    Along netStep (fun s i => GeneratesInside s i ∧ EveryRequest Request.Ordered (netStep s i))
        (initNetworkMod n sockFd bufSize garbage) inputs ↔
      Along netStep (fun s i => ¬ OverfillingRound s i)
        (initNetworkMod n sockFd bufSize garbage) inputs := by
  refine along_iff (I := Bounding) (fun s i h hi hq => netStep_bounding h hi hq)
    (fun s i h hi => ?_) (initNetworkMod_bounding hn sockFd bufSize garbage) hpolls
  rw [generatesInside_iff h i]
  refine and_iff_left_of_imp (fun hno => ?_)
  have hnext := netStep_bounding h hi hno
  exact fun hc e he r hr => (hnext.bounded hc e he r hr).ordered

/-- A `PUT` that is answered at once. -/
theorem responses_inside_put :
    Along netStep (fun s i => GeneratesInside s i ∧ EveryRequest Request.Ordered (netStep s i))
      twoConnections putAnswered :=
  (responses_inside_iff 2 (by decide) 3 1024 (fun _ => newConn 0 0) putAnswered
    ⟨reported_one 3 .readOnly rfl (by decide) (by decide), trivial,
      reported_one 5 .readOnly rfl (by decide) (by decide), trivial, trivial⟩).mpr
    ⟨id, fun ⟨_, _, hcur, _, hrecv, _⟩ => (by cases hcur; cases hrecv), id,
      fun ⟨_, _, hcur, _, _, _, hreq, _⟩ => (by cases hcur; cases hreq), trivial⟩

/-! ## A response that is never sent -/

/-- A `PUT` whose length line is not a number. -/
def putRefused : List UInt8 := [80, 85, 84, 13, 10, 13, 10, 120]

/-- The client sends one more byte, and does not read. -/
def oneMore : List Input :=
  [.poll [(1, .readOnly)], .dispatch (outcomes none [120] [.again] [])]

/-- A request that has been refused `k` times, none of the answers sent. -/
structure Request.Refused (k : ℕ) (r : Request) : Prop where
  finish : r.finish = false
  buffers : ∃ bs : List UInt8, r.buffers = [⟨1024, bs⟩] ∧ bs.length = k + 7
  response : ∃ l : List UInt8, r.response = ⟨1024, l, 0⟩ ∧ l.length = 7 * k
  state : r.protocol.state = .start
  type : r.protocol.type = .put

/-- The client's request has been refused `k` times. -/
structure Backlog (k : ℕ) (s : Net) : Prop where
  agreeing : Agreeing s
  crashed : s.crashed = false
  taken : 1 ∈ s.taken
  size : s.bufSize = 1024
  count : s.count = 2
  fd : (s.conns 1).connFd = 5
  events : (s.conns 1).events = .both
  handler : (s.conns 1).readEventHandler = some .recv
  request : ∃ r, (s.conns 1).request = some r ∧ r.Refused k

/-- A byte that cannot start a type is refused. -/
lemma parseChunk_refuses (w : Layout) (bs : List UInt8) (pro : Protocol)
    (hstate : pro.state = .start) :
    (parseChunk w [⟨1024, bs⟩] pro [120]).code = .typeInvalid ∧
      (parseChunk w [⟨1024, bs⟩] pro [120]).buffers = [⟨1024, bs ++ [120]⟩] ∧
      (parseChunk w [⟨1024, bs⟩] pro [120]).pro.state = .start ∧
      (parseChunk w [⟨1024, bs⟩] pro [120]).pro.type = pro.type := by
  have hbyte : isBlank 120 = false ∧ isUpper 120 = false := by decide
  simp [parseChunk, protocolParse, extendLast, lastIndex, received, scan, scanByte, hstate, hbyte]

/-- The answer to a `PUT` that is refused, when nothing of it can be sent. -/
lemma delivered_again {r : Request} (htype : r.protocol.type = .put) (herror : r.error ≠ .ok) :
    r.delivered [.again] =
      { r with response := { r.response with bytes := r.response.bytes ++ errorText } } := by
  unfold Request.delivered Request.delivery tcpResponeGenerate
  rw [htype]
  simp only [herror, ne_eq, not_false_eq_true, if_true, sendLoop]

/-- A refused request is refused again at the next byte. -/
lemma Request.Refused.ends {k : ℕ} {r : Request} (h : r.Refused k) (hk : k + 7 < 1024) :
    ∃ r', r.ends (outcomes none [120] [.again] []) = some r' ∧ r'.error ≠ .ok ∧
      r'.protocol.type = .put ∧ r'.response = r.response ∧ r'.finish = false ∧
      (r'.delivered [.again]).Refused (k + 1) := by
  obtain ⟨bs, hbs, hlen⟩ := h.buffers
  obtain ⟨l, hl, hllen⟩ := h.response
  have hroom : r.room = 1024 - (k + 7) := by
    simp [Request.room, hbs, lastIndex, Buffer.room, hlen]
  have hgot : r.got (outcomes none [120] [.again] []).read = [120] := by
    change List.take r.room [120] = [120]
    rw [hroom]
    exact List.take_of_length_le (by simp only [List.length_singleton]; omega)
  obtain ⟨hcode, hbufs, hstate, htype⟩ := parseChunk_refuses .spaced bs r.protocol h.state
  have hparsed : r.parsed (outcomes none [120] [.again] []) =
      { r with
        buffers := (parseChunk .spaced [⟨1024, bs⟩] r.protocol [120]).buffers
        protocol := (parseChunk .spaced [⟨1024, bs⟩] r.protocol [120]).pro } := by
    unfold Request.parsed
    rw [hgot, hbs]
    rfl
  have hends : r.ends (outcomes none [120] [.again] []) =
      some { r.parsed (outcomes none [120] [.again] []) with error := .typeInvalid } := by
    have hcode' : r.code (outcomes none [120] [.again] []) = .typeInvalid := by
      unfold Request.code
      rw [hgot, hbs]
      exact hcode
    unfold Request.ends
    rw [if_neg (by rw [hgot]; decide), hcode']
  rw [hparsed] at hends
  have herror : Code.typeInvalid ≠ .ok := by decide
  refine ⟨_, hends, herror, htype.trans h.type, rfl, h.finish, ?_⟩
  rw [delivered_again (htype.trans h.type) herror]
  refine ⟨h.finish, ⟨bs ++ [120], hbufs, ?_⟩, ⟨l ++ errorText, ?_, ?_⟩, hstate, htype.trans h.type⟩
  · rw [List.length_append, hlen, List.length_singleton]
  · simp [hl]
  · rw [List.length_append, hllen]
    exact (Nat.mul_succ 7 k).symm

lemma Backlog.polls {k : ℕ} {s : Net} (h : Backlog k s) :
    PollsValid s (.poll [(1, .readOnly)]) := by
  have hreg := h.agreeing.registered 1 h.taken
  rw [h.fd, h.events] at hreg
  exact reported_one 5 .both hreg (by decide) (by rw [h.count])

/-- The client's connection is the only one of its batch, and readable. -/
structure OneReadable (s : Net) : Prop where
  cursor : s.cursor = some 1
  active : (s.conns 1).activeEvents = .readOnly
  next : (s.conns 1).next = none

lemma OneReadable.read {s : Net} (h : OneReadable s) : (s.conns 1).activeEvents.read = true := by
  rw [h.active]
  rfl

lemma Backlog.polled {k : ℕ} {s : Net} (h : Backlog k s) (hcur : s.cursor = none) :
    Backlog k (netStep s (.poll [(1, .readOnly)])) ∧
      OneReadable (netStep s (.poll [(1, .readOnly)])) := by
  obtain ⟨free, act, hw, -⟩ := h.agreeing.resting.wired
  have hagree := (netStep_agreeing h.agreeing _ h.polls trivial).1
  have hstep : netStep s (.poll [(1, .readOnly)]) = poll s [(1, .readOnly)] := by
    simp [netStep, h.crashed, hcur]
  have hconn : (poll s [(1, .readOnly)]).conns 1 =
      { s.conns 1 with activeEvents := .readOnly, next := none } := by
    simp [poll, pollOne, Net.setConn, hw.idle hcur]
  rw [hstep] at hagree ⊢
  refine ⟨⟨hagree, h.crashed, h.taken, h.size, h.count, ?_, ?_, ?_, ?_⟩, rfl, ?_, ?_⟩
  · rw [hconn]
    exact h.fd
  · rw [hconn]
    exact h.events
  · rw [hconn]
    exact h.handler
  · rw [hconn]
    exact h.request
  · rw [hconn]
  · rw [hconn]

lemma Backlog.answered {k : ℕ} {s : Net} (h : Backlog k s) (hk : k + 7 < 1024) :
    ∃ r', answered s.bufSize (s.conns 1) s.trace (outcomes none [120] [.again] []) = some r' ∧
      r'.error ≠ .ok ∧ r'.protocol.type = .put ∧ r'.finish = false ∧
      r'.response.size = 1024 ∧ r'.response.bytes.length = 7 * k ∧
      (r'.delivered [.again]).Refused (k + 1) := by
  obtain ⟨r, hreq, hrefused⟩ := h.request
  obtain ⟨r', hends, herror, htype, hresponse, hfin, hnext⟩ := hrefused.ends hk
  obtain ⟨l, hl, hllen⟩ := hrefused.response
  refine ⟨r', ?_, herror, htype, hfin, ?_, ?_, hnext⟩
  · simp [Xpipe.answered, reader, hreq, hends]
  · rw [hresponse, hl]
  · rw [hresponse, hl, hllen]

/-- A round whose answer stops at EAGAIN leaves the client's request refused. -/
lemma backlog_of_stalled {k : ℕ} {s : Net} {o : Outcomes} {r : Request} (h : Agreeing s)
    (hc : s.crashed = false) (hone : OneReadable s) (hsize : s.bufSize = 1024)
    (hcount : s.count = 2) (hfd : (s.conns 1).connFd = 5) (hevents : (s.conns 1).events.read = true)
    (hhandler : (s.conns 1).readEventHandler = some .recv) (hdel : o.ctlDel = true)
    (hctl : o.ctlWrite = true) (hstalled : stalled s.bufSize (s.conns 1) s.trace o = some r)
    (hfin : r.finish = false) (hrefused : (r.delivered o.readWrites).Refused k) :
    Backlog k (netStep s (.dispatch o)) ∧ (netStep s (.dispatch o)).cursor = none := by
  obtain ⟨hgo, hcur, htaken, hconn⟩ :=
    stalled_stays h hc hone.cursor hone.active hdel hctl hone.next hstalled hfin
  have hagree := (netStep_agreeing h (.dispatch o) trivial hdel).1
  have hsize' := netStep_bufSize h.resting (.dispatch o)
  have hcount' := (netStep_fixed s (.dispatch o)).1
  refine ⟨⟨hagree, hgo, htaken, hsize'.trans hsize, hcount'.trans hcount, ?_, ?_, ?_, _, ?_,
    hrefused⟩, hcur⟩
  · rw [hconn]
    exact hfd
  · rw [hconn]
    simp [settledConn, Conn.armed, Mask.union, Mask.writeOnly, Mask.both, hevents]
  · rw [hconn]
    simp [settledConn, Conn.armed, Mask.writeOnly, hhandler]
  · rw [hconn]
    rfl

/-- One more byte, one more answer. -/
lemma Backlog.step {k : ℕ} {s : Net} (h : Backlog k s) (hone : OneReadable s) (hk : k + 7 < 1024) :
    Backlog (k + 1) (netStep s (.dispatch (outcomes none [120] [.again] []))) ∧
      (netStep s (.dispatch (outcomes none [120] [.again] []))).cursor = none := by
  obtain ⟨r', hans, -, -, hfin, -, -, hrefused⟩ := h.answered hk
  refine backlog_of_stalled h.agreeing h.crashed hone h.size h.count h.fd
    (by rw [h.events]; rfl) h.handler rfl rfl ?_ hfin hrefused
  unfold stalled
  rw [if_pos ⟨hone.read, h.handler⟩, hans]
  rfl

/-- A client that sends `n` more bytes and does not read. -/
lemma Backlog.rounds {k n : ℕ} {s : Net} (h : Backlog k s) (hcur : s.cursor = none)
    (hn : k + n + 7 < 1025) :
    Along netStep PollsValid s (List.replicate n oneMore).flatten ∧
      Backlog (k + n) ((List.replicate n oneMore).flatten.foldl netStep s) ∧
      ((List.replicate n oneMore).flatten.foldl netStep s).cursor = none := by
  induction n generalizing k s with
  | zero => exact ⟨trivial, h, hcur⟩
  | succ n ih =>
    obtain ⟨hpolled, hone⟩ := h.polled hcur
    obtain ⟨hnext, hcur'⟩ := hpolled.step hone (by omega)
    obtain ⟨hvalid, hlast, hend⟩ := ih hnext hcur' (by omega)
    rw [show k + 1 + n = k + (n + 1) by omega] at hlast
    exact ⟨⟨h.polls, trivial, hvalid⟩, hlast, hend⟩

/-- The first answer to the client. -/
lemma backlog_one :
    Backlog 1 (netStep clientReadable (.dispatch (outcomes none putRefused [.again] []))) ∧
      (netStep clientReadable
        (.dispatch (outcomes none putRefused [.again] []))).cursor = none := by
  refine @backlog_of_stalled 1 clientReadable (outcomes none putRefused [.again] [])
    { (newRequest 1024 2).parsed (outcomes none putRefused [.again] []) with
      error := .dataLenInvalid }
    clientReadable_agreeing rfl ⟨rfl, rfl, rfl⟩ rfl rfl rfl rfl rfl rfl rfl ?_ ?_ ?_
  · decide +kernel
  · decide +kernel
  · exact ⟨by decide +kernel, ⟨putRefused, by decide +kernel, rfl⟩,
      ⟨errorText, by decide +kernel, rfl⟩, by decide +kernel, by decide +kernel⟩

/-- The client is refused 147 times and never reads. -/
def neverRead : List Input :=
  [.poll [(0, .readOnly)], .dispatch (outcomes (some 5) [] [] []), .poll [(1, .readOnly)],
    .dispatch (outcomes none putRefused [.again] [])] ++
    ((List.replicate 145 oneMore).flatten ++ oneMore)

/-- The last answer of a backlog of 147 does not fit. -/
lemma Backlog.overflows {s : Net} (h : Backlog 146 s) (hcur : s.cursor = none) :
    ¬ Along netStep GeneratesInside s oneMore := by
  intro hrun
  obtain ⟨hpolled, hone⟩ := h.polled hcur
  obtain ⟨r', hans, herror, htype, -, hsize, hlen, -⟩ := hpolled.answered (by decide)
  have hin := hrun.2.1 1 r' hpolled.crashed hone.cursor hone.read hpolled.handler hans
  unfold Request.InBounds at hin
  rw [hsize, hlen, Request.stores, htype, Request.reply, htype] at hin
  simp [herror, errorText] at hin

/-- The last answer to it passes the end of the response buffer. -/
theorem responses_inside_unread :
    ¬ ∀ inputs, Along netStep PollsValid twoConnections inputs →
      Along netStep GeneratesInside twoConnections inputs := by
  intro h
  obtain ⟨hfirst, hcur⟩ := backlog_one
  obtain ⟨hvalid, hlast, hend⟩ := @Backlog.rounds 1 145 _ hfirst hcur (by decide)
  have hrun := h neverRead (by
    unfold neverRead
    rw [along_append, along_append]
    exact ⟨⟨client_accepted.1.1, trivial, client_accepted.2.2.1.1, trivial, trivial⟩, hvalid,
      hlast.polls, trivial, trivial⟩)
  unfold neverRead at hrun
  rw [along_append, along_append] at hrun
  exact hlast.overflows hend hrun.2.2

/-! ## What a response buffer holds -/

/-- The response buffer holds the texts of the answers that the request has got, the four
bytes of an ok or the seven of an error each. -/
def Request.Told (r : Request) : Prop :=
  ∃ answers : List Bool,
    r.response.bytes = answers.flatMap (fun ok => if ok then okText else errorText)

lemma netStep_told {s : Net} (h : Resting s) (hall : EveryRequest Request.Told s) (i : Input) :
    EveryRequest Request.Told (netStep s i) := by
  have hbytes (b : Response) (ws : List WriteResult) : (sendLoop b ws).1.bytes = b.bytes := by
    induction ws generalizing b with
    | nil => rfl
    | cons w ws ih =>
      cases w with
      | wrote n =>
        simp only [sendLoop]
        split_ifs
        · rfl
        · rw [ih]
      | again => rfl
      | failed => rfl
  refine netStep_requests h (fun r ws f hr => ?_) hall i (fun e o _ _ _ _ _ _ => ⟨?_, ?_, ?_⟩)
  · obtain ⟨answers, hanswers⟩ := hr
    exact ⟨answers, (hbytes r.response ws).trans hanswers⟩
  · exact ⟨[], rfl⟩
  · intro r _ hr _ _
    exact hr
  · rintro r r' - ⟨answers, hanswers⟩ hends - -
    obtain ⟨d, err, hr', -⟩ := ends_eq hends
    have hresponse : r'.response = r.response := by
      rw [hr']
      rfl
    have htext : (r'.delivered o.readWrites).response.bytes = r.response.bytes ++ r'.reply := by
      rw [← hresponse]
      exact (hbytes _ _).trans (congrArg Response.bytes (tcpResponeGenerate_response r'))
    unfold Request.Told
    rw [htext, hanswers]
    unfold Request.reply
    split
    · split_ifs
      · exact ⟨answers ++ [false], by simp⟩
      · exact ⟨answers ++ [true], by simp⟩
    · exact ⟨answers, by simp⟩

/-- **In every state of a run the bytes in a response buffer are the texts of the answers
to its request**, so that the buffer fills by four or seven bytes an answer. -/
theorem responses_told (n : ℕ) (hn : 1 ≤ n) (sockFd : ℤ) (bufSize : ℕ) (garbage : ℕ → Conn)
    (inputs : List Input)
    (hpolls : Along netStep PollsValid (initNetworkMod n sockFd bufSize garbage) inputs) :
    EveryRequest Request.Told
      (inputs.foldl netStep (initNetworkMod n sockFd bufSize garbage)) := by
  have hkeep (s : Net) (i : Input) (h : Resting s ∧ EveryRequest Request.Told s)
      (hi : PollsValid s i) :
      Resting (netStep s i) ∧ EveryRequest Request.Told (netStep s i) :=
    ⟨netStep_resting h.1 i hi, netStep_told h.1 h.2 i⟩
  exact (invariant_foldl hkeep ⟨initNetworkMod_resting hn sockFd bufSize garbage,
    initNetworkMod_requests _ n sockFd bufSize garbage⟩ hpolls).2

end Xpipe
