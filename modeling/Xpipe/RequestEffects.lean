import Xpipe.ConnectionPool

/-!
# What the handlers of a connection do

One lemma for each handler says all it can do. `Request.ends` is the part of
`tcp_server_recv` that decides whether a request is answered: with `some r` the
call goes on to `tcp_request_finish` with `r`, with `none` it does not.
-/
namespace Xpipe

/-- The request after the parser has seen the bytes that were read. -/
def Request.parsed (r : Request) (o : Outcomes) : Request :=
  let p := parseChunk o.layout r.buffers r.protocol (r.got o.read)
  { r with buffers := p.buffers, protocol := p.pro }

/-- The code the parser returns for the bytes that were read. -/
def Request.code (r : Request) (o : Outcomes) : Code :=
  (parseChunk o.layout r.buffers r.protocol (r.got o.read)).code

/-- The request that a read gives to `tcp_request_finish`, if it does. -/
def Request.ends (r : Request) (o : Outcomes) : Option Request :=
  if r.got o.read = [] then none
  else
    match r.code o with
    | .ok =>
      if lastFull (r.parsed o).buffers && !o.chainAlloc then
        some { r.parsed o with error := .error }
      else none
    | .done => some { r.parsed o with done := true }
    | code => some { r.parsed o with error := code }

/-- A request that is answered differs from the parsed one in what says so. -/
lemma ends_eq {r r' : Request} {o : Outcomes} (h : r.ends o = some r') :
    ∃ d err, r' = { r.parsed o with done := d, error := err } ∧ (d = true ∨ err ≠ .ok) := by
  unfold Request.ends at h
  by_cases hgot : r.got o.read = []
  · simp [hgot] at h
  rw [if_neg hgot] at h
  cases hcode : r.code o with
  | ok =>
    simp only [hcode] at h
    split_ifs at h
    cases h
    exact ⟨_, _, rfl, Or.inr (by decide)⟩
  | done =>
    simp only [hcode] at h
    cases h
    exact ⟨_, _, rfl, Or.inl rfl⟩
  | _ =>
    simp only [hcode] at h
    cases h
    exact ⟨_, _, rfl, Or.inr (by decide)⟩

/-- The request that `tcp_server_recv` reads into: the one of the connection, or
a new one. -/
def reader (size : ℕ) (c : Conn) (t : Trace) (o : Outcomes) : Option Request :=
  match c.request with
  | some r => some r
  | none => if o.initPool && o.initAllocs size then some (newRequest size t.fresh) else none

/-- Only a large buffer can be lacking. -/
lemma initAllocs_iff {size : ℕ} (hsize : size < 2 ^ 24) (o : Outcomes) :
    o.initAllocs size = true ↔ size + bufferHeader ≤ maxSizeOfChunk ∨
      (o.initMallocs 1).data = true ∧ (o.initMallocs 2).data = true := by
  have hval : (sizeT (size + bufferHeader)).val = size + bufferHeader := by
    apply sizeT_val
    simp only [bufferHeader]
    omega
  rw [← hval]
  exact requestInit_isSome size o.initMallocs

lemma initAllocs_of_mallocs {o : Outcomes} (h : ∀ k, (o.initMallocs k).data = true) (size : ℕ) :
    o.initAllocs size = true :=
  (requestInit_isSome size o.initMallocs).mpr (Or.inr ⟨h 1, h 2⟩)

/-- A request is made when memory is there. -/
lemma reader_new {size : ℕ} {c : Conn} {t : Trace} {o : Outcomes} (hreq : c.request = none)
    (hpool : o.initPool = true) (hmallocs : ∀ k, (o.initMallocs k).data = true) :
    reader size c t o = some (newRequest size t.fresh) := by
  unfold reader
  rw [hreq]
  simp only [hpool, initAllocs_of_mallocs hmallocs, Bool.and_self, if_true]

/-- The trace in which `tcp_server_recv` reads. -/
def readerTrace (c : Conn) (t : Trace) (o : Outcomes) : Trace :=
  match c.request with
  | some _ => t
  | none => if o.initPool then t.createPool else t

lemma readerTrace_log (c : Conn) (t : Trace) (o : Outcomes) : (readerTrace c t o).log = t.log := by
  unfold readerTrace
  split
  · rfl
  · split_ifs
    · rfl
    · rfl

/-- A read that does not end the request: the connection has the request, and
may be marked to be closed; the parser may have been called, with OK. -/
structure Continues (e : ℕ) (c : Conn) (t : Trace) (r : Request) (o : Outcomes) (c' : Conn)
    (t' : Trace) : Prop where
  handler : c'.writeEventHandler = c.writeEventHandler
  addEvents : c'.addEvents = c.addEvents
  dead : (c'.deadEvents = c.deadEvents ∧ c'.close = c.close) ∨
    (c'.deadEvents = .both ∧ c'.close = true)
  request : (r.got o.read = [] ∧ c'.request = some r ∧ t' = t) ∨
    (r.got o.read ≠ [] ∧ r.code o = .ok ∧ t' = t.record (.parse e r .ok) ∧
      c'.request = some { r.parsed o with buffers := chainBlock (r.parsed o).buffers })

/-- **All that a read can do.** Either the request is not ended, or the call is
that of `tcp_request_finish`. -/
lemma recvInto_cases (e : ℕ) (c : Conn) (t : Trace) (r : Request) (o : Outcomes) :
    (r.ends o = none ∧ Continues e c t r o (recvInto e c t r o).1 (recvInto e c t r o).2) ∨
    ∃ r', r.ends o = some r' ∧ r.got o.read ≠ [] ∧ recvInto e c t r o =
      tcpRequestFinish { c with request := some r } (t.record (.parse e r (r.code o))) r'
        o.readWrites := by
  by_cases hgot : r.got o.read = []
  · left
    refine ⟨by simp [Request.ends, hgot], ?_⟩
    unfold recvInto
    simp only [hgot, if_true]
    split
    · exact ⟨rfl, rfl, Or.inl ⟨rfl, rfl⟩, Or.inl ⟨hgot, rfl, rfl⟩⟩
    · exact ⟨rfl, rfl, Or.inr ⟨rfl, rfl⟩, Or.inl ⟨hgot, rfl, rfl⟩⟩
    · exact ⟨rfl, rfl, Or.inr ⟨rfl, rfl⟩, Or.inl ⟨hgot, rfl, rfl⟩⟩
  · -- only bytes can have been read, and the parser is called on them
    have hread : recvInto e c t r o = tcpRequestProcess { c with request := some r }
        (t.record (.parse e r (r.code o))) (r.parsed o) (r.code o) o := by
      unfold recvInto
      simp only [hgot, if_false]
      split
      · rename_i h
        simp [Request.got, h] at hgot
      · rename_i h
        simp [Request.got, h] at hgot
      · rfl
    rw [hread]
    unfold Request.ends tcpRequestProcess
    simp only [hgot, if_false]
    cases hcode : r.code o with
    | ok =>
      by_cases hfull : (lastFull (r.parsed o).buffers && !o.chainAlloc) = true
      · simp only [hfull, if_true]
        exact Or.inr ⟨_, rfl, hgot, rfl⟩
      · simp only [hfull, if_false, Bool.false_eq_true]
        exact Or.inl ⟨trivial, rfl, rfl, Or.inl ⟨rfl, rfl⟩, Or.inr ⟨hgot, hcode, rfl, rfl⟩⟩
    | _ => exact Or.inr ⟨_, rfl, hgot, rfl⟩

/-- **All that `tcp_server_recv` can do.** -/
lemma tcpServerRecv_cases (size e : ℕ) (c : Conn) (t : Trace) (o : Outcomes) :
    (reader size c t o = none ∧ tcpServerRecv size e c t o = (c, readerTrace c t o)) ∨
    ∃ r, reader size c t o = some r ∧
      tcpServerRecv size e c t o = recvInto e c (readerTrace c t o) r o := by
  unfold tcpServerRecv reader readerTrace
  cases hr : c.request with
  | some r => exact Or.inr ⟨r, rfl, rfl⟩
  | none =>
    cases hp : o.initPool with
    | false => exact Or.inl ⟨rfl, rfl⟩
    | true =>
      cases ha : o.initAllocs size with
      | false => exact Or.inl ⟨rfl, rfl⟩
      | true => exact Or.inr ⟨_, rfl, rfl⟩

/-- The request that a dispatch gives to `tcp_request_finish`, if it does. -/
def answered (size : ℕ) (c : Conn) (t : Trace) (o : Outcomes) : Option Request :=
  (reader size c t o).bind (fun r => r.ends o)

/-- The response as `tcp_server_send` leaves it when `tcp_request_finish` has
appended to it, and how the call ends. -/
def Request.delivery (r : Request) (ws : List WriteResult) : Response × SendEnd :=
  sendLoop (tcpResponeGenerate r).response ws

/-- How the writes of `n` bytes end. -/
def writesEnd : ℕ → List WriteResult → SendEnd
  | _, [] => .complete
  | _, .again :: _ => .again
  | _, .failed :: _ => .failed
  | n, .wrote k :: ws => if n ≤ max 1 k then .complete else writesEnd (n - max 1 k) ws

/-- The response after a write that accepts `n` bytes or all that is left. -/
lemma unsent_wrote (b : Response) (n : ℕ) :
    ({ b with sent := b.sent + min n b.unsent.length } : Response).unsent.length =
      b.unsent.length - n := by
  simp only [Response.unsent, List.length_drop]
  omega

lemma sendLoop_end (b : Response) (ws : List WriteResult) :
    (sendLoop b ws).2 = writesEnd b.unsent.length ws := by
  induction ws generalizing b with
  | nil => rfl
  | cons w ws ih =>
    cases w with
    | wrote n =>
      have hleft := unsent_wrote b (max 1 n)
      simp only [sendLoop, writesEnd]
      by_cases hdone : b.unsent.length ≤ max 1 n
      · rw [if_pos hdone, if_pos (List.eq_nil_of_length_eq_zero (by omega))]
      · rw [if_neg hdone, if_neg (fun h => by rw [h, List.length_nil] at hleft; omega), ih, hleft]
    | again => rfl
    | failed => rfl

/-- A send that stops at EAGAIN leaves bytes behind, unless it had none to send. -/
lemma sendLoop_again {b : Response} {ws : List WriteResult} (h : (sendLoop b ws).2 = .again) :
    (sendLoop b ws).1.unsent = [] ↔ b.unsent.length = 0 := by
  induction ws generalizing b with
  | nil => simp [sendLoop] at h
  | cons w ws ih =>
    cases w with
    | wrote n =>
      have hleft := unsent_wrote b (max 1 n)
      simp only [sendLoop] at h ⊢
      split_ifs at h ⊢ with hdone
      · rw [ih h, hleft]
        have hpos := List.length_pos_of_ne_nil hdone
        omega
    | again => simp [sendLoop]
    | failed => simp [sendLoop] at h

lemma sendLoop_complete {b b' : Response} {ws : List WriteResult}
    (h : sendLoop b ws = (b', .complete)) : b'.unsent = [] := by
  induction ws generalizing b with
  | nil =>
    cases h
    simp only [Response.unsent, List.drop_eq_nil_iff, List.length_drop]
    omega
  | cons w ws ih =>
    cases w with
    | wrote n =>
      simp only [sendLoop] at h
      split_ifs at h with hdone
      · cases h
        exact hdone
      · exact ih h
    | again => simp [sendLoop] at h
    | failed => simp [sendLoop] at h

/-- The request that is sent, with the response as it is left. -/
def Request.delivered (r : Request) (ws : List WriteResult) : Request :=
  { tcpResponeGenerate r with response := (r.delivery ws).1 }

lemma tcpServerSend_none {c : Conn} (h : c.request = none) (ws : List WriteResult) :
    tcpServerSend c ws = c := by
  unfold tcpServerSend
  rw [h]

/-- What `tcp_server_send` does to its request. -/
lemma tcpServerSend_request {c : Conn} {r : Request} (h : c.request = some r)
    (ws : List WriteResult) : ∃ f, (tcpServerSend c ws).request =
      some { r with response := (sendLoop r.response ws).1, finish := f } := by
  unfold tcpServerSend
  rw [h]
  simp only
  split
  · exact ⟨_, rfl⟩
  · exact ⟨_, rfl⟩
  · exact ⟨_, rfl⟩

lemma tcpResponeGenerate_keeps (r : Request) :
    (tcpResponeGenerate r).pool = r.pool ∧ (tcpResponeGenerate r).finish = r.finish ∧
      (tcpResponeGenerate r).done = r.done ∧ (tcpResponeGenerate r).error = r.error := by
  unfold tcpResponeGenerate
  split <;> exact ⟨rfl, rfl, rfl, rfl⟩

lemma sendLoop_size (b : Response) (ws : List WriteResult) : (sendLoop b ws).1.size = b.size := by
  induction ws generalizing b with
  | nil => rfl
  | cons w ws ih =>
    cases w with
    | wrote n =>
      simp only [sendLoop]
      split_ifs
      · rfl
      · rw [ih]
    | again => rfl
    | failed => rfl

/-- Sending changes no buffer's size. -/
lemma large_delivered (r : Request) (ws : List WriteResult) :
    (r.delivered ws).large = r.large := by
  have hbuffers : (tcpResponeGenerate r).buffers = r.buffers ∧
      (tcpResponeGenerate r).response.size = r.response.size := by
    unfold tcpResponeGenerate
    split <;> exact ⟨rfl, rfl⟩
  unfold Request.large
  rw [show (r.delivered ws).buffers = r.buffers from hbuffers.1,
    show (r.delivered ws).response.size = r.response.size from
      (sendLoop_size _ ws).trans hbuffers.2]

lemma destroyRequest_congr {r r' : Request} (t : Trace) (hpool : r'.pool = r.pool)
    (hlarge : r'.large = r.large) : t.destroyRequest r' = t.destroyRequest r := by
  unfold Trace.destroyRequest
  rw [hpool, hlarge]

/-- **All that `tcp_request_finish` can do.** After EAGAIN the request stays, but
for one whose `finish` was set before; else it is released. -/
lemma tcpRequestFinish_cases (c : Conn) (t : Trace) (r : Request) (ws : List WriteResult) :
    ((r.delivery ws).2 = .again ∧ r.finish = false ∧ tcpRequestFinish c t r ws =
      ({ c with request := some (r.delivered ws), addEvents := .writeOnly }, t)) ∨
    ((r.delivery ws).2 = .again ∧ r.finish = true ∧ tcpRequestFinish c t r ws =
      ({ c with request := none, addEvents := .writeOnly },
        (t.record (.release (r.delivered ws) c.close)).destroyRequest r)) ∨
    ((r.delivery ws).2 = .failed ∧ tcpRequestFinish c t r ws =
      ({ c with request := none, deadEvents := .both, close := true },
        (t.record (.release { r.delivered ws with finish := true } true)).destroyRequest r)) ∨
    ((r.delivery ws).2 = .complete ∧ (r.delivery ws).1.unsent = [] ∧ tcpRequestFinish c t r ws =
      ({ c with
          request := none
          deadEvents := if c.events.write then .writeOnly else c.deadEvents
          writeEventHandler := if c.events.write then none else c.writeEventHandler },
        (t.record (.release { r.delivered ws with finish := true } c.close)).destroyRequest r)) := by
  obtain ⟨hpool, hfinish, -, -⟩ := tcpResponeGenerate_keeps r
  unfold tcpRequestFinish tcpServerSend
  simp only
  rw [show sendLoop (tcpResponeGenerate r).response ws = r.delivery ws from rfl]
  cases hend : (r.delivery ws).2 with
  | again =>
    cases hf : r.finish with
    | false =>
      refine Or.inl ⟨rfl, rfl, ?_⟩
      simp [hfinish, hf, Request.delivered]
    | true =>
      refine Or.inr (Or.inl ⟨rfl, rfl, ?_⟩)
      simp only [hfinish, hf, if_true, Request.delivered, hpool]
      exact congrArg (Prod.mk _) (destroyRequest_congr _ rfl (large_delivered r ws))
  | failed =>
    refine Or.inr (Or.inr (Or.inl ⟨rfl, ?_⟩))
    simp only [if_true, Request.delivered, hpool]
    exact congrArg (Prod.mk _) (destroyRequest_congr _ rfl (large_delivered r ws))
  | complete =>
    have hall : (r.delivery ws).1.unsent = [] :=
      @sendLoop_complete (tcpResponeGenerate r).response _ ws (by
        rw [← hend]
        rfl)
    refine Or.inr (Or.inr (Or.inr ⟨rfl, hall, ?_⟩))
    simp only [if_true, Request.delivered, hpool]
    exact congrArg (Prod.mk _) (destroyRequest_congr _ rfl (large_delivered r ws))

end Xpipe
