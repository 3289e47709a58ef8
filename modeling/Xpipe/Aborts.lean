import Xpipe.Dispatch

/-!
# The free that ends the process

`mem_pool_destroy` hands the header of every large block to `free`, an address inside the
pool, and the C library ends the process. Whether a request has large blocks is settled by
`request_buffer_size` alone: the buffers that are chained later are small. So the process
ends so exactly when that size is more than a pool gives from its chunks, at the first
request that is released.
-/
namespace Xpipe
open Runs

/-- Two buffers of `size` bytes with their headers are large blocks of the request's pool. -/
def LargeBuffers (size : ℕ) : Prop := maxSizeOfChunk < size + bufferHeader

instance (size : ℕ) : Decidable (LargeBuffers size) := inferInstanceAs (Decidable (_ < _))

/-! ## The blocks of a request -/

lemma large_eq (r : Request) : r.large =
    ((r.buffers.map Buffer.size).any (fun n => maxSizeOfChunk < n + bufferHeader) ||
      maxSizeOfChunk < r.response.size + bufferHeader) := by
  unfold Request.large
  rw [List.any_map]
  rfl

lemma large_new (size pool : ℕ) :
    (newRequest size pool).large = decide (LargeBuffers size) := by
  by_cases hlarge : maxSizeOfChunk < size + bufferHeader
  · simp [Request.large, newRequest, LargeBuffers, hlarge]
  · simp [Request.large, newRequest, LargeBuffers, hlarge]

/-- The parser changes no buffer's size. -/
lemma large_parsed (r : Request) (o : Outcomes) : (r.parsed o).large = r.large := by
  have hshape := parseChunk_shape o.layout r.buffers r.protocol (r.got o.read)
  have hsizes : (r.parsed o).buffers.map Buffer.size = r.buffers.map Buffer.size :=
    hshape.1.trans (sizes_extendLast _ _)
  rw [large_eq, large_eq, hsizes]
  rfl

/-- A block that is chained is small. -/
lemma large_chained (r : Request) (o : Outcomes) :
    Request.large { r.parsed o with buffers := chainBlock (r.parsed o).buffers } = r.large := by
  have hsmall : ¬ maxSizeOfChunk < bufferMinSize + bufferHeader := by decide
  rw [← large_parsed r o]
  unfold Request.large chainBlock
  split_ifs
  · simp [List.any_append, hsmall]
  · rfl

lemma large_ends {r r' : Request} {o : Outcomes} (h : r.ends o = some r') :
    r'.large = r.large := by
  obtain ⟨d, err, rfl, -⟩ := ends_eq h
  exact large_parsed r o

/-- All requests of the server are as large as its buffers. -/
def Sized (s : Net) : Prop := EveryRequest (fun r => r.large = decide (LargeBuffers s.bufSize)) s

lemma reader_large {s : Net} {e : ℕ} (h : Sized s) (hc : s.crashed = false) (he : e ∈ s.taken)
    {o : Outcomes} {r : Request} (hr : reader s.bufSize (s.conns e) s.trace o = some r) :
    r.large = decide (LargeBuffers s.bufSize) :=
  reader_keeps (large_new _ _) (h hc e he) hr

lemma netStep_sized {s : Net} (h : Resting s) (hsized : Sized s) (i : Input) :
    Sized (netStep s i) := by
  unfold Sized
  rw [netStep_bufSize h i]
  refine netStep_requests h (fun r ws f hr => ?_) hsized i
    (fun e o _ _ _ _ _ _ => ⟨large_new _ _, ?_, ?_⟩)
  · rw [← hr, Request.large, Request.large, sendLoop_size]
  · intro r _ hr _ _
    rw [large_chained, hr]
  · intro r r' _ hr hends _ _
    rw [large_delivered, large_ends hends, hr]

/-! ## What a round releases -/

/-- `tcp_request_finish` releases the request. -/
def Request.Released (r : Request) (ws : List WriteResult) : Prop :=
  r.finish = true ∨ (r.delivery ws).2 ≠ .again

/-- The read ends a request and releases it. -/
def ReadReleases (size : ℕ) (c : Conn) (t : Trace) (o : Outcomes) : Prop :=
  c.activeEvents.read = true ∧ c.readEventHandler = some .recv ∧
    ∃ r, answered size c t o = some r ∧ r.Released o.readWrites

/-- The connection `c` is closed, and has a request. -/
def CloseReleases (c : Conn) : Prop := c.close = true ∧ c.request ≠ none

/-- A round that releases a request: its read ends one, or it closes a connection that has
one. -/
def ReleasesRequest (s : Net) : Input → Prop
  | .poll _ => False
  | .dispatch o => s.crashed = false ∧ ∃ e, s.cursor = some e ∧
      (ReadReleases s.bufSize (s.conns e) s.trace o ∨
        ¬ ((s.conns e).activeEvents.write = true ∧
            (readConn s.bufSize e (s.conns e) s.trace o).1.writeEventHandler = none) ∧
          CloseReleases (writeConn (readConn s.bufSize e (s.conns e) s.trace o).1 o))

lemma tcpRequestFinish_aborted (c : Conn) (t : Trace) (r : Request) (ws : List WriteResult) :
    (tcpRequestFinish c t r ws).2.aborted = true ↔
      t.aborted = true ∨ r.large = true ∧ r.Released ws := by
  rcases tcpRequestFinish_cases c t r ws with
    ⟨hend, hfin, heq⟩ | ⟨hend, hfin, heq⟩ | ⟨hend, heq⟩ | ⟨hend, -, heq⟩
  · rw [heq]
    simp [Request.Released, hend, hfin]
  · rw [heq]
    simp [Request.Released, hfin, Trace.destroyRequest, Trace.record]
  · rw [heq]
    simp [Request.Released, hend, Trace.destroyRequest, Trace.record]
  · rw [heq]
    simp [Request.Released, hend, Trace.destroyRequest, Trace.record]

lemma readerTrace_aborted (c : Conn) (t : Trace) (o : Outcomes) :
    (readerTrace c t o).aborted = t.aborted := by
  unfold readerTrace
  split
  · rfl
  · split_ifs
    · rfl
    · rfl

lemma tcpServerRecv_aborted {size : ℕ} {c : Conn} {t : Trace} {o : Outcomes}
    (hlarge : ∀ r, reader size c t o = some r → r.large = decide (LargeBuffers size)) (e : ℕ) :
    (tcpServerRecv size e c t o).2.aborted = true ↔ t.aborted = true ∨
      LargeBuffers size ∧ ∃ r, answered size c t o = some r ∧ r.Released o.readWrites := by
  rw [← readerTrace_aborted c t o]
  rcases tcpServerRecv_cases size e c t o with ⟨hnone, heq⟩ | ⟨r, hsome, heq⟩
  · rw [heq, answered, hnone]
    simp
  rw [heq, answered, hsome, Option.bind_some]
  rcases recvInto_cases e c (readerTrace c t o) r o with ⟨hends, hcont⟩ | ⟨r', hends, -, hfin⟩
  · rw [hends]
    rcases hcont.request with ⟨-, -, htrace⟩ | ⟨-, -, htrace, -⟩
    · simp [htrace]
    · simp [htrace, Trace.record]
  · rw [hfin, tcpRequestFinish_aborted, large_ends hends, hlarge r hsome, hends]
    simp [Trace.record]

lemma readConn_aborted {size : ℕ} {c : Conn} {t : Trace} {o : Outcomes}
    (hlarge : ∀ r, reader size c t o = some r → r.large = decide (LargeBuffers size)) (e : ℕ) :
    (readConn size e c t o).2.aborted = true ↔
      t.aborted = true ∨ LargeBuffers size ∧ ReadReleases size c t o := by
  unfold readConn ReadReleases
  split_ifs with hread
  · rw [tcpServerRecv_aborted hlarge e]
    simp [hread]
  · rw [not_and] at hread
    simp only [iff_self_or, and_imp]
    exact fun _ hact hrecv => absurd hrecv (hread hact)

/-- **A step ends the process so exactly when it releases a request whose buffers are
large.** -/
theorem netStep_aborted_iff {s : Net} (h : Resting s) (hsized : Sized s) (i : Input) :
    (netStep s i).trace.aborted = true ↔
      s.trace.aborted = true ∨ LargeBuffers s.bufSize ∧ ReleasesRequest s i := by
  rcases netStep_cases h i with ⟨hbatch, hnone⟩ | ⟨e, o, rfl, hcur, hc, he, hround⟩
  · have hno : ¬ ReleasesRequest s i := by
      intro hreleases
      cases i with
      | poll reports => exact hreleases
      | dispatch o =>
        obtain ⟨hc, e, hcur, -⟩ := hreleases
        rw [hnone e o rfl hcur] at hc
        cases hc
    rw [hbatch.trace]
    simp [hno]
  -- the request that the close meets is one that the round leaves, or had
  have hread : (readConn s.bufSize e (s.conns e) s.trace o).2.aborted = true ↔ _ :=
    readConn_aborted (fun r hr => reader_large hsized hc he hr) e
  have hclosing : ∀ r, (writeConn (readConn s.bufSize e (s.conns e) s.trace o).1 o).request =
      some r → r.large = decide (LargeBuffers s.bufSize) := by
    refine writeConn_request (fun r ws f hr => ?_)
      (readConn_request (fun _ _ => ?_) (hsized hc e he))
    · rw [← hr, Request.large, Request.large, sendLoop_size]
    · exact ⟨large_new _ _, fun r _ hr _ _ => (large_chained r o).trans hr,
        fun r r' _ hr hends _ _ => (large_delivered r' _).trans ((large_ends hends).trans hr)⟩
  rw [hround.around.aborted, roundTrace]
  simp only [ReleasesRequest, hc, hcur, Option.some.injEq, exists_eq_left', true_and]
  split_ifs with hnull
  · rw [hread]
    simp [hnull]
  · rw [closing_aborted, Bool.or_eq_true, hread]
    cases hreq : (writeConn (readConn s.bufSize e (s.conns e) s.trace o).1 o).request with
    | none => simp [CloseReleases, deadConn, hreq]
    | some r =>
      have hr := hclosing r hreq
      simp only [CloseReleases, deadConn, hreq, hr, Option.any_some, Bool.and_eq_true,
        decide_eq_true_eq, hnull, not_false_eq_true, true_and, ne_eq, reduceCtorEq, and_true]
      tauto

lemma initNetworkMod_sized (n : ℕ) (sockFd : ℤ) (bufSize : ℕ) (garbage : ℕ → Conn) :
    Sized (initNetworkMod n sockFd bufSize garbage) :=
  initNetworkMod_requests _ n sockFd bufSize garbage

/-- The server runs on, and its requests are as large as its buffers. -/
structure Sizing (size : ℕ) (s : Net) : Prop where
  resting : Resting s
  sized : Sized s
  bufSize : s.bufSize = size

lemma netStep_sizing {size : ℕ} {s : Net} (h : Sizing size s) {i : Input} (hi : PollsValid s i) :
    Sizing size (netStep s i) :=
  ⟨netStep_resting h.resting i hi, netStep_sized h.resting h.sized i,
    (netStep_bufSize h.resting i).trans h.bufSize⟩

lemma initNetworkMod_sizing {n : ℕ} (hn : 1 ≤ n) (sockFd : ℤ) (bufSize : ℕ)
    (garbage : ℕ → Conn) :
    Sizing (requestBufferSize bufSize) (initNetworkMod n sockFd bufSize garbage) := by
  refine ⟨initNetworkMod_resting hn sockFd bufSize garbage,
    initNetworkMod_sized n sockFd bufSize garbage, ?_⟩
  rw [initNetworkMod_eq]
  rfl

/-- **Which runs go on**: those that release no request, but for servers with small
buffers. -/
lemma Sizing.alive_iff {size : ℕ} {s : Net} (h : Sizing size s) {inputs : List Input}
    (hpolls : Along netStep PollsValid s inputs) :
    (inputs.foldl netStep s).trace.aborted = false ↔ s.trace.aborted = false ∧
      (LargeBuffers size → Along netStep (fun s i => ¬ ReleasesRequest s i) s inputs) := by
  have hstep (s : Net) (i : Input) (hs : Sizing size s) : (netStep s i).trace.aborted = true ↔
      s.trace.aborted = true ∨ LargeBuffers size ∧ ReleasesRequest s i := by
    rw [netStep_aborted_iff hs.resting hs.sized i, hs.bufSize]
  have hruns := not_final_iff (W := fun s : Net => s.trace.aborted = true)
    (fun s i hs hi => netStep_sizing hs hi) (fun s i hs _ => hstep s i hs) h hpolls
  rw [Bool.not_eq_true, Bool.not_eq_true] at hruns
  rw [hruns]
  by_cases hlarge : LargeBuffers size
  · simp only [hlarge, true_and, true_imp_iff]
  · simp only [hlarge, false_and, not_false_eq_true, false_imp_iff, and_true, and_iff_left_iff_imp]
    exact fun _ => along_of_forall (fun _ _ => trivial) s inputs

lemma initNetworkMod_alive (n : ℕ) (sockFd : ℤ) (bufSize : ℕ) (garbage : ℕ → Conn) :
    (initNetworkMod n sockFd bufSize garbage).trace.aborted = false := by
  rw [initNetworkMod_eq]

end Xpipe
