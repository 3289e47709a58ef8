import Xpipe.ResponseBounds

/-!
# The send cursor

What the socket has accepted of a response, over any number of calls of
`tcp_server_send` with more output appended in between. `writeLoop` is the loop of
`tcp_server_send` with the calls of `write` it makes: it does not assume that they come
to an end, and it notes the bytes that each of them took.
-/
namespace Xpipe

/-- What `write` may return for an offer of `k` bytes: it takes at least one byte of an
offer that is not empty, and no more than the offer. -/
def WriteResult.Allowed (k : ℕ) : WriteResult → Prop
  | .wrote n => n ≤ k ∧ (0 < k → 0 < n)
  | .again => True
  | .failed => True

/-- The socket during one call of `tcp_server_send`: what the `i`-th `write` returns for
an offer of `k` bytes. -/
structure Socket where
  result : ℕ → ℕ → WriteResult
  allowed : ∀ i k, (result i k).Allowed k

/-- A finished call of `tcp_server_send`: the response it leaves, how it ended, the bytes
the socket took, and what its calls of `write` returned. -/
structure SendCall where
  response : Response
  ending : SendEnd
  output : List UInt8
  results : List WriteResult
  deriving DecidableEq, Repr

/-- The call as seen from one `write` before it, which took `text`. -/
def SendCall.after (text : List UInt8) (n : ℕ) (call : SendCall) : SendCall :=
  { call with output := text ++ call.output, results := .wrote n :: call.results }

/-- The loop of `tcp_server_send` from its `i`-th `write` on. `none`: it has not ended
after `fuel` more of them. -/
def writeLoop (w : Socket) : ℕ → ℕ → Response → Option SendCall
  | 0, _, _ => none
  | fuel + 1, i, b =>
    match w.result i b.unsent.length with
    | .again => some ⟨b, .again, [], [.again]⟩
    | .failed => some ⟨b, .failed, [], [.failed]⟩
    | .wrote n =>
      let b' := { b with sent := b.sent + n }
      if b'.sent = b'.bytes.length then some ⟨b', .complete, b.unsent.take n, [.wrote n]⟩
      else (writeLoop w fuel (i + 1) b').map (SendCall.after (b.unsent.take n) n)

lemma unsent_advance (b : Response) (n : ℕ) :
    ({ b with sent := b.sent + n } : Response).unsent = b.unsent.drop n := by
  simp [Response.unsent, List.drop_drop]

/-- The bytes that a call of `write` takes. -/
def WriteResult.taken : WriteResult → ℕ
  | .wrote n => n
  | .again => 0
  | .failed => 0

/-- The socket gives `results` to the calls of `write` from the `i`-th on, each of which is
offered what is unsent by then; the response is `b` before the first. -/
def Socket.Gives (w : Socket) : ℕ → Response → List WriteResult → Prop
  | _, _, [] => True
  | i, b, x :: xs => w.result i b.unsent.length = x ∧
      w.Gives (i + 1) { b with sent := b.sent + x.taken } xs

/-- A call of `tcp_server_send` on the response `b`, from the `i`-th `write` on, is as the
socket has it: its results are the socket's, its output is what they took, and it is
stopped only by a result that says so. -/
structure SendCall.From (call : SendCall) (w : Socket) (i : ℕ) (b : Response) : Prop where
  results : w.Gives i b call.results
  output : call.output = b.unsent.take (call.results.map WriteResult.taken).sum
  complete : call.ending = .complete → call.output = b.unsent
  again : call.ending = .again → call.results.getLast? = some .again
  failed : call.ending = .failed → call.results.getLast? = some .failed

lemma SendCall.From.after {call : SendCall} {w : Socket} {i n : ℕ} {b : Response}
    (h : call.From w (i + 1) { b with sent := b.sent + n })
    (hres : w.result i b.unsent.length = .wrote n) :
    (call.after (b.unsent.take n) n).From w i b := by
  have hsplit (k : ℕ) : b.unsent.take n ++ ({ b with sent := b.sent + n } : Response).unsent.take k =
      b.unsent.take (n + k) := by
    rw [unsent_advance, List.take_add]
  have hlast {x : WriteResult} (hx : call.results.getLast? = some x) :
      (WriteResult.wrote n :: call.results).getLast? = some x := by
    rw [List.getLast?_cons, hx]
    rfl
  refine ⟨⟨hres, h.results⟩, ?_, fun he => ?_, fun he => hlast (h.again he),
    fun he => hlast (h.failed he)⟩
  · change b.unsent.take n ++ call.output = _
    rw [h.output, hsplit]
    rfl
  · change b.unsent.take n ++ call.output = _
    rw [h.complete he, unsent_advance, List.take_append_drop]

/-- A call of `tcp_server_send` ends, as the socket has it, and the cursor is moved past
what was taken. -/
lemma writeLoop_ends (w : Socket) {fuel i : ℕ} {b : Response} (h : b.sent ≤ b.bytes.length)
    (hfuel : b.unsent.length < fuel) :
    ∃ n call, n ≤ b.unsent.length ∧ writeLoop w fuel i b = some call ∧ call.From w i b ∧
      call.response = { b with sent := b.sent + n } ∧ call.output = b.unsent.take n ∧
      sendLoop b call.results = (call.response, call.ending) := by
  induction fuel generalizing i b with
  | zero => omega
  | succ fuel ih =>
    have hlen : b.unsent.length = b.bytes.length - b.sent := List.length_drop
    have hallowed := w.allowed i b.unsent.length
    unfold writeLoop
    cases hres : w.result i b.unsent.length with
    | again =>
      refine ⟨0, _, Nat.zero_le _, rfl, ⟨⟨hres, trivial⟩, ?_, ?_, ?_, ?_⟩, rfl, rfl, rfl⟩
      all_goals simp [WriteResult.taken]
    | failed =>
      refine ⟨0, _, Nat.zero_le _, rfl, ⟨⟨hres, trivial⟩, ?_, ?_, ?_, ?_⟩, rfl, rfl, rfl⟩
      all_goals simp [WriteResult.taken]
    | wrote n =>
      rw [hres] at hallowed
      obtain ⟨hle, hpos⟩ := hallowed
      have hstep : min (max 1 n) b.unsent.length = n := by omega
      simp only
      split_ifs with hdone
      · have hall : b.unsent.take n = b.unsent := List.take_of_length_le (by omega)
        refine ⟨n, _, hle, rfl, ⟨⟨hres, trivial⟩, ?_, fun _ => hall, ?_, ?_⟩, rfl, rfl, ?_⟩
        · simp [WriteResult.taken]
        · simp
        · simp
        · have hnil : ({ b with sent := b.sent + n } : Response).unsent = [] := by
            simp [Response.unsent, hdone]
          simp only [sendLoop, hstep, if_pos hnil]
      · -- the offer was not empty, so the next one is shorter
        have hdrop := unsent_advance b n
        have hlen' : (b.unsent.drop n).length = b.unsent.length - n := List.length_drop
        have hnotnil : ({ b with sent := b.sent + n } : Response).unsent ≠ [] := by
          intro hnil
          rw [hdrop] at hnil
          rw [hnil, List.length_nil] at hlen'
          omega
        obtain ⟨k, call, hk, hcall, hfrom, hresp, hout, hsend⟩ :=
          @ih (i + 1) { b with sent := b.sent + n } (by simp only; omega) (by rw [hdrop]; omega)
        rw [hdrop] at hk hout
        refine ⟨n + k, call.after (b.unsent.take n) n, by omega, ?_, hfrom.after hres, ?_, ?_, ?_⟩
        · rw [hcall, Option.map_some]
        · simp [SendCall.after, hresp, Nat.add_assoc]
        · simp [SendCall.after, hout, List.take_add]
        · simp only [SendCall.after, sendLoop, hstep, if_neg hnotnil, hsend]

/-- A request and the bytes that the socket has accepted of its response. -/
structure Delivery where
  request : Request
  accepted : List UInt8

/-- A call on the response of a request. Between two calls everything else of the request
and of its connection may have changed: `respond` and `send` take them as they are then. -/
inductive DeliveryOp
  | respond (r : Request)
  | send (c : Conn) (w : Socket)

/-- `tcp_respone_generate` or `tcp_server_send`. `none`: the call has not ended after
`fuel` calls of `write`. -/
def deliveryStep (fuel : ℕ) (d : Delivery) : DeliveryOp → Option Delivery
  | .respond r =>
    some { d with request := tcpResponeGenerate { r with response := d.request.response } }
  | .send c w =>
    (writeLoop w fuel 0 d.request.response).bind fun call =>
      (tcpServerSend { c with request := some d.request } call.results).request.map fun r =>
        ⟨r, d.accepted ++ call.output⟩

/-- The text that a call appends to the response. -/
def DeliveryOp.reply : DeliveryOp → List UInt8
  | .respond r => r.reply
  | .send _ _ => []

/-- The responses appended by a run, in order. -/
def replies (ops : List DeliveryOp) : List UInt8 := ops.flatMap DeliveryOp.reply

/-- The response holds `text`, and the socket has accepted what the cursor has passed. -/
structure Delivered (text : List UInt8) (d : Delivery) : Prop where
  bytes : d.request.response.bytes = text
  sent_le : d.request.response.sent ≤ text.length
  accepted : d.accepted = text.take d.request.response.sent

namespace Delivered

variable {text : List UInt8} {d : Delivery}

lemma accepted_append_unsent (h : Delivered text d) :
    d.accepted ++ d.request.response.unsent = text := by
  rw [h.accepted, Response.unsent, h.bytes, List.take_append_drop]

lemma sent_eq (h : Delivered text d) : d.request.response.sent = d.accepted.length := by
  rw [h.accepted, List.length_take, Nat.min_eq_left h.sent_le]

lemma unsent_length_le (h : Delivered text d) : d.request.response.unsent.length ≤ text.length := by
  rw [Response.unsent, h.bytes, List.length_drop]
  exact Nat.sub_le _ _

lemma respond (h : Delivered text d) (r : Request) :
    Delivered (text ++ r.reply)
      { d with request := tcpResponeGenerate { r with response := d.request.response } } := by
  have hreply : ({ r with response := d.request.response } : Request).reply = r.reply := rfl
  have hgen := tcpResponeGenerate_response { r with response := d.request.response }
  rw [hreply] at hgen
  have hle := h.sent_le
  constructor
  · simp only [hgen, h.bytes]
  · simp only [hgen, List.length_append]
    omega
  · simp only [hgen]
    rw [h.accepted, List.take_append_of_le_length hle]

/-- A call of `tcp_server_send` ends, as the socket has it, and keeps the cursor and the
socket in step. -/
lemma send (h : Delivered text d) (c : Conn) (w : Socket) {fuel : ℕ} (hfuel : text.length < fuel) :
    ∃ call d', writeLoop w fuel 0 d.request.response = some call ∧
      call.From w 0 d.request.response ∧
      deliveryStep fuel d (.send c w) = some d' ∧ Delivered text d' ∧
      d'.accepted = d.accepted ++ call.output := by
  have hle : d.request.response.sent ≤ d.request.response.bytes.length := by
    rw [h.bytes]
    exact h.sent_le
  have hunsent := h.unsent_length_le
  have hlen : d.request.response.unsent.length = text.length - d.request.response.sent := by
    rw [Response.unsent, h.bytes, List.length_drop]
  obtain ⟨n, call, hn, hcall, hfrom, hresp, hout, hsend⟩ :=
    writeLoop_ends w (i := 0) hle (hunsent.trans_lt hfuel)
  obtain ⟨r, hr, hrr⟩ : ∃ r,
      (tcpServerSend { c with request := some d.request } call.results).request = some r ∧
        r.response = call.response := by
    obtain ⟨f, hr⟩ := @tcpServerSend_request { c with request := some d.request } _ rfl call.results
    exact ⟨_, hr, by rw [hsend]⟩
  have htaken : d.accepted ++ call.output = text.take (d.request.response.sent + n) := by
    rw [h.accepted, hout, Response.unsent, h.bytes, List.take_add]
  refine ⟨call, ⟨r, d.accepted ++ call.output⟩, hcall, hfrom, ?_, ?_, rfl⟩
  · simp only [deliveryStep, hcall, Option.bind_some, hr, Option.map_some]
  · constructor
    · simp only [hrr, hresp, h.bytes]
    · have hsentLe := h.sent_le
      simp only [hrr, hresp]
      omega
    · simp only [hrr, hresp, htaken]

/-- Every run comes to its end, call by call. -/
lemma run {fuel : ℕ} {ops : List DeliveryOp} (h : Delivered text d)
    (hfuel : (text ++ replies ops).length < fuel) :
    ∃ d', ops.foldlM (deliveryStep fuel) d = some d' ∧ Delivered (text ++ replies ops) d' := by
  induction ops generalizing d text with
  | nil => exact ⟨d, rfl, by simpa [replies] using h⟩
  | cons op ops ih =>
    have hsplit : text ++ replies (op :: ops) = (text ++ op.reply) ++ replies ops := by
      simp [replies]
    rw [hsplit] at hfuel ⊢
    have hstep : ∃ d₁, deliveryStep fuel d op = some d₁ ∧ Delivered (text ++ op.reply) d₁ := by
      cases op with
      | respond r => exact ⟨_, rfl, h.respond r⟩
      | send c w =>
        have htext : text.length < fuel := by
          simp only [List.length_append] at hfuel
          omega
        obtain ⟨-, d₁, -, -, hstep, hd₁, -⟩ := h.send c w htext
        exact ⟨d₁, hstep, by simpa [DeliveryOp.reply] using hd₁⟩
    obtain ⟨d₁, hstep, hd₁⟩ := hstep
    obtain ⟨d', hrun, hd'⟩ := ih hd₁ hfuel
    exact ⟨d', by rw [List.foldlM_cons, hstep]; exact hrun, hd'⟩

end Delivered

/-- **Sending is faithful** over any number of calls. Every call on a new request ends
within one `write` more than its response buffer has bytes. What the socket has accepted
is a prefix of the responses, and the cursor has moved by its length. Of a further call
the results are those of the socket, it is stopped only by EAGAIN or an error that the
socket has given, and one that is not stopped has sent everything. -/
theorem send_faithful {size fuel : ℕ} (pool : ℕ) {ops : List DeliveryOp}
    (hroom : (replies ops).length ≤ size) (hfuel : size < fuel) :
    ∃ d, ops.foldlM (deliveryStep fuel) ⟨newRequest size pool, []⟩ = some d ∧
      d.request.response.bytes = replies ops ∧ d.accepted <+: replies ops ∧
      d.request.response.sent = d.accepted.length ∧
      ∀ c w, ∃ call d', writeLoop w fuel 0 d.request.response = some call ∧
        call.From w 0 d.request.response ∧ deliveryStep fuel d (.send c w) = some d' ∧
        d'.accepted = d.accepted ++ call.output ∧
        (call.ending = .complete → d'.accepted = replies ops) := by
  have hnew : Delivered [] ⟨newRequest size pool, []⟩ := ⟨rfl, Nat.le_refl 0, rfl⟩
  obtain ⟨d, hrun, hd⟩ := hnew.run (hroom.trans_lt hfuel)
  rw [List.nil_append] at hd
  refine ⟨d, hrun, hd.bytes, ⟨_, hd.accepted_append_unsent⟩, hd.sent_eq, fun c w => ?_⟩
  obtain ⟨call, d', hcall, hfrom, hstep, -, haccepted⟩ := hd.send c w (hroom.trans_lt hfuel)
  refine ⟨call, d', hcall, hfrom, hstep, haccepted, fun he => ?_⟩
  rw [haccepted, hfrom.complete he]
  exact hd.accepted_append_unsent

/-- A socket that takes one byte and then gives EAGAIN. -/
def shortSocket : Socket where
  result i k := if i = 0 then .wrote (min 1 k) else .again
  allowed i k := by
    split_ifs
    · exact ⟨Nat.min_le_right 1 k, fun hk => Nat.lt_min.mpr ⟨Nat.one_pos, hk⟩⟩
    · trivial

/-- A socket that takes all it is offered. -/
def wholeSocket : Socket where
  result _ k := .wrote k
  allowed _ _ := ⟨le_rfl, id⟩

/-- A PUT request that has been read. -/
def putRequest (size : ℕ) : Request :=
  { newRequest size 0 with protocol := { protocolInit with type := .put } }

/-- One byte of the first answer, a second answer behind the rest, and another byte. -/
def answeredTwice : List DeliveryOp :=
  [.respond (putRequest 512), .send (newConn 7 1) shortSocket,
    .respond { putRequest 512 with error := .error }, .send (newConn 7 1) shortSocket]

/-- Two bytes are taken; the next call, with a socket that takes all, sends the rest. -/
theorem send_faithful_resumed :
    ∃ d, answeredTwice.foldlM (deliveryStep 513) ⟨newRequest 512 0, []⟩ = some d ∧
      d.accepted = okText.take 2 ∧
      ∃ (call : SendCall) (d' : Delivery), call.From wholeSocket 0 d.request.response ∧
        deliveryStep 513 d (.send (newConn 7 1) wholeSocket) = some d' ∧
        call.ending = .complete ∧ d'.accepted = okText ++ errorText := by
  obtain ⟨d, hrun, -, -, -, hcalls⟩ :=
    @send_faithful 512 513 0 answeredTwice (by decide) (by decide)
  obtain ⟨call, d', hcall, hfrom, hstep, -, hall⟩ := hcalls (newConn 7 1) wholeSocket
  have htaken : (answeredTwice.foldlM (deliveryStep 513) ⟨newRequest 512 0, []⟩).map
      Delivery.accepted = some (okText.take 2) := by decide
  have hended : (answeredTwice.foldlM (deliveryStep 513) ⟨newRequest 512 0, []⟩).bind (fun d =>
      (writeLoop wholeSocket 513 0 d.request.response).map SendCall.ending) =
        some .complete := by decide
  rw [hrun, Option.map_some, Option.some.injEq] at htaken
  rw [hrun, Option.bind_some, hcall, Option.map_some, Option.some.injEq] at hended
  exact ⟨d, hrun, htaken, call, d', hfrom, hstep, hended, hall hended⟩

end Xpipe
